/-
Linked lists in a heap.

A heap has a node at some addresses, and a node names the address of the next one; `0` is
the null address.  A list is what following `next` from an address to null goes through.

* `IsList.nodup` — it goes through no address twice;
* `isList_range` — the nodes of an array, linked in order;
* `walk_eq_some` — reading a list node by node reads all of it;
* `release_eq_some` — a list released node by node is gone, each node once, and the rest
  of the heap is as it was.
-/
import Mathlib.Data.List.Nodup
import Mathlib.Data.List.Range
import Mathlib.Logic.Function.Basic
import Mathlib.Algebra.Order.Ring.Nat
import Mathlib.Tactic.Common

namespace Linked

/-- A node at some addresses. -/
abbrev Heap (α : Type*) := ℕ → Option α

variable {α : Type*} {next : α → ℕ}

/-- `l` is the list at `a`, each node with its address. -/
def IsList (next : α → ℕ) (h : Heap α) : ℕ → List (ℕ × α) → Prop
  | a, [] => a = 0
  | a, x :: l => x.1 = a ∧ a ≠ 0 ∧ h a = some x.2 ∧ IsList next h (next x.2) l

/-- The heap without the nodes at these addresses. -/
def without (h : Heap α) (as : List ℕ) : Heap α := fun a => if a ∈ as then none else h a

/-- The addresses of a list, and the heap there. -/
theorem IsList.mem {h : Heap α} {a : ℕ} {l : List (ℕ × α)} (hl : IsList next h a l)
    {x : ℕ × α} (hx : x ∈ l) : x.1 ≠ 0 ∧ h x.1 = some x.2 := by
  induction l generalizing a with
  | nil => exact absurd hx (by simp)
  | cons y l ih =>
    obtain ⟨rfl, hne, hy, hrest⟩ := hl
    rcases List.mem_cons.mp hx with rfl | hx
    · exact ⟨hne, hy⟩
    · exact ih hrest hx

/-- Only the heap at the addresses of the list matters. -/
theorem IsList.congr {h h' : Heap α} {a : ℕ} {l : List (ℕ × α)} (hl : IsList next h a l)
    (hsame : ∀ x ∈ l, h' x.1 = h x.1) : IsList next h' a l := by
  induction l generalizing a with
  | nil => exact hl
  | cons y l ih =>
    obtain ⟨rfl, hne, hy, hrest⟩ := hl
    exact ⟨rfl, hne, (hsame y List.mem_cons_self).trans hy,
      ih hrest fun x hx => hsame x (List.mem_cons_of_mem y hx)⟩

/-- There is one list at an address. -/
theorem IsList.unique {h : Heap α} {a : ℕ} {l l' : List (ℕ × α)} (hl : IsList next h a l)
    (hl' : IsList next h a l') : l = l' := by
  induction l generalizing a l' with
  | nil =>
    cases l' with
    | nil => rfl
    | cons y' l' => exact absurd hl hl'.2.1
  | cons y l ih =>
    obtain ⟨hya, hne, hy, hrest⟩ := hl
    cases l' with
    | nil => exact absurd hl' hne
    | cons y' l' =>
      obtain ⟨hya', -, hy', hrest'⟩ := hl'
      have heq : y = y' :=
        Prod.ext (hya.trans hya'.symm) (Option.some_inj.mp (hy.symm.trans hy'))
      subst heq
      rw [ih hrest hrest']

/-- From each of its addresses on, a list is one of its tails. -/
theorem IsList.of_mem {h : Heap α} {a : ℕ} {l : List (ℕ × α)} (hl : IsList next h a l)
    {x : ℕ × α} (hx : x ∈ l) : ∃ l', IsList next h x.1 l' ∧ l'.length ≤ l.length := by
  induction l generalizing a with
  | nil => exact absurd hx (by simp)
  | cons y l ih =>
    rcases List.mem_cons.mp hx with rfl | hx
    · exact ⟨x :: l, hl.1 ▸ hl, le_refl _⟩
    · obtain ⟨l', hl', hlen⟩ := ih hl.2.2.2 hx
      exact ⟨l', hl', hlen.trans (Nat.le_succ _)⟩

/-- No address comes twice: the list from there on would be shorter than itself. -/
theorem IsList.nodup {h : Heap α} {a : ℕ} {l : List (ℕ × α)} (hl : IsList next h a l) :
    (l.map Prod.fst).Nodup := by
  induction l generalizing a with
  | nil => exact List.nodup_nil
  | cons y l ih =>
    obtain ⟨rfl, hne, hy, hrest⟩ := hl
    rw [List.map_cons, List.nodup_cons]
    refine ⟨?_, ih hrest⟩
    intro hmem
    obtain ⟨x, hx, hxy⟩ := List.mem_map.mp hmem
    obtain ⟨l', hl', hlen⟩ := hrest.of_mem hx
    have hsame : l' = y :: l := (hxy ▸ hl').unique ⟨rfl, hne, hy, hrest⟩
    rw [hsame, List.length_cons] at hlen
    exact absurd hlen (by omega)

/-- Nodes that lie side by side, each linked to the one behind it and the last to null, are a
list from each of them on. -/
theorem isList_range {h : Heap α} {base n : ℕ} {f : ℕ → α} (hbase : base ≠ 0)
    (hnode : ∀ j < n, h (base + j) = some (f j))
    (hnext : ∀ j < n, next (f j) = if j + 1 < n then base + (j + 1) else 0) {i k : ℕ}
    (hi : i + (k + 1) = n) :
    IsList next h (base + i) ((List.range' i (k + 1)).map fun j => (base + j, f j)) := by
  induction k generalizing i with
  | zero =>
    have hlast := hnext i (by omega)
    rw [if_neg (by omega)] at hlast
    exact ⟨rfl, by omega, hnode i (by omega), hlast⟩
  | succ k ih =>
    have hlink := hnext i (by omega)
    rw [if_pos (by omega)] at hlink
    rw [List.range'_succ, List.map_cons]
    exact ⟨rfl, by omega, hnode i (by omega), hlink ▸ ih (by omega)⟩

/-! ### Reading a list -/

/-- Read the nodes from `a` on; `none` without the fuel, or where there is no node. -/
def walk (next : α → ℕ) (h : Heap α) : ℕ → ℕ → Option (List (ℕ × α))
  | fuel, a =>
    if a = 0 then some []
    else
      match fuel with
      | 0 => none
      | fuel + 1 => (h a).bind fun x => (walk next h fuel (next x)).map fun l => (a, x) :: l

@[simp] theorem walk_null (h : Heap α) (fuel : ℕ) : walk next h fuel 0 = some [] := by
  cases fuel <;> rfl

theorem walk_succ {h : Heap α} {a : ℕ} (ha : a ≠ 0) (fuel : ℕ) :
    walk next h (fuel + 1) a =
      (h a).bind fun x => (walk next h fuel (next x)).map fun l => (a, x) :: l :=
  if_neg ha

theorem walk_eq_some {h : Heap α} {a fuel : ℕ} {l : List (ℕ × α)} (hl : IsList next h a l)
    (hfuel : l.length ≤ fuel) : walk next h fuel a = some l := by
  induction l generalizing a fuel with
  | nil =>
    obtain rfl := hl
    exact walk_null h fuel
  | cons y l ih =>
    obtain ⟨rfl, hne, hy, hrest⟩ := hl
    obtain ⟨fuel, rfl⟩ : ∃ k, fuel = k + 1 := ⟨fuel - 1, by simp at hfuel; omega⟩
    rw [walk_succ hne, hy, Option.bind_some, ih hrest (by simpa using hfuel), Option.map_some]

/-! ### Releasing a list -/

/-- Release the nodes from `a` on, the link of each read first; the addresses are those
that were released. -/
def release (next : α → ℕ) : ℕ → Heap α → ℕ → Option (Heap α × List ℕ)
  | fuel, h, a =>
    if a = 0 then some (h, [])
    else
      match fuel with
      | 0 => none
      | fuel + 1 => (h a).bind fun x =>
          (release next fuel (Function.update h a none) (next x)).map fun r => (r.1, a :: r.2)

@[simp] theorem release_null (h : Heap α) (fuel : ℕ) :
    release next fuel h 0 = some (h, []) := by
  cases fuel <;> rfl

theorem release_succ {h : Heap α} {a : ℕ} (ha : a ≠ 0) (fuel : ℕ) :
    release next (fuel + 1) h a = (h a).bind fun x =>
      (release next fuel (Function.update h a none) (next x)).map fun r => (r.1, a :: r.2) :=
  if_neg ha

@[simp] theorem without_nil (h : Heap α) : without h [] = h := by
  funext b
  exact if_neg (by simp)

theorem without_cons (h : Heap α) (a : ℕ) (as : List ℕ) :
    without (Function.update h a none) as = without h (a :: as) := by
  funext b
  unfold without
  by_cases hba : b = a
  · simp [hba]
  · simp [hba]

theorem release_eq_some {h : Heap α} {a fuel : ℕ} {l : List (ℕ × α)} (hl : IsList next h a l)
    (hfuel : l.length ≤ fuel) :
    release next fuel h a = some (without h (l.map Prod.fst), l.map Prod.fst) := by
  induction l generalizing h a fuel with
  | nil =>
    obtain rfl := hl
    rw [release_null, List.map_nil, without_nil]
  | cons y l ih =>
    have hnodup := hl.nodup
    obtain ⟨rfl, hne, hy, hrest⟩ := hl
    rw [List.map_cons, List.nodup_cons] at hnodup
    obtain ⟨fuel, rfl⟩ : ∃ k, fuel = k + 1 := ⟨fuel - 1, by simp at hfuel; omega⟩
    -- the rest of the list does not go through the node just released
    have hrest' : IsList next (Function.update h y.1 none) (next y.2) l := by
      refine hrest.congr ?_
      intro x hx
      refine Function.update_of_ne ?_ _ _
      intro hxy
      exact hnodup.1 (hxy ▸ List.mem_map_of_mem hx)
    rw [release_succ hne, hy, Option.bind_some, ih hrest' (by simpa using hfuel),
      Option.map_some, without_cons, List.map_cons]

end Linked
