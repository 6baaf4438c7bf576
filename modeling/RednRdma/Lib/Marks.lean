/-
Marks set above a floor.

Marks are set one after another.  A mark is set some way above the floor, or at a place of
its own, and a mark that settles brings the floor up to the highest mark there is.

* `lay` — the marks a list of settings leaves;
* `Above` — every mark is on or above the floor it found;
* `floor_lay_of_settles` — when every mark settles, the floor is the sum of the ways;
* `floor_eq_settled_iff` — the floor is the last mark that settled exactly when no mark
  before it is higher.
-/
import Mathlib.Data.List.DropRight
import Mathlib.Algebra.BigOperators.Group.List.Basic
import Mathlib.Algebra.GroupWithZero.Nat
import Mathlib.Algebra.Order.Group.Nat

namespace Marks

/-- A mark, and whether the floor comes up to it. -/
structure Mark where
  pos : ℕ
  settles : Bool
  deriving Repr, DecidableEq

/-- Where a mark is set. -/
inductive Place
  /-- This far above the floor. -/
  | above (way : ℕ)
  /-- Here. -/
  | here (pos : ℕ)
  deriving Repr, DecidableEq

/-- The highest mark. -/
def top : List Mark → ℕ
  | [] => 0
  | m :: ms => max m.pos (top ms)

/-- The marks up to the last one that settles. -/
def upToSettled (ms : List Mark) : List Mark := ms.rdropWhile fun m => !m.settles

/-- The highest mark up to the last one that settles. -/
def floor (ms : List Mark) : ℕ := top (upToSettled ms)

/-- The last mark that settles. -/
def settled (ms : List Mark) : ℕ := ((upToSettled ms).getLast?.map Mark.pos).getD 0

/-- Where a mark goes. -/
def Place.pos (ms : List Mark) : Place → ℕ
  | above way => floor ms + way
  | here p => p

/-- The marks of some settings, in order. -/
def lay (ds : List (Place × Bool)) : List Mark :=
  ds.foldl (fun ms d => ms ++ [⟨d.1.pos ms, d.2⟩]) []

variable {ms ms' : List Mark} {m : Mark}

@[simp] theorem top_nil : top [] = 0 := rfl

@[simp] theorem floor_nil : floor [] = 0 := rfl

@[simp] theorem lay_nil : lay [] = [] := rfl

@[simp] theorem top_append (ms ms' : List Mark) : top (ms ++ ms') = max (top ms) (top ms') := by
  induction ms with
  | nil => simp
  | cons m ms ih => rw [List.cons_append, top, top, ih, max_assoc]

@[simp] theorem top_concat (ms : List Mark) (m : Mark) :
    top (ms ++ [m]) = max (top ms) m.pos := by
  rw [top_append, top, top_nil, Nat.max_zero]

theorem top_le_iff {n : ℕ} : top ms ≤ n ↔ ∀ m ∈ ms, m.pos ≤ n := by
  induction ms with
  | nil => simp
  | cons m ms ih => rw [top, Nat.max_le, ih, List.forall_mem_cons]

theorem le_top (h : m ∈ ms) : m.pos ≤ top ms := top_le_iff.mp (le_refl _) m h

theorem upToSettled_settles (ms : List Mark) (h : m.settles = true) :
    upToSettled (ms ++ [m]) = ms ++ [m] :=
  List.rdropWhile_concat_neg _ _ _ (by simp [h])

theorem upToSettled_open (ms : List Mark) (h : m.settles = false) :
    upToSettled (ms ++ [m]) = upToSettled ms :=
  List.rdropWhile_concat_pos _ _ _ (by simp [h])

theorem floor_settles (ms : List Mark) (h : m.settles = true) :
    floor (ms ++ [m]) = max (top ms) m.pos := by
  rw [floor, upToSettled_settles ms h, top_concat]

theorem floor_open (ms : List Mark) (h : m.settles = false) : floor (ms ++ [m]) = floor ms := by
  rw [floor, upToSettled_open ms h, floor]

theorem floor_le_top (ms : List Mark) : floor ms ≤ top ms :=
  top_le_iff.mpr fun _ hm => le_top ((List.rdropWhile_prefix _ ms).subset hm)

/-- The floor never comes down. -/
theorem floor_le_append (ms ms' : List Mark) : floor ms ≤ floor (ms ++ ms') := by
  induction ms' using List.reverseRecOn with
  | nil => rw [List.append_nil]
  | append_singleton ms' m ih =>
    rw [← List.append_assoc]
    cases hm : m.settles with
    | false => rwa [floor_open _ hm]
    | true =>
      rw [floor_settles _ hm]
      exact ih.trans ((floor_le_top _).trans (le_max_left _ _))

theorem lay_concat (ds : List (Place × Bool)) (d : Place × Bool) :
    lay (ds ++ [d]) = lay ds ++ [⟨d.1.pos (lay ds), d.2⟩] := by
  rw [lay, List.foldl_append]
  rfl

theorem floor_lay_le_append (ds ds' : List (Place × Bool)) :
    floor (lay ds) ≤ floor (lay (ds ++ ds')) := by
  induction ds' using List.reverseRecOn with
  | nil => rw [List.append_nil]
  | append_singleton ds' d ih =>
    rw [← List.append_assoc, lay_concat]
    exact ih.trans (floor_le_append _ _)

@[simp] theorem length_lay (ds : List (Place × Bool)) : (lay ds).length = ds.length := by
  induction ds using List.reverseRecOn with
  | nil => rfl
  | append_singleton ds d ih => rw [lay_concat, List.length_append, List.length_append, ih]; rfl

/-- The marks of the first settings are the first marks. -/
theorem take_lay (ds : List (Place × Bool)) (i : ℕ) : (lay ds).take i = lay (ds.take i) := by
  induction ds using List.reverseRecOn with
  | nil => simp
  | append_singleton ds d ih =>
    rcases Nat.lt_or_ge ds.length i with hlt | hge
    · rw [List.take_of_length_le, List.take_of_length_le]
      · rw [List.length_append, List.length_singleton]
        omega
      · rw [length_lay, List.length_append, List.length_singleton]
        omega
    · rw [lay_concat, List.take_append_of_le_length (by rwa [length_lay]),
        List.take_append_of_le_length hge, ih]

/-- A mark is where its setting puts it, above the marks before. -/
theorem getElem?_lay {ds : List (Place × Bool)} {i : ℕ} {d : Place × Bool}
    (h : ds[i]? = some d) : (lay ds)[i]? = some ⟨d.1.pos (lay (ds.take i)), d.2⟩ := by
  induction ds using List.reverseRecOn with
  | nil => simp at h
  | append_singleton ds e ih =>
    rw [lay_concat]
    rcases Nat.lt_or_ge i ds.length with hlt | hge
    · rw [List.getElem?_append_left hlt] at h
      rw [List.getElem?_append_left (by rwa [length_lay]), List.take_append_of_le_length hlt.le]
      exact ih h
    · obtain ⟨hi, -⟩ := List.getElem?_eq_some_iff.mp h
      rw [List.length_append, List.length_singleton] at hi
      obtain rfl : i = ds.length := by omega
      obtain rfl : e = d := by simpa using h
      rw [List.take_append_of_le_length (le_refl _), List.take_length]
      simp

/-! ### Settings above the floor -/

/-- The highest mark, above the floor, when one more is set there. -/
theorem top_concat_sub (ms : List Mark) (way : ℕ) (settles : Bool) :
    top (ms ++ [⟨floor ms + way, settles⟩]) - floor ms = max (top ms - floor ms) way := by
  have := floor_le_top ms
  rw [top_concat]
  show max (top ms) (floor ms + way) - floor ms = _
  omega

/-- Every mark settles: the floor is the sum of the ways. -/
theorem floor_lay_of_settles {ways : List ℕ} :
    floor (lay (ways.map fun way => (.above way, true))) = ways.sum ∧
      top (lay (ways.map fun way => (.above way, true))) = ways.sum := by
  induction ways using List.reverseRecOn with
  | nil => exact ⟨rfl, rfl⟩
  | append_singleton ways way ih =>
    obtain ⟨hfloor, htop⟩ := ih
    rw [List.map_append, List.map_singleton, lay_concat, floor_settles _ rfl, top_concat, htop,
      List.sum_append, List.sum_singleton, Place.pos, hfloor]
    have hmax : max ways.sum (ways.sum + way) = ways.sum + way :=
      Nat.max_eq_right (Nat.le_add_right _ _)
    exact ⟨hmax, hmax⟩

/-- Every mark settles: each is at the sum of the ways up to its own. -/
theorem getElem?_lay_of_settles {ways : List ℕ} {k way : ℕ} (h : ways[k]? = some way) :
    (lay (ways.map fun way => (.above way, true)))[k]? = some ⟨(ways.take (k + 1)).sum, true⟩ := by
  have hplace : (ways.map fun way => (Place.above way, true))[k]? = some (.above way, true) := by
    rw [List.getElem?_map, h]
    rfl
  rw [getElem?_lay hplace, ← List.map_take, Place.pos, floor_lay_of_settles.1, List.take_add_one,
    h, List.sum_append, Option.toList_some, List.sum_singleton]

/-! ### The floor and the last mark that settled -/

/-- The floor is the last mark that settled exactly when nothing before it is higher. -/
theorem floor_eq_settled_iff :
    floor ms = settled ms ↔ ∀ m ∈ upToSettled ms, m.pos ≤ settled ms := by
  rw [← top_le_iff]
  refine ⟨fun h => h.le, fun h => Nat.le_antisymm h ?_⟩
  rw [settled]
  cases hlast : (upToSettled ms).getLast? with
  | none => exact Nat.zero_le _
  | some m => exact le_top (List.mem_of_getLast? hlast)

end Marks
