/-
Rings whose cells carry the phase of their lap.

A writer goes around a ring of `N` cells and marks every cell it writes with the parity
of the lap it is on.  A reader behind it takes a cell for new when the cell is valid and
marked for the lap the reader is on, so neither has to know where the other is.

* `Queue` — the cells from a position on hold a list, and nothing behind it looks new;
* `Queue.put`, `Queue.take` — one item more, one item less;
* `Queue.isNew_iff`, `Queue.cell_head` — what the reader sees is the head of the list;
* `Queue.of_marks` — cells that are written over in place, with their marks kept;
* `sweep`, `Queue.sweep` — cells that are taken out of the middle, by moving the ones
  before them up;
-/
import Mathlib.Data.Nat.ModEq
import Mathlib.Logic.Function.Basic
import Mathlib.Data.List.Basic

namespace Phase

variable {γ : Type*}

/-- The parity of the lap that position `n` is on. -/
def lap (N n : ℕ) : Bool := n / N % 2 = 1

theorem lap_add {N : ℕ} (hN : 0 < N) (n : ℕ) : lap N (n + N) = !lap N n := by
  rw [lap, lap, Nat.add_div_right n hN]
  rcases Nat.mod_two_eq_zero_or_one (n / N) with h | h
  · have hs : (n / N).succ % 2 = 1 := by omega
    simp [h, hs]
  · have hs : (n / N).succ % 2 = 0 := by omega
    simp [h, hs]

section

variable (N : ℕ) (valid mark : γ → Bool)

/-- The cell at position `n` looks new to a reader that has come there. -/
def IsNew (cells : ℕ → γ) (n : ℕ) : Prop :=
  valid (cells (n % N)) = true ∧ mark (cells (n % N)) = lap N n

instance (cells : ℕ → γ) (n : ℕ) : Decidable (IsNew N valid mark cells n) :=
  inferInstanceAs (Decidable (_ ∧ _))

/-- The cells from position `lo` on hold the items of `l`, marked for their laps, and no
cell behind them looks new. -/
structure Queue (cells : ℕ → γ) (lo : ℕ) (l : List γ) : Prop where
  length_le : l.length ≤ N
  item : ∀ i c, l[i]? = some c → cells ((lo + i) % N) = c
  isNew : ∀ i < l.length, IsNew N valid mark cells (lo + i)
  stale : ∀ n, lo + l.length ≤ n → n < lo + N → ¬ IsNew N valid mark cells n

end

namespace Queue

variable {N : ℕ} {valid mark : γ → Bool} {cells : ℕ → γ} {lo : ℕ} {l : List γ} {c : γ}

/-- A ring with no valid cell is empty. -/
theorem blank (h : ∀ j < N, valid (cells j) = false) : Queue N valid mark cells 0 [] where
  length_le := Nat.zero_le N
  item := by simp
  isNew := by simp
  stale := by
    intro n _ hn hnew
    rw [Nat.zero_add] at hn
    have hcell : valid (cells (n % N)) = false := h _ (Nat.mod_lt n (by omega))
    rw [hnew.1] at hcell
    exact Bool.noConfusion hcell

/-- The reader sees an item exactly when there is one. -/
theorem isNew_iff (h : Queue N valid mark cells lo l) (hN : 0 < N) :
    IsNew N valid mark cells lo ↔ l ≠ [] := by
  constructor
  · rintro hnew rfl
    exact h.stale lo (by simp) (by omega) hnew
  · intro hne
    have := h.isNew 0 (List.length_pos_iff.mpr hne)
    rwa [Nat.add_zero] at this

theorem cell_head (h : Queue N valid mark cells lo (c :: l)) : cells (lo % N) = c := by
  have := h.item 0 c rfl
  rwa [Nat.add_zero] at this

/-- The reader goes past the first item. -/
theorem take (h : Queue N valid mark cells lo (c :: l)) :
    Queue N valid mark cells (lo + 1) l where
  length_le := by
    have := h.length_le
    rw [List.length_cons] at this
    omega
  item := by
    intro i d hd
    have := h.item (i + 1) d (by simpa using hd)
    rwa [show lo + (i + 1) = lo + 1 + i by omega] at this
  isNew := by
    intro i hi
    have := h.isNew (i + 1) (by simpa using hi)
    rwa [show lo + (i + 1) = lo + 1 + i by omega] at this
  stale := by
    intro n hlo hn
    rcases Nat.lt_or_ge n (lo + N) with hlt | hge
    · refine h.stale n ?_ hlt
      rw [List.length_cons]
      omega
    · -- the cell of the item that was taken, seen from one lap later
      obtain rfl : n = lo + N := by omega
      have hN : 0 < N := by
        have := h.length_le
        rw [List.length_cons] at this
        omega
      have hnew := h.isNew 0 (by simp)
      rw [Nat.add_zero] at hnew
      intro hagain
      have hmark := hagain.2
      rw [Nat.add_mod_right, hnew.2, lap_add hN] at hmark
      simp at hmark

/-- Cells of different positions within one lap are different cells. -/
theorem mod_ne {m n : ℕ} (hlt : m < n) (hle : n < m + N) : m % N ≠ n % N := by
  intro heq
  have : m + N ≤ n := Nat.ModEq.add_le_of_lt heq hlt
  omega

/-- The writer puts one more item, unless it is a whole lap ahead. -/
theorem put (h : Queue N valid mark cells lo l) (hroom : l.length < N)
    (hvalid : valid c = true) (hmark : mark c = lap N (lo + l.length)) :
    Queue N valid mark (Function.update cells ((lo + l.length) % N) c) lo (l ++ [c]) := by
  have hkeep : ∀ n, lo ≤ n → n < lo + N → n ≠ lo + l.length →
      Function.update cells ((lo + l.length) % N) c (n % N) = cells (n % N) := by
    intro n hlo hn hne
    refine Function.update_of_ne ?_ c cells
    rcases Nat.lt_or_ge n (lo + l.length) with hlt | hge
    · exact mod_ne hlt (by omega)
    · exact (mod_ne (by omega) (by omega)).symm
  constructor
  · rw [List.length_append, List.length_singleton]
    omega
  · intro i d hd
    rcases Nat.lt_or_ge i l.length with hlt | hge
    · rw [List.getElem?_append_left hlt] at hd
      rw [hkeep _ (by omega) (by omega) (by omega)]
      exact h.item i d hd
    · obtain ⟨hi, -⟩ := List.getElem?_eq_some_iff.mp hd
      rw [List.length_append, List.length_singleton] at hi
      obtain rfl : i = l.length := by omega
      obtain rfl : c = d := by simpa using hd
      exact Function.update_self ..
  · intro i hi
    rw [List.length_append, List.length_singleton] at hi
    rcases Nat.lt_or_ge i l.length with hlt | hge
    · rw [IsNew, hkeep _ (by omega) (by omega) (by omega)]
      exact h.isNew i hlt
    · obtain rfl : i = l.length := by omega
      rw [IsNew, Function.update_self]
      exact ⟨hvalid, hmark⟩
  · intro n hlo hn
    rw [List.length_append, List.length_singleton] at hlo
    rw [IsNew, hkeep _ (by omega) hn (by omega)]
    exact h.stale n (by omega) hn

/-- The reader moves to `hi`, inside the list, after some of its cells have been written
over with valid items under the marks they had. -/
theorem of_marks {cells' : ℕ → γ} {hi : ℕ} {l' : List γ} (h : Queue N valid mark cells lo l)
    (hlo : lo ≤ hi) (hend : hi + l'.length = lo + l.length)
    (hitem : ∀ i c, l'[i]? = some c → cells' ((hi + i) % N) = c)
    (hvalid : ∀ n, lo ≤ n → n < lo + l.length → valid (cells' (n % N)) = true)
    (hmark : ∀ n, lo ≤ n → n < lo + l.length →
      mark (cells' (n % N)) = mark (cells (n % N)))
    (hkeep : ∀ n, lo + l.length ≤ n → n < lo + N → cells' (n % N) = cells (n % N)) :
    Queue N valid mark cells' hi l' := by
  have hlen := h.length_le
  have hnew : ∀ n, lo ≤ n → n < lo + l.length → IsNew N valid mark cells' n := by
    intro n hn hlt
    have hold := h.isNew (n - lo) (by omega)
    rw [show lo + (n - lo) = n by omega] at hold
    exact ⟨hvalid n hn hlt, (hmark n hn hlt).trans hold.2⟩
  constructor
  · omega
  · exact hitem
  · intro i hi'
    exact hnew _ (by omega) (by omega)
  · intro n hn hlt
    rcases Nat.lt_or_ge n (lo + N) with hbefore | hge
    · rw [IsNew, hkeep n (by omega) hbefore]
      exact h.stale n (by omega) hbefore
    · -- cells the reader has gone past, seen from one lap later
      have hN : 0 < N := by omega
      have hpast := hnew (n - N) (by omega) (by omega)
      intro hagain
      have hmod : n % N = (n - N) % N := by
        conv_lhs => rw [show n = n - N + N by omega]
        rw [Nat.add_mod_right]
      have hlap : lap N n = !lap N (n - N) := by
        conv_lhs => rw [show n = n - N + N by omega]
        exact lap_add hN (n - N)
      have hboth := hagain.2
      rw [hmod, hpast.2, hlap] at hboth
      simp at hboth

end Queue

/-! ### Taking out cells in place -/

section

variable {δ : Type*} (N lo : ℕ) (gone : γ → Bool) (onto : γ → γ → γ)

/-- Go down the `d` cells from position `lo` on.  A cell that is gone is counted, and one
that stays is moved up by the count. -/
def sweep : ℕ → (ℕ → γ) → ℕ → (ℕ → γ) × ℕ
  | 0, cells, freed => (cells, freed)
  | d + 1, cells, freed =>
    let c := cells ((lo + d) % N)
    if gone c then sweep d cells (freed + 1)
    else if freed ≠ 0 then
      let dest := (lo + d + freed) % N
      sweep d (Function.update cells dest (onto (cells dest) c)) freed
    else sweep d cells freed

/-- Half way down: with `d` of `p` cells to go, `kept` shows what stays of the others. -/
structure Swept (valid mark : γ → Bool) (view : γ → δ) (cells₀ cells : ℕ → γ) (p d freed : ℕ)
    (kept : List δ) : Prop where
  length : d + freed + kept.length = p
  item : ∀ i x, kept[i]? = some x → view (cells ((lo + d + freed + i) % N)) = x
  below : ∀ n, lo ≤ n → n < lo + d + freed → cells (n % N) = cells₀ (n % N)
  beyond : ∀ n, lo + p ≤ n → n < lo + N → cells (n % N) = cells₀ (n % N)
  valid : ∀ n, lo ≤ n → n < lo + p → valid (cells (n % N)) = true
  mark : ∀ n, lo ≤ n → n < lo + p → mark (cells (n % N)) = mark (cells₀ (n % N))

variable {N lo gone onto} {valid mark : γ → Bool} {view : γ → δ} {cells₀ cells : ℕ → γ}
  {p d freed : ℕ} {kept : List δ}

theorem Swept.skip (h : Swept N lo valid mark view cells₀ cells p (d + 1) freed kept) :
    Swept N lo valid mark view cells₀ cells p d (freed + 1) kept where
  length := by
    have := h.length
    omega
  item := by
    intro i x hx
    have := h.item i x hx
    rwa [show lo + (d + 1) + freed + i = lo + d + (freed + 1) + i by omega] at this
  below := fun n hn hlt => h.below n hn (by omega)
  beyond := h.beyond
  valid := h.valid
  mark := h.mark

theorem Swept.keep (h : Swept N lo valid mark view cells₀ cells p (d + 1) 0 kept) :
    Swept N lo valid mark view cells₀ cells p d 0 (view (cells ((lo + d) % N)) :: kept) where
  length := by
    have := h.length
    rw [List.length_cons]
    omega
  item := by
    intro i x hx
    cases i with
    | zero => simpa using hx
    | succ i =>
      have := h.item i x (by simpa using hx)
      rwa [show lo + (d + 1) + 0 + i = lo + d + 0 + (i + 1) by omega] at this
  below := fun n hn hlt => h.below n hn (by omega)
  beyond := h.beyond
  valid := h.valid
  mark := h.mark

/-- A cell moves over one whose place is above what is still to be looked at. -/
theorem Swept.move (h : Swept N lo valid mark view cells₀ cells p (d + 1) freed kept)
    (hp : p ≤ N) (hpos : 0 < freed) {c : γ}
    (hview : view c = view (cells ((lo + d) % N))) (hvalid : valid c = true)
    (hmark : mark c = mark (cells ((lo + d + freed) % N))) :
    Swept N lo valid mark view cells₀
      (Function.update cells ((lo + d + freed) % N) c) p d freed
      (view (cells ((lo + d) % N)) :: kept) := by
  have hlen := h.length
  have hother : ∀ n, lo ≤ n → n < lo + N → n ≠ lo + d + freed →
      Function.update cells ((lo + d + freed) % N) c (n % N) = cells (n % N) := by
    intro n hlo hn hne
    refine Function.update_of_ne ?_ c cells
    rcases Nat.lt_or_ge n (lo + d + freed) with hlt | hge
    · exact Queue.mod_ne hlt (by omega)
    · exact (Queue.mod_ne (by omega) (by omega)).symm
  constructor
  · rw [List.length_cons]
    omega
  · intro i x hx
    cases i with
    | zero =>
      rw [Nat.add_zero, Function.update_self, hview]
      simpa using hx
    | succ i =>
      have hi : kept[i]? = some x := by simpa using hx
      obtain ⟨hlt, -⟩ := List.getElem?_eq_some_iff.mp hi
      rw [hother _ (by omega) (by omega) (by omega)]
      have := h.item i x hi
      rwa [show lo + (d + 1) + freed + i = lo + d + freed + (i + 1) by omega] at this
  · intro n hn hlt
    rw [hother n hn (by omega) (by omega)]
    exact h.below n hn (by omega)
  · intro n hn hlt
    rw [hother n (by omega) hlt (by omega)]
    exact h.beyond n hn hlt
  · intro n hn hlt
    by_cases hne : n = lo + d + freed
    · rwa [hne, Function.update_self]
    · rw [hother n hn (by omega) hne]
      exact h.valid n hn hlt
  · intro n hn hlt
    by_cases hne : n = lo + d + freed
    · rw [hne, Function.update_self, hmark, ← hne]
      exact h.mark n hn hlt
    · rw [hother n hn (by omega) hne]
      exact h.mark n hn hlt

/-- The sweep ends with the cells that stay, in their order. -/
theorem Swept.sweep (gone : γ → Bool) (hp : p ≤ N)
    (hview : ∀ a b, view (onto a b) = view b) (hvalid : ∀ a b, valid (onto a b) = valid b)
    (hmark : ∀ a b, mark (onto a b) = mark a)
    (h : Swept N lo valid mark view cells₀ cells p d freed kept) :
    Swept N lo valid mark view cells₀ (sweep N lo gone onto d cells freed).1 p 0
      (sweep N lo gone onto d cells freed).2
      ((((List.range d).map fun i => cells₀ ((lo + i) % N)).filter fun c => !gone c).map view
        ++ kept) := by
  induction d generalizing cells freed kept with
  | zero => simpa [Phase.sweep] using h
  | succ d ih =>
    have hlen := h.length
    have hcell : cells ((lo + d) % N) = cells₀ ((lo + d) % N) :=
      h.below (lo + d) (by omega) (by omega)
    rw [List.range_succ, List.map_append, List.filter_append, List.map_append, List.append_assoc,
      Phase.sweep]
    by_cases hgone : gone (cells ((lo + d) % N)) = true
    · rw [if_pos hgone]
      have := ih h.skip
      simpa [← hcell, hgone] using this
    · rw [if_neg hgone]
      by_cases hfreed : freed = 0
      · subst hfreed
        rw [if_neg (by simp)]
        have := ih h.keep
        simpa [← hcell, hgone] using this
      · rw [if_pos hfreed]
        have hstep := h.move hp (Nat.pos_of_ne_zero hfreed) (hview _ _)
          ((hvalid _ _).trans (h.valid (lo + d) (by omega) (by omega))) (hmark _ _)
        have := ih hstep
        simpa [← hcell, hgone] using this

/-- What a sweep leaves is a queue again, from the first cell that stays. -/
theorem Swept.queue {l : List γ} (hs : Swept N lo valid mark view cells₀ cells p 0 freed kept)
    (h : Queue N valid mark cells₀ lo l) (hp : p ≤ l.length) :
    ∃ l', Queue N valid mark cells (lo + freed) l' ∧
      l'.map view = kept ++ (l.drop p).map view ∧ freed + l'.length = l.length := by
  have hlen := h.length_le
  have hfreed := hs.length
  refine ⟨(List.range (l.length - freed)).map fun i => cells ((lo + freed + i) % N), ?_, ?_, ?_⟩
  · refine h.of_marks (by omega) (by simp; omega) ?_ ?_ ?_ ?_
    · intro i c hc
      obtain ⟨hi, hic⟩ := List.getElem?_eq_some_iff.mp hc
      rw [← hic, List.getElem_map, List.getElem_range]
    · intro n hn hlt
      rcases Nat.lt_or_ge n (lo + p) with hin | hout
      · exact hs.valid n hn hin
      · rw [hs.beyond n hout (by omega)]
        have := (h.isNew (n - lo) (by omega)).1
        rwa [show lo + (n - lo) = n by omega] at this
    · intro n hn hlt
      rcases Nat.lt_or_ge n (lo + p) with hin | hout
      · exact hs.mark n hn hin
      · rw [hs.beyond n hout (by omega)]
    · intro n hn hlt
      exact hs.beyond n (by omega) hlt
  · refine List.ext_getElem (by simp; omega) ?_
    intro i hi hi'
    rw [List.length_map, List.length_map, List.length_range] at hi
    rw [List.getElem_map, List.getElem_map, List.getElem_range, List.getElem_append]
    split
    · rename_i hlt
      have := hs.item i _ (List.getElem?_eq_getElem hlt)
      rwa [Nat.add_zero] at this
    · rename_i hge
      have hn : lo + freed + i = lo + (p + (i - kept.length)) := by omega
      rw [hs.beyond _ (by omega) (by omega), List.getElem_map, List.getElem_drop, hn]
      exact congrArg view (h.item _ _ (List.getElem?_eq_getElem (by omega)))
  · simp
    omega

end

/-- Sweeping the oldest `p` items of a queue takes out the ones that are gone and moves the
reader up to what stays. -/
theorem Queue.sweep {δ : Type*} {N lo p : ℕ} {valid mark : γ → Bool} {cells : ℕ → γ}
    {l : List γ} (gone : γ → Bool) (onto : γ → γ → γ) (view : γ → δ)
    (h : Queue N valid mark cells lo l) (hp : p ≤ l.length)
    (hview : ∀ a b, view (onto a b) = view b) (hvalid : ∀ a b, valid (onto a b) = valid b)
    (hmark : ∀ a b, mark (onto a b) = mark a) :
    ∃ l', Queue N valid mark (Phase.sweep N lo gone onto p cells 0).1
        (lo + (Phase.sweep N lo gone onto p cells 0).2) l' ∧
      l'.map view = ((l.take p).filter fun c => !gone c).map view ++ (l.drop p).map view ∧
      (Phase.sweep N lo gone onto p cells 0).2 + l'.length = l.length := by
  have hlen := h.length_le
  have hstart : Swept N lo valid mark view cells cells p p 0 [] :=
    { length := by simp
      item := by simp
      below := fun _ _ _ => rfl
      beyond := fun _ _ _ => rfl
      valid := by
        intro n hn hlt
        have := (h.isNew (n - lo) (by omega)).1
        rwa [show lo + (n - lo) = n by omega] at this
      mark := fun _ _ _ => rfl }
  have hend := hstart.sweep gone (hp.trans hlen) hview hvalid hmark
  have hcells : ((List.range p).map fun i => cells ((lo + i) % N)) = l.take p := by
    refine List.ext_getElem (by simp [hp]) ?_
    intro i hi hi'
    rw [List.getElem_map, List.getElem_range, List.getElem_take]
    exact h.item i _ (List.getElem?_eq_getElem (by simp at hi; omega))
  rw [hcells, List.append_nil] at hend
  exact hend.queue h hp

end Phase
