/-
Tickets.

Holders take numbers from one counter and later hand in all they hold at once.  What
has been handed in is in the order of the numbers as long as nobody hands in while
another one holds a smaller number:

* `Inv.take`, `Inv.deliver` — handing in in turn keeps the order;
* `Overtaken` — once somebody has been overtaken the order is lost, at the latest when
  everything has been handed in (`Overtaken.deliver`, `not_overtaken_of_settled`).
-/
import Mathlib.Data.List.Basic
import Mathlib.Algebra.Order.Ring.Nat
import Mathlib.Logic.Function.Basic

namespace Tickets

/-- The last number given out, the numbers held, and those handed in, in order. -/
structure State (ι : Type*) where
  last : ℕ
  held : ι → List ℕ
  out : List ℕ

variable {ι : Type*}

/-- The numbers were handed in in increasing order. -/
def Ordered (s : State ι) : Prop := s.out.Pairwise (· < ·)

/-- Every number another one holds is larger than those of `i`. -/
def InTurn (s : State ι) (i : ι) : Prop := ∀ j, j ≠ i → ∀ w ∈ s.held j, ∀ v ∈ s.held i, v < w

/-- A number is held that is smaller than one that has been handed in. -/
def Overtaken (s : State ι) : Prop := ∃ i, ∃ w ∈ s.held i, ∃ v ∈ s.out, w < v

/-- Nobody holds a number. -/
def Settled (s : State ι) : Prop := ∀ i, s.held i = []

/-- No number is given out twice, and those handed in are smaller than those held. -/
structure Inv (s : State ι) : Prop where
  ordered : Ordered s
  out_le : ∀ v ∈ s.out, v ≤ s.last
  held_le : ∀ i, ∀ v ∈ s.held i, v ≤ s.last
  held_sorted : ∀ i, (s.held i).Pairwise (· < ·)
  disjoint : ∀ i j, i ≠ j → ∀ w ∈ s.held i, w ∉ s.held j
  ahead : ∀ v ∈ s.out, ∀ i, ∀ w ∈ s.held i, v < w

variable [DecidableEq ι]

/-- `i` takes a number. -/
def take (s : State ι) (i : ι) : State ι :=
  { s with last := s.last + 1, held := Function.update s.held i (s.held i ++ [s.last + 1]) }

/-- `i` hands in what it holds. -/
def deliver (s : State ι) (i : ι) : State ι :=
  { s with held := Function.update s.held i [], out := s.out ++ s.held i }

theorem mem_held_take {s : State ι} {i j : ι} {w : ℕ} :
    w ∈ (take s i).held j ↔ w ∈ s.held j ∨ j = i ∧ w = s.last + 1 := by
  show w ∈ Function.update s.held i (s.held i ++ [s.last + 1]) j ↔ _
  by_cases hj : j = i
  · subst hj
    simp
  · simp [hj]

theorem mem_held_deliver {s : State ι} {i j : ι} {w : ℕ} :
    w ∈ (deliver s i).held j ↔ j ≠ i ∧ w ∈ s.held j := by
  show w ∈ Function.update s.held i [] j ↔ _
  by_cases hj : j = i
  · subst hj
    simp
  · simp [hj]

/-! ### In turn -/

theorem Inv.take {s : State ι} (h : Inv s) (i : ι) : Inv (Tickets.take s i) := by
  refine ⟨h.ordered, ?_, ?_, ?_, ?_, ?_⟩
  · intro v hv
    exact (h.out_le v hv).trans (Nat.le_succ _)
  · intro j v hv
    rcases mem_held_take.mp hv with hv | ⟨-, rfl⟩
    · exact (h.held_le j v hv).trans (Nat.le_succ _)
    · exact le_refl _
  · intro j
    show (Function.update s.held i (s.held i ++ [s.last + 1]) j).Pairwise _
    by_cases hj : j = i
    · subst hj
      rw [Function.update_self]
      refine List.pairwise_append.mpr ⟨h.held_sorted j, List.pairwise_singleton _ _, ?_⟩
      intro v hv w hw
      rw [List.mem_singleton.mp hw]
      exact Nat.lt_succ_of_le (h.held_le j v hv)
    · rw [Function.update_of_ne hj]
      exact h.held_sorted j
  · intro j k hjk w hj hk
    -- the number just taken is larger than any other
    rcases mem_held_take.mp hj with hold | ⟨rfl, rfl⟩
    · rcases mem_held_take.mp hk with hold' | ⟨rfl, rfl⟩
      · exact h.disjoint j k hjk w hold hold'
      · have hle := h.held_le j _ hold
        omega
    · rcases mem_held_take.mp hk with hold | ⟨rfl, -⟩
      · have hle := h.held_le k _ hold
        omega
      · exact hjk rfl
  · intro v hv j w hw
    rcases mem_held_take.mp hw with hw | ⟨-, rfl⟩
    · exact h.ahead v hv j w hw
    · exact Nat.lt_succ_of_le (h.out_le v hv)

theorem Inv.deliver {s : State ι} {i : ι} (h : Inv s) (hturn : InTurn s i) :
    Inv (Tickets.deliver s i) := by
  refine ⟨?_, ?_, ?_, ?_, ?_, ?_⟩
  · exact List.pairwise_append.mpr
      ⟨h.ordered, h.held_sorted i, fun v hv w hw => h.ahead v hv i w hw⟩
  · intro v hv
    rcases List.mem_append.mp hv with hv | hv
    · exact h.out_le v hv
    · exact h.held_le i v hv
  · intro j v hv
    exact h.held_le j v (mem_held_deliver.mp hv).2
  · intro j
    show (Function.update s.held i [] j).Pairwise _
    by_cases hj : j = i
    · subst hj
      simp
    · rw [Function.update_of_ne hj]
      exact h.held_sorted j
  · intro j k hjk w hj hk
    exact h.disjoint j k hjk w (mem_held_deliver.mp hj).2 (mem_held_deliver.mp hk).2
  · intro v hv j w hw
    obtain ⟨hj, hw⟩ := mem_held_deliver.mp hw
    rcases List.mem_append.mp hv with hv | hv
    · exact h.ahead v hv j w hw
    · exact hturn j hj w hw v hv

/-! ### Out of turn -/

/-- Who hands in out of turn overtakes somebody. -/
theorem overtaken_of_not_inTurn {s : State ι} {i : ι} (h : Inv s) (hturn : ¬ InTurn s i) :
    Overtaken (deliver s i) := by
  simp only [InTurn, not_forall] at hturn
  obtain ⟨j, hj, w, hw, v, hv, hlt⟩ := hturn
  refine ⟨j, w, mem_held_deliver.mpr ⟨hj, hw⟩, v, List.mem_append_right _ hv, ?_⟩
  have hne : w ≠ v := by
    rintro rfl
    exact h.disjoint j i hj w hw hv
  omega

theorem Overtaken.take {s : State ι} (h : Overtaken s) (i : ι) :
    Overtaken (Tickets.take s i) := by
  obtain ⟨j, w, hw, v, hv, hlt⟩ := h
  exact ⟨j, w, mem_held_take.mpr (Or.inl hw), v, hv, hlt⟩

/-- Who was overtaken stays so, or hands in too late. -/
theorem Overtaken.deliver {s : State ι} (h : Overtaken s) (i : ι) :
    Overtaken (Tickets.deliver s i) ∨ ¬ Ordered (Tickets.deliver s i) := by
  obtain ⟨j, w, hw, v, hv, hlt⟩ := h
  by_cases hj : j = i
  · subst hj
    refine Or.inr ?_
    intro hord
    have := (List.pairwise_append.mp hord).2.2 v hv w hw
    omega
  · exact Or.inl ⟨j, w, mem_held_deliver.mpr ⟨hj, hw⟩, v, List.mem_append_left _ hv, hlt⟩

theorem Ordered.of_deliver {s : State ι} {i : ι} (h : Ordered (deliver s i)) : Ordered s :=
  (List.pairwise_append.mp h).1

omit [DecidableEq ι] in
theorem not_overtaken_of_settled {s : State ι} (h : Settled s) : ¬ Overtaken s := by
  rintro ⟨i, w, hw, -⟩
  rw [h i] at hw
  exact absurd hw (by simp)

end Tickets
