/-
The order of 32-bit ids (`utils.h`, `connection.c`).

`cmp_counters` compares two ids by their difference modulo `2^32`.  One that is ahead by
less than `UINT32_MAX / 2` is the later one, and one that is ahead by more the earlier.
Half the circle is `2^31`, and `UINT32_MAX / 2` is one less: of two ids that are
`2^31 - 1` apart each is called the earlier.

* `cmpCounters_add_right`, `cmpCounters_neg` — the comparison moved around the circle, and
  turned around;
* `cmpCounters_pos_window` — within a window it is the order of the distances from its
  beginning;
* `serial_order_iff` — the ids of a set are in serial-number order exactly when no two of
  them are `2^31 - 1` apart.
-/
import RednRdma.Channel
import Mathlib.Order.Defs.Unbundled
import Mathlib.Data.Set.Basic

namespace Rdma

/-! ### The comparison on the circle -/

theorem cmpCounters_add_right (a b c : UInt32) :
    cmpCounters (a + c) (b + c) = cmpCounters a b := by
  rw [cmpCounters, cmpCounters, add_sub_add_right_eq_sub]
  simp only [add_left_inj]

/-- The three values, by how far `a` is ahead of `b`. -/
theorem cmpCounters_cases (a b : UInt32) :
    (a - b).toNat = 0 ∧ cmpCounters a b = 0 ∨
    0 < (a - b).toNat ∧ (a - b).toNat < counterWindow ∧ cmpCounters a b = 1 ∨
    counterWindow ≤ (a - b).toNat ∧ cmpCounters a b = -1 := by
  have hzero : a = b ↔ (a - b).toNat = 0 := by
    rw [← sub_eq_zero, ← UInt32.toNat_inj]
    rfl
  have hlt : a - b < UInt32.ofNat (4294967295 / 2) ↔ (a - b).toNat < counterWindow :=
    UInt32.lt_iff_toNat_lt
  rw [cmpCounters]
  by_cases hab : a = b
  · exact Or.inl ⟨hzero.mp hab, if_pos hab⟩
  · have hpos : 0 < (a - b).toNat := Nat.pos_of_ne_zero fun h => hab (hzero.mpr h)
    rw [if_neg hab]
    by_cases hwin : (a - b).toNat < counterWindow
    · exact Or.inr (Or.inl ⟨hpos, hwin, if_pos (hlt.mpr hwin)⟩)
    · exact Or.inr (Or.inr ⟨Nat.le_of_not_lt hwin, if_neg fun h => hwin (hlt.mp h)⟩)

/-- The two distances of two ids go once around the circle. -/
theorem toNat_sub_comm (a b : UInt32) :
    (b - a).toNat = if (a - b).toNat = 0 then 0 else 2 ^ 32 - (a - b).toNat := by
  have ha := a.toNat_lt
  have hb := b.toNat_lt
  rw [UInt32.toNat_sub, UInt32.toNat_sub]
  split <;> omega

/-- Turned around, the comparison is the opposite, but for ids that are about half the
circle apart. -/
theorem cmpCounters_neg {a b : UInt32} (hhalf : a - b ≠ 2147483648)
    (hab : a - b ≠ 2147483647) (hba : b - a ≠ 2147483647) :
    cmpCounters a b = -cmpCounters b a := by
  have hne : ∀ {d e : UInt32}, d ≠ e → d.toNat ≠ e.toNat := fun h he => h (UInt32.toNat_inj.mp he)
  have h₁ : (a - b).toNat ≠ 2147483648 := hne hhalf
  have h₂ : (a - b).toNat ≠ 2147483647 := hne hab
  have h₃ : (b - a).toNat ≠ 2147483647 := hne hba
  have hcomm := toNat_sub_comm a b
  have hlt := (a - b).toNat_lt
  rcases cmpCounters_cases a b with ⟨hd, hc⟩ | ⟨hpos, hd, hc⟩ | ⟨hd, hc⟩ <;>
    rcases cmpCounters_cases b a with ⟨hd', hc'⟩ | ⟨hpos', hd', hc'⟩ | ⟨hd', hc'⟩ <;>
    rw [hc, hc'] <;> unfold counterWindow at * <;> split at hcomm <;> omega

/-- Within half the circle from `s` on, the later id is the one further from `s`. -/
theorem cmpCounters_pos_window {s a b : UInt32} (ha : (a - s).toNat < 2 ^ 31)
    (hb : (b - s).toNat < 2 ^ 31) (hab : a - b ≠ 2147483647) :
    0 < cmpCounters a b ↔ (b - s).toNat < (a - s).toNat := by
  have hofNat : ∀ x : UInt32, UInt32.ofNat (x - s).toNat + s = x := by
    intro x
    rw [UInt32.ofNat_toNat, sub_add_cancel]
  -- the farthest apart they can be is from `s` to the last id of the window
  have hclose : (a - s).toNat < (b - s).toNat + counterWindow := by
    by_contra hfar
    refine hab ?_
    have hb0 : b - s = 0 := by
      refine UInt32.toNat_inj.mp ?_
      show (b - s).toNat = 0
      rw [counterWindow] at hfar
      omega
    have ha1 : a - s = 2147483647 := by
      refine UInt32.toNat_inj.mp ?_
      show (a - s).toNat = 2147483647
      rw [counterWindow] at hfar
      omega
    rw [← sub_sub_sub_cancel_right a b s, hb0, ha1, sub_zero]
  rw [← hofNat a, ← hofNat b, cmpCounters_add_right, hofNat, hofNat]
  refine cmpCounters_ofNat_pos_iff hclose ?_
  rw [counterWindow]
  omega

/-! ### The loops -/

/-- `spin_till_completion` goes on as long as its id is ahead. -/
theorem spinWaits_iff (ctx : ConnContext) (w : UInt32) :
    SpinWaits ctx w ↔ 1 ≤ (w - ctx.lastSendCompl).toNat ∧
      (w - ctx.lastSendCompl).toNat < counterWindow := by
  show 0 < cmpCounters w ctx.lastSendCompl ↔ _
  rcases cmpCounters_cases w ctx.lastSendCompl with ⟨hd, hc⟩ | ⟨hpos, hd, hc⟩ | ⟨hd, hc⟩ <;>
    rw [hc] <;> omega

/-- `block_till_completion` goes on to the next event on the same condition. -/
theorem callerStep_check_iff {w : UInt32} {s : Channel.State} (hs : s.caller = .check) :
    (∃ s', Channel.callerStep w s = some s' ∧ s'.caller = .get) ↔ SpinWaits s.ctx w := by
  rw [Channel.callerStep, hs]
  simp only [Option.some_inj, exists_eq_left']
  split <;> simp [*]

/-! ### Serial-number order -/

/-- An id that is 1 to `2^31 - 1` ahead of the last completed one is to be waited for. -/
def ToBeAwaited (w last : UInt32) : Prop := 1 ≤ (w - last).toNat ∧ (w - last).toNat ≤ 2 ^ 31 - 1

/-- What the comparison owes the ids of a set: it does not change when both ids move, it
turns around with its arguments, later ids of a window of `2^31` are those it calls later,
and the two waits go by it. -/
structure SerialOrder (ids : Set UInt32) : Prop where
  shift : ∀ a ∈ ids, ∀ b ∈ ids, ∀ c, cmpCounters (a + c) (b + c) = cmpCounters a b
  antisymm : ∀ a ∈ ids, ∀ b ∈ ids, a - b ≠ 2147483648 → cmpCounters a b = -cmpCounters b a
  order : ∀ s, ∀ window ⊆ ids, (∀ x ∈ window, (x - s).toNat < 2 ^ 31) →
    IsStrictTotalOrder window fun a b => 0 < cmpCounters a.1 b.1
  spin : ∀ w ∈ ids, ∀ ctx : ConnContext, ctx.lastSendCompl ∈ ids →
    (SpinWaits ctx w ↔ ToBeAwaited w ctx.lastSendCompl)
  block : ∀ w ∈ ids, ∀ s : Channel.State, s.caller = .check → s.ctx.lastSendCompl ∈ ids →
    ((∃ s', Channel.callerStep w s = some s' ∧ s'.caller = .get) ↔
      ToBeAwaited w s.ctx.lastSendCompl)

/-- The comparison orders a window without two ids `2^31 - 1` apart. -/
theorem isStrictTotalOrder_window {s : UInt32} {window : Set UInt32}
    (hwindow : ∀ x ∈ window, (x - s).toNat < 2 ^ 31)
    (hne : ∀ a ∈ window, ∀ b ∈ window, a - b ≠ 2147483647) :
    IsStrictTotalOrder window fun a b => 0 < cmpCounters a.1 b.1 := by
  have hlt : ∀ a b : window, 0 < cmpCounters a.1 b.1 ↔ (b.1 - s).toNat < (a.1 - s).toNat :=
    fun a b => cmpCounters_pos_window (hwindow a a.2) (hwindow b b.2) (hne a a.2 b b.2)
  refine { trichotomous := ?_, irrefl := ?_, trans := ?_ }
  · intro a b hab hba
    rw [hlt] at hab hba
    have hdist : a.1 - s = b.1 - s := UInt32.toNat_inj.mp (by omega)
    exact Subtype.ext (sub_left_inj.mp hdist)
  · intro a haa
    rw [hlt] at haa
    exact lt_irrefl _ haa
  · intro a b c hab hbc
    rw [hlt] at hab hbc ⊢
    exact hbc.trans hab

/-- **The ids of a set are in serial-number order** exactly when no two of them are
`2^31 - 1` apart. -/
theorem serial_order_iff (ids : Set UInt32) :
    SerialOrder ids ↔ ∀ a ∈ ids, ∀ b ∈ ids, a - b ≠ 2147483647 := by
  constructor
  · intro h a ha b hb hab
    -- such an `a` is ahead of `b` and not waited for
    have hdist : (a - b).toNat = 2147483647 := congrArg UInt32.toNat hab
    have hawaited : ToBeAwaited a b := by
      rw [ToBeAwaited]
      omega
    have hwait := (h.spin a ha { lastSendCompl := b } hb).mpr hawaited
    have hwin := ((spinWaits_iff _ _).mp hwait).2
    change (a - b).toNat < counterWindow at hwin
    rw [counterWindow] at hwin
    omega
  · intro hne
    have hspin : ∀ w ∈ ids, ∀ ctx : ConnContext, ctx.lastSendCompl ∈ ids →
        (SpinWaits ctx w ↔ ToBeAwaited w ctx.lastSendCompl) := by
      intro w hw ctx hlast
      have hdist : (w - ctx.lastSendCompl).toNat ≠ 2147483647 :=
        fun h => hne w hw _ hlast (UInt32.toNat_inj.mp h)
      rw [spinWaits_iff, ToBeAwaited]
      rw [counterWindow]
      omega
    exact {
      shift := fun a _ b _ c => cmpCounters_add_right a b c
      antisymm := fun a ha b hb hhalf => cmpCounters_neg hhalf (hne a ha b hb) (hne b hb a ha)
      order := fun s window hsub hwindow => isStrictTotalOrder_window hwindow
        fun a ha b hb => hne a (hsub ha) b (hsub hb)
      spin := hspin
      block := fun w hw s hs hlast => (callerStep_check_iff hs).trans (hspin w hw s.ctx hlast) }

/-- The ids 0 and `2^31 - 1`: each is called the earlier, and a wait for the second ends
when the first has completed. -/
theorem half_range_tie : ¬ SerialOrder Set.univ ∧
    cmpCounters 2147483647 0 = -1 ∧ cmpCounters 0 2147483647 = -1 ∧
    (2147483647 - 0 : UInt32) ≠ 2147483648 ∧
    ToBeAwaited 2147483647 0 ∧ ¬ SpinWaits { lastSendCompl := 0 } 2147483647 := by
  refine ⟨?_, by decide, by decide, by decide, ⟨by decide, by decide⟩, by decide⟩
  intro h
  have := h.antisymm 2147483647 trivial 0 trivial (by decide)
  exact absurd this (by decide)

end Rdma
