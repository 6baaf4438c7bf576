/-
The arithmetic helpers of `utils.h`.

* `divRoundUp` — `DIV_ROUND_UP`;
* `findFirstSetBit`, `findNextSetBit` — the walk over the set bits of a bitmap, which goes
  through `setBits` (`findNextSetBit_cases`);
* `cmpCounters` — the wrap-around comparison of 32-bit ids, read off in
  `cmpCounters_pos_iff` as serial-number order with a window of `2^31 - 1`.
-/
import RednRdma.Lib.Serial
import Mathlib.Data.UInt

namespace Rdma

/-- `DIV_ROUND_UP`. -/
def divRoundUp (n d : ℕ) : ℕ := (n + d - 1) / d

theorem divRoundUp_pos {n d : ℕ} (hd : 0 < d) (hn : 0 < n) : 0 < divRoundUp n d :=
  Nat.div_pos (by omega) hd

theorem divRoundUp_le {n d k : ℕ} (hd : 0 < d) (h : n ≤ k * d) : divRoundUp n d ≤ k := by
  rw [divRoundUp, ← Nat.lt_succ_iff, Nat.div_lt_iff_lt_mul hd, Nat.succ_mul]
  omega

/-- `find_first_set_bit`. -/
def findFirstSetBit {n : ℕ} (bitmap : Fin n → Bool) : ℤ :=
  match (List.finRange n).find? fun i => bitmap i with
  | some i => i.val
  | none => -1

/-- `find_next_set_bit`, for an `idx` that is no less than -1. -/
def findNextSetBit {n : ℕ} (idx : ℤ) (bitmap : Fin n → Bool) : ℤ :=
  match (List.finRange n).find? fun i => idx < i.val ∧ bitmap i with
  | some i => i.val
  | none => -1

/-- `find_bitmap_weight`. -/
def findBitmapWeight {n : ℕ} (bitmap : Fin n → Bool) : ℕ := (List.finRange n).countP bitmap

/-- The set bits after `idx`, in order. -/
def setBitsAfter {n : ℕ} (idx : ℤ) (bitmap : Fin n → Bool) : List (Fin n) :=
  (List.finRange n).filter fun i => idx < i.val ∧ bitmap i

/-- The set bits, in order. -/
def setBits {n : ℕ} (bitmap : Fin n → Bool) : List (Fin n) := (List.finRange n).filter bitmap

section

variable {n : ℕ}

theorem mem_setBits {bitmap : Fin n → Bool} {i : Fin n} :
    i ∈ setBits bitmap ↔ bitmap i = true := by
  simp [setBits]

theorem setBitsAfter_neg (bitmap : Fin n → Bool) : setBitsAfter (-1) bitmap = setBits bitmap := by
  refine List.filter_congr ?_
  intro i _
  have : (-1 : ℤ) < i.val := by omega
  simp [this]

theorem findFirstSetBit_eq (bitmap : Fin n → Bool) :
    findFirstSetBit bitmap = findNextSetBit (-1) bitmap := by
  have hp : (fun i : Fin n => decide (((-1 : ℤ) < i.val) ∧ bitmap i = true)) = bitmap := by
    funext i
    have : (-1 : ℤ) < i.val := by omega
    simp [this]
  rw [findFirstSetBit, findNextSetBit, hp]

theorem length_setBits (bitmap : Fin n → Bool) :
    (setBits bitmap).length = findBitmapWeight bitmap :=
  List.countP_eq_length_filter.symm

/-- Of a sorted list, what a filter keeps after its first element lies above it. -/
theorem filter_eq_cons {α : Type} [LinearOrder α] {l : List α} (hl : l.Pairwise (· < ·))
    {p : α → Bool} {a : α} {as : List α} (h : l.filter p = a :: as) :
    as = l.filter fun x => a < x ∧ p x := by
  induction l with
  | nil => exact absurd h (by simp)
  | cons x l ih =>
    obtain ⟨hx, hrest⟩ := List.pairwise_cons.mp hl
    by_cases hp : p x
    · rw [List.filter_cons_of_pos hp, List.cons.injEq] at h
      obtain ⟨rfl, rfl⟩ := h
      rw [List.filter_cons_of_neg (by simp)]
      exact List.filter_congr fun y hy => by simp [hx y hy]
    · rw [List.filter_cons_of_neg hp] at h
      rw [ih hrest h, List.filter_cons_of_neg (by simp [hp])]

/-- A turn of the walk goes to the next of the set bits, or there is none left. -/
theorem findNextSetBit_cases (idx : ℤ) (bitmap : Fin n → Bool) :
    setBitsAfter idx bitmap = [] ∧ findNextSetBit idx bitmap = -1 ∨
    ∃ i : Fin n, setBitsAfter idx bitmap = i :: setBitsAfter i.val bitmap ∧
      findNextSetBit idx bitmap = i.val := by
  rw [findNextSetBit, ← List.head?_filter]
  cases h : setBitsAfter idx bitmap with
  | nil =>
    rw [setBitsAfter] at h
    exact Or.inl ⟨rfl, by rw [h]; rfl⟩
  | cons i is =>
    have his := filter_eq_cons (List.pairwise_lt_finRange n) h
    have hi : i ∈ setBitsAfter idx bitmap := by
      rw [h]
      exact List.mem_cons_self
    have hidx : idx < i.val := (of_decide_eq_true (List.mem_filter.mp hi).2).1
    rw [setBitsAfter] at h
    refine Or.inr ⟨i, ?_, by rw [h]; rfl⟩
    rw [his]
    congr 1
    refine List.filter_congr ?_
    intro j _
    rw [decide_eq_decide, decide_eq_true_eq]
    constructor
    · rintro ⟨hij, -, hbit⟩
      exact ⟨by exact_mod_cast hij, hbit⟩
    · rintro ⟨hij, hbit⟩
      have hij : i < j := by exact_mod_cast hij
      exact ⟨hij, by have : i.val < j.val := hij; omega, hbit⟩

end

/-- `htonl` on a little-endian host. -/
def htonl (x : UInt32) : UInt32 :=
  x <<< 24 ||| (x &&& (0xff00 : UInt32)) <<< 8 ||| (x >>> 8 &&& (0xff00 : UInt32)) ||| x >>> 24

theorem add_one_add_ofNat (a : UInt32) (n : ℕ) :
    a + 1 + UInt32.ofNat n = a + UInt32.ofNat (n + 1) := by
  rw [UInt32.ofNat_add, add_assoc, add_comm (UInt32.ofNat n)]
  rfl

/-- `cmp_counters`: `a == b`, `a` a little ahead of `b`, or neither. -/
def cmpCounters (a b : UInt32) : ℤ :=
  if a = b then 0
  else if a - b < UInt32.ofNat (4294967295 / 2) then 1
  else -1

/-- How far ahead `cmp_counters` still calls ahead: `UINT32_MAX / 2`. -/
def counterWindow : ℕ := 2 ^ 31 - 1

theorem sub_toNat_eq_dist (a b : UInt32) :
    (a - b).toNat = Serial.dist (2 ^ 32) a.toNat b.toNat := by
  rw [Serial.dist, UInt32.toNat_sub, Nat.mod_eq_of_lt b.toNat_lt]

theorem cmpCounters_pos_iff (a b : UInt32) :
    0 < cmpCounters a b ↔ Serial.Ahead (2 ^ 32) counterWindow a.toNat b.toNat := by
  have hlt : a - b < UInt32.ofNat (4294967295 / 2) ↔ (a - b).toNat < counterWindow :=
    UInt32.lt_iff_toNat_lt
  rw [cmpCounters, Serial.Ahead, ← sub_toNat_eq_dist]
  by_cases hab : a = b
  · simp [hab]
  · have hne : (a - b).toNat ≠ 0 := by
      intro h0
      exact hab (sub_eq_zero.mp (UInt32.toNat_inj.mp h0))
    rw [if_neg hab]
    by_cases hd : (a - b).toNat < counterWindow
    · rw [if_pos (hlt.mpr hd)]
      omega
    · rw [if_neg (fun h => hd (hlt.mp h))]
      omega

theorem cmpCounters_nonneg_iff (a b : UInt32) :
    0 ≤ cmpCounters a b ↔ a = b ∨ Serial.Ahead (2 ^ 32) counterWindow a.toNat b.toNat := by
  rw [← cmpCounters_pos_iff, cmpCounters]
  by_cases hab : a = b
  · simp [hab]
  · rw [if_neg hab]
    split <;> simp [hab]

/-- `cmp_counters` on the residues of two counters that are close together. -/
theorem cmpCounters_ofNat_pos_iff {x y : ℕ} (hx : x < y + counterWindow)
    (hy : y ≤ x + (2 ^ 32 - counterWindow)) :
    0 < cmpCounters (UInt32.ofNat x) (UInt32.ofNat y) ↔ y < x := by
  rw [cmpCounters_pos_iff, UInt32.toNat_ofNat', UInt32.toNat_ofNat', Serial.Ahead,
    Serial.dist_mod_left, Serial.dist_mod_right]
  exact Serial.ahead_iff_lt (by decide) (by decide) hx hy

theorem cmpCounters_ofNat_nonneg {x y : ℕ} (hyx : y ≤ x) (hx : x < y + counterWindow) :
    0 ≤ cmpCounters (UInt32.ofNat x) (UInt32.ofNat y) := by
  rw [cmpCounters_nonneg_iff, ← cmpCounters_pos_iff, cmpCounters_ofNat_pos_iff hx (by omega)]
  rcases Nat.eq_or_lt_of_le hyx with heq | hlt
  · exact Or.inl (heq ▸ rfl)
  · exact Or.inr hlt

end Rdma
