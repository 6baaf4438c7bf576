/-
Bitmaps as arrays (`utils.h`, `connection.c`).

A bitmap is an array of `int`, an entry 0 for a slot that is free and 1 for one that is
taken.  A slot is claimed with a compare-and-swap, and the taken slots are gone through and
counted with three more loops.

* `scan`, `claimLoop`, `weightLoop` — the loops;
* `findNextSetBit_eq`, `findBitmapWeight_eq` — on bits they are what `Utils` says;
* `walk_findNextSetBit` — the walk goes through the taken slots in order;
* `findFirstEmptyBitAndSet_cases` — a claim takes the first free slot, or there is none;
* `bitmap_laws` — the three agree, and whoever claims and releases slots holds exactly the
  taken ones.
-/
import RednRdma.Utils
import RednRdma.Lib.Machine
import Mathlib.Algebra.BigOperators.Fin
import Mathlib.Algebra.Order.BigOperators.Group.Finset
import Mathlib.Data.List.Find
import Mathlib.Order.Bounds.Basic

namespace Rdma

namespace Bitmap

variable {n : ℕ}

/-- The indexes of `for(int i=from; i<n; i++)`. -/
def indexes (n from_ : ℕ) : List (Fin n) := (List.finRange n).drop from_

/-- The loops that return the first index whose entry passes a test. -/
def scan (test : ℤ → Bool) (bitmap : Fin n → ℤ) : List (Fin n) → ℤ
  | [] => -1
  | i :: is => if test (bitmap i) then i.val else scan test bitmap is

/-- `find_first_set_bit`. -/
def findFirstSetBit (bitmap : Fin n → ℤ) : ℤ := scan (· ≠ 0) bitmap (indexes n 0)

/-- `find_next_set_bit`, for an `idx` that is no less than -1. -/
def findNextSetBit (idx : ℤ) (bitmap : Fin n → ℤ) : ℤ :=
  scan (· ≠ 0) bitmap (indexes n (idx + 1).toNat)

/-- The loop of `find_bitmap_weight`. -/
def weightLoop (bitmap : Fin n → ℤ) : List (Fin n) → ℤ → ℤ
  | [], weight => weight
  | i :: is, weight => weightLoop bitmap is (weight + bitmap i)

/-- `find_bitmap_weight`. -/
def findBitmapWeight (bitmap : Fin n → ℤ) : ℤ := weightLoop bitmap (indexes n 0) 0

/-- `ibw_cmpxchg(&bitmap[i], old, new)`: the value found, and the array after. -/
def cmpxchg (bitmap : Fin n → ℤ) (i : Fin n) (old new : ℤ) : ℤ × (Fin n → ℤ) :=
  (bitmap i, if bitmap i = old then Function.update bitmap i new else bitmap)

/-- The loop of `find_first_empty_bit_and_set`. -/
def claimLoop (bitmap : Fin n → ℤ) : List (Fin n) → ℤ × (Fin n → ℤ)
  | [] => (-1, bitmap)
  | i :: is =>
    let (found, bitmap) := cmpxchg bitmap i 0 1
    if found = 0 then (i.val, bitmap) else claimLoop bitmap is

/-- `find_first_empty_bit_and_set`. -/
def findFirstEmptyBitAndSet (bitmap : Fin n → ℤ) : ℤ × (Fin n → ℤ) :=
  claimLoop bitmap (indexes n 0)

/-- `rc_next_connection`. -/
def rcNextConnection (bitmap : Fin n → ℤ) (cur : ℤ) : ℤ :=
  let i := if cur < 0 then findFirstSetBit bitmap else findNextSetBit cur bitmap
  if i ≥ 0 then i else -1

/-- The indexes from `i` on, each the next of the one before, until -1; `none` without the
fuel. -/
def walk (bitmap : Fin n → ℤ) : ℕ → ℤ → Option (List ℤ)
  | fuel, i =>
    if i = -1 then some []
    else
      match fuel with
      | 0 => none
      | fuel + 1 => (walk bitmap fuel (findNextSetBit i bitmap)).map fun is => i :: is

/-- An array of zeros and ones. -/
structure Bits (n : ℕ) where
  entry : Fin n → ℤ
  bit : ∀ i, entry i = 0 ∨ entry i = 1

/-- The taken slots. -/
def Bits.taken (b : Bits n) : Fin n → Bool := fun i => b.entry i ≠ 0

theorem Bits.taken_iff (b : Bits n) {i : Fin n} : b.taken i = true ↔ b.entry i = 1 := by
  rw [taken, decide_eq_true_eq]
  rcases b.bit i with h | h <;> simp [h]

/-! ### The loops on bits -/

@[simp] theorem indexes_zero : indexes n 0 = List.finRange n := List.drop_zero

theorem scan_eq (test : ℤ → Bool) (bitmap : Fin n → ℤ) (is : List (Fin n)) :
    scan test bitmap is =
      match is.find? fun i => test (bitmap i) with
      | some i => i.val
      | none => -1 := by
  induction is with
  | nil => rfl
  | cons i is ih =>
    rw [scan, List.find?_cons]
    cases test (bitmap i) with
    | true => rfl
    | false => exact ih

/-- The first of the later indexes that passes a test is the first one that is later and
passes it. -/
theorem find?_indexes (p : Fin n → Bool) {idx : ℤ} (hidx : -1 ≤ idx) :
    (indexes n (idx + 1).toNat).find? p =
      (List.finRange n).find? fun i => idx < i.val ∧ p i := by
  set k := (idx + 1).toNat with hk
  have hearly : ∀ i ∈ (List.finRange n).take k, ¬ idx < (i.val : ℤ) := by
    intro i hi
    obtain ⟨j, hj, rfl⟩ := List.mem_take_iff_getElem.mp hi
    rw [List.getElem_finRange]
    simp only [Fin.val_cast]
    omega
  have hlate : ∀ i ∈ (List.finRange n).drop k, idx < (i.val : ℤ) := by
    intro i hi
    obtain ⟨j, hj, rfl⟩ := List.mem_drop_iff_getElem.mp hi
    rw [List.getElem_finRange]
    simp only [Fin.val_cast]
    omega
  have hnone : ((List.finRange n).take k).find? (fun i => idx < i.val ∧ p i) = none :=
    List.find?_eq_none.mpr fun i hi => by simp [hearly i hi]
  have hsome : ((List.finRange n).drop k).find? (fun i => idx < i.val ∧ p i) =
      ((List.finRange n).drop k).find? p :=
    List.find?_congr fun i hi => by simp [hlate i hi]
  have hsplit : ((List.finRange n).take k ++ (List.finRange n).drop k).find?
      (fun i => idx < i.val ∧ p i) = _ := List.find?_append
  rw [List.take_append_drop, hnone, hsome, Option.none_or] at hsplit
  exact hsplit.symm

theorem findNextSetBit_eq (b : Bits n) {idx : ℤ} (hidx : -1 ≤ idx) :
    findNextSetBit idx b.entry = Rdma.findNextSetBit idx b.taken := by
  rw [findNextSetBit, scan_eq, Rdma.findNextSetBit, ← find?_indexes b.taken hidx]
  rfl

theorem findFirstSetBit_eq (b : Bits n) : findFirstSetBit b.entry = findNextSetBit (-1) b.entry :=
  rfl

theorem weightLoop_eq (bitmap : Fin n → ℤ) (is : List (Fin n)) (weight : ℤ) :
    weightLoop bitmap is weight = weight + (is.map bitmap).sum := by
  induction is generalizing weight with
  | nil => simp [weightLoop]
  | cons i is ih => rw [weightLoop, ih, List.map_cons, List.sum_cons, add_assoc]

/-- The weight is the sum of the entries. -/
theorem findBitmapWeight_sum (bitmap : Fin n → ℤ) :
    findBitmapWeight bitmap = ∑ i, bitmap i := by
  rw [findBitmapWeight, weightLoop_eq, indexes_zero, zero_add, Fin.sum_univ_def]

/-- Of bits, it is the number of ones. -/
theorem findBitmapWeight_eq (b : Bits n) :
    findBitmapWeight b.entry = Rdma.findBitmapWeight b.taken := by
  rw [findBitmapWeight, weightLoop_eq, indexes_zero, zero_add, Rdma.findBitmapWeight]
  induction List.finRange n with
  | nil => rfl
  | cons i is ih =>
    rw [List.map_cons, List.sum_cons, ih, List.countP_cons]
    rcases b.bit i with h | h
    · simp [h, Bits.taken]
    · simp [h, Bits.taken, add_comm]

/-! ### The walk -/

theorem walk_end (bitmap : Fin n → ℤ) (fuel : ℕ) : walk bitmap fuel (-1) = some [] := by
  cases fuel <;> rfl

/-- **The walk** from the first taken slot after `idx` goes through all of them, in order. -/
theorem walk_findNextSetBit (b : Bits n) {fuel : ℕ} {idx : ℤ} (hidx : -1 ≤ idx)
    (hfuel : (setBitsAfter idx b.taken).length ≤ fuel) :
    walk b.entry fuel (findNextSetBit idx b.entry) =
      some ((setBitsAfter idx b.taken).map fun i => (i.val : ℤ)) := by
  induction fuel generalizing idx with
  | zero =>
    have hnil : setBitsAfter idx b.taken = [] := List.eq_nil_of_length_eq_zero (by omega)
    rcases findNextSetBit_cases idx b.taken with ⟨-, hend⟩ | ⟨i, hcons, -⟩
    · rw [findNextSetBit_eq b hidx, hend, walk_end, hnil, List.map_nil]
    · exact absurd (hnil.symm.trans hcons) (by simp)
  | succ fuel ih =>
    rcases findNextSetBit_cases idx b.taken with ⟨hnil, hend⟩ | ⟨i, hcons, hnext⟩
    · rw [findNextSetBit_eq b hidx, hend, walk_end, hnil, List.map_nil]
    · rw [hcons, List.length_cons] at hfuel
      have hi : (i.val : ℤ) ≠ -1 := by omega
      rw [findNextSetBit_eq b hidx, hnext, walk, if_neg hi, ih (by omega) (by omega), hcons,
        List.map_cons, Option.map_some]

/-- `rc_next_connection` takes the steps of the walk, and -1 starts it. -/
theorem rcNextConnection_eq (b : Bits n) {cur : ℤ} (hcur : -1 ≤ cur) :
    rcNextConnection b.entry cur = findNextSetBit cur b.entry := by
  have hi : (if cur < 0 then findFirstSetBit b.entry else findNextSetBit cur b.entry) =
      findNextSetBit cur b.entry := by
    split
    · rw [findFirstSetBit_eq, show cur = -1 by omega]
    · rfl
  rw [rcNextConnection, hi, findNextSetBit_eq b hcur]
  rcases findNextSetBit_cases cur b.taken with ⟨-, hend⟩ | ⟨i, -, hnext⟩
  · rw [hend]
    rfl
  · rw [hnext]
    exact if_pos (Int.natCast_nonneg i.val)

/-! ### Claims -/

theorem claimLoop_eq (bitmap : Fin n → ℤ) (is : List (Fin n)) :
    claimLoop bitmap is =
      match is.find? fun i => bitmap i = 0 with
      | some i => ((i.val : ℤ), Function.update bitmap i 1)
      | none => (-1, bitmap) := by
  induction is with
  | nil => rfl
  | cons i is ih =>
    rw [claimLoop, cmpxchg, List.find?_cons]
    by_cases hi : bitmap i = 0
    · simp [hi]
    · simp [hi, ih]

/-- What a search through all indexes finds is the least. -/
theorem isLeast_of_find? {p : Fin n → Bool} {i : Fin n} (h : (List.finRange n).find? p = some i) :
    IsLeast {j | p j = true} i := by
  obtain ⟨hi, before, after, hsplit, hbefore⟩ := List.find?_eq_some_iff_append.mp h
  refine ⟨hi, ?_⟩
  intro j hj
  have hmem : j ∈ before ++ i :: after := hsplit ▸ List.mem_finRange j
  have hsorted : (before ++ i :: after).Pairwise (· < ·) := hsplit ▸ List.pairwise_lt_finRange n
  rcases List.mem_append.mp hmem with hj' | hj'
  · have hnot := hbefore j hj'
    rw [show p j = true from hj] at hnot
    exact absurd hnot (by simp)
  · rcases List.mem_cons.mp hj' with rfl | hj'
    · exact le_refl j
    · exact le_of_lt ((List.pairwise_cons.mp (List.pairwise_append.mp hsorted).2.1).1 j hj')

/-- Taking a free slot makes the bitmap heavier by one. -/
theorem findBitmapWeight_update {bitmap : Fin n → ℤ} {i : Fin n} (hi : bitmap i = 0) :
    findBitmapWeight (Function.update bitmap i 1) = findBitmapWeight bitmap + 1 := by
  rw [findBitmapWeight_sum, findBitmapWeight_sum, Finset.sum_update_of_mem (Finset.mem_univ i),
    ← Finset.add_sum_erase _ bitmap (Finset.mem_univ i), hi, Finset.sdiff_singleton_eq_erase,
    zero_add, add_comm]

theorem Bits.weight_le (b : Bits n) : findBitmapWeight b.entry ≤ n := by
  rw [findBitmapWeight_eq, Rdma.findBitmapWeight]
  have hle := List.countP_le_length (p := b.taken) (l := List.finRange n)
  rw [List.length_finRange] at hle
  exact_mod_cast hle

/-- Bits with a slot taken are bits. -/
def Bits.take (b : Bits n) (i : Fin n) : Bits n where
  entry := Function.update b.entry i 1
  bit := by
    intro j
    by_cases hj : j = i
    · exact Or.inr (by rw [hj, Function.update_self])
    · rw [Function.update_of_ne hj]
      exact b.bit j

/-- A claim takes the first free slot, or there is none. -/
theorem findFirstEmptyBitAndSet_cases (b : Bits n) :
    (∃ i : Fin n, IsLeast {j | b.entry j = 0} i ∧
      findFirstEmptyBitAndSet b.entry = ((i.val : ℤ), Function.update b.entry i 1) ∧
      findBitmapWeight (Function.update b.entry i 1) = findBitmapWeight b.entry + 1 ∧
      findBitmapWeight b.entry ≠ n) ∨
    findFirstEmptyBitAndSet b.entry = (-1, b.entry) ∧ findBitmapWeight b.entry = n := by
  rw [findFirstEmptyBitAndSet, claimLoop_eq, indexes_zero]
  cases h : (List.finRange n).find? fun i => decide (b.entry i = 0) with
  | some i =>
    have hleast := isLeast_of_find? h
    simp only [decide_eq_true_eq] at hleast
    have hweight := findBitmapWeight_update hleast.1
    have hle := (b.take i).weight_le
    refine Or.inl ⟨i, hleast, rfl, hweight, ?_⟩
    change findBitmapWeight (Function.update b.entry i 1) ≤ n at hle
    omega
  | none =>
    refine Or.inr ⟨rfl, ?_⟩
    have hone : ∀ i, b.entry i = 1 := by
      intro i
      have hne := List.find?_eq_none.mp h i (List.mem_finRange i)
      rw [decide_eq_true_eq] at hne
      exact (b.bit i).resolve_left hne
    rw [findBitmapWeight_sum, Finset.sum_congr rfl fun i _ => hone i]
    simp

/-! ### Claims and releases -/

/-- The array, and the slots its users hold. -/
structure State (n : ℕ) where
  bitmap : Fin n → ℤ
  held : List (Fin n)

inductive Act (n : ℕ)
  /-- `find_first_empty_bit_and_set`. -/
  | claim
  /-- `bitmap[i] = 0`, for a slot that is held. -/
  | release (i : Fin n)

def step (s : State n) : Act n → Option (State n)
  | .claim =>
    let r := findFirstEmptyBitAndSet s.bitmap
    -- whoever gets -1 holds nothing more
    some {
      bitmap := r.2
      held := if h : 0 ≤ r.1 ∧ r.1.toNat < n then ⟨r.1.toNat, h.2⟩ :: s.held else s.held }
  | .release i =>
    if i ∈ s.held then
      some { bitmap := Function.update s.bitmap i 0, held := s.held.erase i }
    else none

/-- The slots held are distinct, and they are those taken. -/
structure Inv (s : State n) : Prop where
  bit : ∀ i, s.bitmap i = 0 ∨ s.bitmap i = 1
  nodup : s.held.Nodup
  held : ∀ i, i ∈ s.held ↔ s.bitmap i = 1

/-- At the beginning the taken slots are held. -/
def Bits.start (b : Bits n) : State n where
  bitmap := b.entry
  held := setBits b.taken

theorem Bits.start_inv (b : Bits n) : Inv b.start where
  bit := b.bit
  nodup := (List.nodup_finRange n).filter _
  held := fun i => by rw [Bits.start, mem_setBits, b.taken_iff]

theorem Inv.claim {s s' : State n} (h : Inv s) (hs : step s .claim = some s') : Inv s' := by
  rcases findFirstEmptyBitAndSet_cases ⟨s.bitmap, h.bit⟩ with
    ⟨i, hleast, hclaim, -, -⟩ | ⟨hfull, -⟩
  · have hfree : s.bitmap i = 0 := hleast.1
    have hi : 0 ≤ (i.val : ℤ) ∧ (i.val : ℤ).toNat < n := ⟨Int.natCast_nonneg _, i.isLt⟩
    have hs' : s' = { bitmap := Function.update s.bitmap i 1, held := i :: s.held } := by
      simp only [step, hclaim] at hs
      rw [dif_pos hi] at hs
      exact (Option.some_inj.mp hs).symm
    subst hs'
    refine ⟨(Bits.take ⟨s.bitmap, h.bit⟩ i).bit, ?_, ?_⟩
    · refine List.nodup_cons.mpr ⟨fun hmem => ?_, h.nodup⟩
      rw [h.held, hfree] at hmem
      exact absurd hmem (by simp)
    · intro j
      by_cases hj : j = i
      · simp [hj]
      · simp [hj, h.held]
  · have hs' : s' = s := by
      simp only [step, hfull] at hs
      rw [dif_neg (by simp)] at hs
      exact (Option.some_inj.mp hs).symm
    exact hs' ▸ h

theorem Inv.release {s s' : State n} {i : Fin n} (h : Inv s)
    (hs : step s (.release i) = some s') : Inv s' := by
  simp only [step] at hs
  split at hs
  · obtain rfl := Option.some_inj.mp hs
    refine ⟨?_, h.nodup.erase i, ?_⟩
    · intro j
      by_cases hj : j = i
      · simp [hj]
      · simp [hj, h.bit j]
    · intro j
      rw [h.nodup.mem_erase_iff]
      by_cases hj : j = i
      · simp [hj]
      · simp [hj, h.held]
  · exact absurd hs (by simp)

theorem Inv.run {s s' : State n} {as : List (Act n)} (h : Inv s)
    (hr : Machine.run step s as = some s') : Inv s' := by
  refine Machine.run_inv (I := Inv) ?_ h hr
  rintro t (_ | i) t' ht hs
  · exact ht.claim hs
  · exact ht.release hs

/-- **The loops over a bitmap agree**: the walk goes through the taken slots, as many as the
weight says; a claim takes the first free slot, and fails only where the weight is that of a
full array; and the slots held after any claims and releases are those taken. -/
theorem bitmap_laws (b : Bits n) :
    (∃ is : List ℤ, (∀ fuel, n ≤ fuel →
        walk b.entry fuel (findFirstSetBit b.entry) = some is) ∧
      is.Pairwise (· < ·) ∧ (∀ i, i ∈ is ↔ ∃ k : Fin n, i = k.val ∧ b.entry k = 1) ∧
      is.length = findBitmapWeight b.entry) ∧
    ((∃ i : Fin n, IsLeast {j | b.entry j = 0} i ∧
        findFirstEmptyBitAndSet b.entry = ((i.val : ℤ), Function.update b.entry i 1) ∧
        findBitmapWeight (Function.update b.entry i 1) = findBitmapWeight b.entry + 1 ∧
        findBitmapWeight b.entry ≠ n) ∨
      findFirstEmptyBitAndSet b.entry = (-1, b.entry) ∧ findBitmapWeight b.entry = n) ∧
    ∀ as s, Machine.run step b.start as = some s →
      s.held.Nodup ∧ ∀ i, i ∈ s.held ↔ s.bitmap i = 1 := by
  refine ⟨⟨(setBits b.taken).map fun i => (i.val : ℤ), ?_, ?_, ?_, ?_⟩,
    findFirstEmptyBitAndSet_cases b, ?_⟩
  · intro fuel hfuel
    have hlen : (setBits b.taken).length ≤ n := by
      have hle := List.length_filter_le b.taken (List.finRange n)
      rwa [List.length_finRange] at hle
    rw [← setBitsAfter_neg] at hlen ⊢
    exact walk_findNextSetBit b (le_refl (-1)) (hlen.trans hfuel)
  · refine List.Pairwise.map _ ?_ ((List.pairwise_lt_finRange n).filter b.taken)
    intro i j hij
    exact_mod_cast hij
  · intro i
    rw [List.mem_map]
    constructor
    · rintro ⟨k, hk, rfl⟩
      exact ⟨k, rfl, b.taken_iff.mp (mem_setBits.mp hk)⟩
    · rintro ⟨k, rfl, hk⟩
      exact ⟨k, mem_setBits.mpr (b.taken_iff.mpr hk), rfl⟩
  · rw [List.length_map, length_setBits, findBitmapWeight_eq]
  · intro as s hr
    have hinv := b.start_inv.run hr
    exact ⟨hinv.nodup, hinv.held⟩

end Bitmap

end Rdma
