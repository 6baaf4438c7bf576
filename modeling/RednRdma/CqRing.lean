/-
The completion queue of the driver (vendored `libmlx5`, `cq.c`, `verbs.c`, `mlx5.c`).

The device writes CQEs around a ring and marks each with the owner bit of its lap; the
driver reads on from `cons_index` while the mark is that of its own lap.  When a queue
pair is destroyed, `__mlx5_cq_clean` takes the CQEs of it out of the middle of the ring.

The entries of 128 bytes, compressed CQEs, peer memory and shared receive queues are left
out: the library asks for none of them.

* `createCq`, `getNextCqe`, `cqClean` — the driver's functions;
* `step` — the device, a poller, a cleaner and `mlx5dv_init_obj`, in any order;
* `Fifo` — what the ring is for: a list, oldest first;
* `Holds` — the ring holds a list, kept by every step.
-/
import RednRdma.Lib.Machine
import RednRdma.Lib.Phase
import RednRdma.QueueSizes
import Mathlib.Data.Nat.Bitwise
import Mathlib.Tactic.Common
import Mathlib.Tactic.IntervalCases

namespace Rdma

abbrev MLX5_CQE_OWNER_MASK : UInt8 := 1

abbrev MLX5_CQE_INVALID : UInt8 := 15

abbrev MLX5_COMPRESSED : UInt8 := 3

/-- `struct mlx5_cqe64`, and `struct mlx5_err_cqe` over it.  The fields read through
`ntohl` or `ntohs` hold what these return; `immInvalPkey` is as it is stored. -/
structure Cqe64 where
  srqnUidx : UInt32 := 0
  immInvalPkey : UInt32 := 0
  byteCnt : UInt32 := 0
  syndrome : UInt8 := 0
  sopDropQpn : UInt32 := 0
  wqeCounter : UInt16 := 0
  opOwn : UInt8
  deriving Repr, DecidableEq

namespace Cqe64

/-- `op_own >> 4`. -/
def opcode (c : Cqe64) : UInt8 := c.opOwn >>> 4

/-- `mlx5_get_cqe_format`. -/
def format (c : Cqe64) : UInt8 := (c.opOwn &&& 12) >>> 2

/-- The owner bit. -/
def owner (c : Cqe64) : Bool := c.opOwn &&& MLX5_CQE_OWNER_MASK ≠ 0

/-- The CQE has been written. -/
def valid (c : Cqe64) : Bool := c.opcode ≠ MLX5_CQE_INVALID

/-- `memcpy(dest, cqe, cqe_sz)`, and the owner bit of `dest` put back. -/
def onto (dest c : Cqe64) : Cqe64 :=
  { c with opOwn := (dest.opOwn &&& MLX5_CQE_OWNER_MASK) ||| (c.opOwn &&& ~~~MLX5_CQE_OWNER_MASK) }

/-- What a CQE says, whatever lap it was written on. -/
def strip (c : Cqe64) : Cqe64 := { c with opOwn := c.opOwn &&& ~~~MLX5_CQE_OWNER_MASK }

/-- The CQE as the device writes it on a lap of parity `b`. -/
def mark (c : Cqe64) (b : Bool) : Cqe64 :=
  ({ opOwn := if b then MLX5_CQE_OWNER_MASK else 0 } : Cqe64).onto c

@[simp] theorem opcode_onto (dest c : Cqe64) : (dest.onto c).opcode = c.opcode := by
  apply UInt8.eq_of_toBitVec_eq
  apply BitVec.eq_of_getLsbD_eq
  intro i hi
  simp only [opcode, onto, UInt8.toBitVec_or, UInt8.toBitVec_and, UInt8.toBitVec_not,
    UInt8.toBitVec_shiftRight]
  interval_cases i <;> simp

@[simp] theorem owner_onto (dest c : Cqe64) : (dest.onto c).owner = dest.owner := by
  have h : (dest.onto c).opOwn &&& MLX5_CQE_OWNER_MASK = dest.opOwn &&& MLX5_CQE_OWNER_MASK := by
    apply UInt8.eq_of_toBitVec_eq
    apply BitVec.eq_of_getLsbD_eq
    intro i hi
    simp only [onto, UInt8.toBitVec_or, UInt8.toBitVec_and, UInt8.toBitVec_not]
    interval_cases i <;> simp
  rw [owner, owner, h]

@[simp] theorem strip_onto (dest c : Cqe64) : (dest.onto c).strip = c.strip := by
  have h : (dest.onto c).opOwn &&& ~~~MLX5_CQE_OWNER_MASK =
      c.opOwn &&& ~~~MLX5_CQE_OWNER_MASK := by
    apply UInt8.eq_of_toBitVec_eq
    apply BitVec.eq_of_getLsbD_eq
    intro i hi
    simp only [onto, UInt8.toBitVec_or, UInt8.toBitVec_and, UInt8.toBitVec_not]
    interval_cases i <;> simp
  rw [strip, h]
  rfl

@[simp] theorem valid_onto (dest c : Cqe64) : (dest.onto c).valid = c.valid := by
  rw [valid, valid, opcode_onto]

@[simp] theorem owner_mark (c : Cqe64) (b : Bool) : (c.mark b).owner = b := by
  rw [mark, owner_onto]
  cases b <;> rfl

@[simp] theorem opcode_mark (c : Cqe64) (b : Bool) : (c.mark b).opcode = c.opcode :=
  opcode_onto _ c

@[simp] theorem valid_mark (c : Cqe64) (b : Bool) : (c.mark b).valid = c.valid :=
  valid_onto _ c

@[simp] theorem strip_mark (c : Cqe64) (b : Bool) : (c.mark b).strip = c.strip :=
  strip_onto _ c

end Cqe64

/-- `struct mlx5_cq`.  `cqe` is one less than the number of entries. -/
structure Cq where
  cqe : UInt32
  /-- `cqe_version` of the context is not 0. -/
  cqeVersion : Bool := false
  buf : ℕ → Cqe64
  consIndex : UInt32 := 0
  /-- `dbrec[MLX5_CQ_SET_CI]`. -/
  setCi : UInt32 := 0
  /-- `MLX5_CQ_MODEL_FLAG_DV_OWNED`. -/
  dvOwned : Bool := false
  cqe_pow : ∃ k ≤ 24, cqe.toNat + 1 = 2 ^ k

namespace Cq

/-- The number of entries. -/
def ncqe (cq : Cq) : ℕ := cq.cqe.toNat + 1

/-- `get_sw_cqe`. -/
def getSwCqe (cq : Cq) (n : UInt32) : Option Cqe64 :=
  let cqe64 := cq.buf (n &&& cq.cqe).toNat
  if cqe64.valid = true ∧ cqe64.owner = decide (n &&& (cq.cqe + 1) ≠ 0) then some cqe64 else none

/-- `get_next_cqe`. -/
def getNextCqe (cq : Cq) : Option Cqe64 := cq.getSwCqe cq.consIndex

/-- `mlx5_update_cons_index`. -/
def updateConsIndex (cq : Cq) : Cq := { cq with setCi := cq.consIndex &&& 0xffffff }

/-- `free_res_cqe`, without a shared receive queue. -/
def freeResCqe (cqeVersion : Bool) (rsnUidx : UInt32) (cqe64 : Cqe64) : Bool :=
  if cqeVersion then rsnUidx = cqe64.srqnUidx &&& 0xffffff
  else rsnUidx = cqe64.sopDropQpn &&& 0xffffff

/-- The first loop of `__mlx5_cq_clean`. -/
def findProd (cq : Cq) : ℕ → UInt32 → UInt32
  | 0, prodIndex => prodIndex
  | fuel + 1, prodIndex =>
    if (cq.getSwCqe prodIndex).isNone then prodIndex
    else if prodIndex = cq.consIndex + cq.cqe then prodIndex
    else cq.findProd fuel (prodIndex + 1)

/-- The second loop of `__mlx5_cq_clean`, with the `int` of its condition wrapping. -/
def sweep (cq : Cq) (rsnUidx : UInt32) :
    ℕ → UInt32 → (ℕ → Cqe64) → UInt32 → (ℕ → Cqe64) × UInt32
  | 0, _, buf, nfreed => (buf, nfreed)
  | fuel + 1, prodIndex, buf, nfreed =>
    let prodIndex := prodIndex - 1
    if (prodIndex - cq.consIndex).toNat < 2 ^ 31 then
      let cqe64 := buf (prodIndex &&& cq.cqe).toNat
      if freeResCqe cq.cqeVersion rsnUidx cqe64 then
        cq.sweep rsnUidx fuel prodIndex buf (nfreed + 1)
      else if nfreed ≠ 0 then
        let dest := ((prodIndex + nfreed) &&& cq.cqe).toNat
        cq.sweep rsnUidx fuel prodIndex (Function.update buf dest ((buf dest).onto cqe64)) nfreed
      else cq.sweep rsnUidx fuel prodIndex buf nfreed
    else (buf, nfreed)

/-- `__mlx5_cq_clean`. -/
def clean (cq : Cq) (rsnUidx : UInt32) : Cq :=
  if cq.dvOwned then cq
  else
    let prodIndex := cq.findProd cq.ncqe cq.consIndex
    let (buf, nfreed) := cq.sweep rsnUidx cq.ncqe prodIndex cq.buf 0
    if nfreed ≠ 0 then
      { cq with buf, consIndex := cq.consIndex + nfreed : Cq }.updateConsIndex
    else { cq with buf }

/-- The CQEs `get_sw_cqe` gives from an index on. -/
def pendingFrom (cq : Cq) : ℕ → UInt32 → List Cqe64
  | 0, _ => []
  | fuel + 1, n =>
    match cq.getSwCqe n with
    | none => []
    | some cqe64 => cqe64 :: cq.pendingFrom fuel (n + 1)

/-- The CQEs the driver has not taken yet. -/
def pending (cq : Cq) : List Cqe64 := cq.pendingFrom cq.ncqe cq.consIndex

end Cq

theorem cqe_pow_of_le {k : ℕ} (h : 2 ^ k ≤ 2 ^ 24) :
    ∃ j ≤ 24, (UInt32.ofNat (2 ^ k - 1)).toNat + 1 = 2 ^ j := by
  have hk : k ≤ 24 := (Nat.pow_le_pow_iff_right (by decide)).mp h
  have hpos := Nat.two_pow_pos k
  refine ⟨k, hk, ?_⟩
  rw [UInt32.toNat_ofNat_of_lt' (by simp only [UInt32.size]; omega)]
  omega

/-- `create_cq`, with the entries `mlx5_alloc_cq_buf` makes; `none` for `EINVAL`. -/
def createCq (cqeVersion : Bool) (cqe : ℤ) : Option Cq :=
  if cqe ≤ 0 then none
  else
    match hncqe : mlx5RoundUpPowerOfTwo (cqe + 1) with
    | none => none
    | some ncqe =>
      if hle : ncqe > 2 ^ 24 ∨ (ncqe : ℤ) < cqe + 1 then none
      else some {
        cqe := UInt32.ofNat (ncqe - 1)
        cqeVersion
        buf := fun _ => { opOwn := MLX5_CQE_INVALID <<< 4 }
        cqe_pow := by
          obtain ⟨k, rfl⟩ := mlx5RoundUpPowerOfTwo_pow hncqe
          exact cqe_pow_of_le (Nat.not_lt.mp fun h => hle (Or.inl h)) }

/-! ### Indices -/

namespace Cq

theorem ncqe_pow (cq : Cq) : ∃ k ≤ 24, cq.ncqe = 2 ^ k := cq.cqe_pow

theorem ncqe_pos (cq : Cq) : 0 < cq.ncqe := Nat.succ_pos _

theorem ncqe_le (cq : Cq) : cq.ncqe ≤ 2 ^ 24 := by
  obtain ⟨k, hk, hpow⟩ := cq.ncqe_pow
  rw [hpow]
  exact Nat.pow_le_pow_right (by decide) hk

/-- `n & cqe_mask` is the place of the `n`-th CQE. -/
theorem toNat_and_cqe (cq : Cq) (n : ℕ) : (UInt32.ofNat n &&& cq.cqe).toNat = n % cq.ncqe := by
  obtain ⟨k, hk, hpow⟩ := cq.ncqe_pow
  have hmask : cq.cqe.toNat = 2 ^ k - 1 := by
    rw [← hpow]
    rfl
  rw [UInt32.toNat_and, hmask, Nat.and_two_pow_sub_one_eq_mod, UInt32.toNat_ofNat',
    Nat.mod_mod_of_dvd _ (Nat.pow_dvd_pow 2 (by omega)), hpow]

/-- `!!(n & (cqe_mask + 1))` is the parity of its lap. -/
theorem decide_and_ncqe (cq : Cq) (n : ℕ) :
    decide (UInt32.ofNat n &&& (cq.cqe + 1) ≠ 0) = Phase.lap cq.ncqe n := by
  obtain ⟨k, hk, hpow⟩ := cq.ncqe_pow
  have hbit : (cq.cqe + 1).toNat = 2 ^ k := by
    rw [UInt32.toNat_add, UInt32.toNat_one, ← hpow]
    exact Nat.mod_eq_of_lt (lt_of_le_of_lt cq.ncqe_le (by decide))
  have hk' : k < 32 := by omega
  rw [Phase.lap, hpow, decide_eq_decide, Ne, ← UInt32.toNat_inj, UInt32.toNat_and, hbit,
    UInt32.toNat_ofNat', Nat.and_two_pow, Nat.testBit_mod_two_pow]
  simp [hk', Nat.testBit_eq_decide_div_mod_eq]

/-- The CQE of index `n` looks new to the driver. -/
def IsNew (cq : Cq) (n : ℕ) : Prop := Phase.IsNew cq.ncqe Cqe64.valid Cqe64.owner cq.buf n

instance (cq : Cq) (n : ℕ) : Decidable (cq.IsNew n) :=
  inferInstanceAs (Decidable (Phase.IsNew cq.ncqe Cqe64.valid Cqe64.owner cq.buf n))

theorem getSwCqe_ofNat (cq : Cq) (n : ℕ) :
    cq.getSwCqe (UInt32.ofNat n) = if cq.IsNew n then some (cq.buf (n % cq.ncqe)) else none := by
  rw [getSwCqe, toNat_and_cqe, decide_and_ncqe]
  rfl

/-- From position `lo` on, the ring holds `l`. -/
structure Holds (cq : Cq) (lo : ℕ) (l : List Cqe64) : Prop where
  consIndex : cq.consIndex = UInt32.ofNat lo
  queue : Phase.Queue cq.ncqe Cqe64.valid Cqe64.owner cq.buf lo l

/-! ### What the driver reads -/

section

variable {cq : Cq} {lo : ℕ} {l : List Cqe64}

theorem pendingFrom_eq (h : Phase.Queue cq.ncqe Cqe64.valid Cqe64.owner cq.buf lo l) {fuel : ℕ}
    (hfuel : l.length ≤ fuel) : cq.pendingFrom fuel (UInt32.ofNat lo) = l := by
  induction l generalizing lo fuel with
  | nil =>
    cases fuel with
    | zero => rfl
    | succ fuel =>
      have hnot : ¬ cq.IsNew lo := fun hnew => (h.isNew_iff cq.ncqe_pos).mp hnew rfl
      rw [pendingFrom, getSwCqe_ofNat, if_neg hnot]
  | cons c l ih =>
    cases fuel with
    | zero => simp at hfuel
    | succ fuel =>
      have hnew : cq.IsNew lo := (h.isNew_iff cq.ncqe_pos).mpr (by simp)
      have hnext : UInt32.ofNat lo + 1 = UInt32.ofNat (lo + 1) := (UInt32.ofNat_add lo 1).symm
      rw [pendingFrom, getSwCqe_ofNat, if_pos hnew, h.cell_head, hnext]
      exact congrArg (c :: ·) (ih h.take (by simpa using hfuel))

theorem Holds.pending (h : cq.Holds lo l) : cq.pending = l := by
  rw [Cq.pending, h.consIndex]
  exact pendingFrom_eq h.queue h.queue.length_le

theorem Holds.getNextCqe (h : cq.Holds lo l) : cq.getNextCqe = l.head? := by
  rw [Cq.getNextCqe, h.consIndex, getSwCqe_ofNat]
  cases l with
  | nil =>
    have hnot : ¬ cq.IsNew lo := fun hnew => (h.queue.isNew_iff cq.ncqe_pos).mp hnew rfl
    rw [if_neg hnot]
    rfl
  | cons c l =>
    have hnew : cq.IsNew lo := (h.queue.isNew_iff cq.ncqe_pos).mpr (by simp)
    rw [if_pos hnew, h.queue.cell_head]
    rfl

theorem ofNat_add_inj {n i j : ℕ} (hi : i < 2 ^ 32) (hj : j < 2 ^ 32)
    (h : UInt32.ofNat (n + i) = UInt32.ofNat (n + j)) : i = j := by
  rw [UInt32.ofNat_add, UInt32.ofNat_add, UInt32.add_right_inj] at h
  have := congrArg UInt32.toNat h
  rwa [UInt32.toNat_ofNat_of_lt' hi, UInt32.toNat_ofNat_of_lt' hj] at this

/-- The scan for the producer index ends behind the last CQE, or on it when the ring is
full. -/
theorem Holds.findProd (h : cq.Holds lo l) {fuel j : ℕ} (hj : j ≤ min l.length cq.cqe.toNat)
    (hfuel : cq.ncqe ≤ fuel + j) :
    cq.findProd fuel (UInt32.ofNat (lo + j)) =
      UInt32.ofNat (lo + min l.length cq.cqe.toNat) := by
  have hN : cq.ncqe = cq.cqe.toNat + 1 := rfl
  have hlt := cq.cqe.toNat_lt
  induction fuel generalizing j with
  | zero => omega
  | succ fuel ih =>
    rw [Cq.findProd, getSwCqe_ofNat]
    rcases Nat.lt_or_ge j l.length with hin | hout
    · have hnew : cq.IsNew (lo + j) := h.queue.isNew j hin
      rw [if_pos hnew, if_neg (by simp), h.consIndex]
      have hcqe : cq.cqe = UInt32.ofNat cq.cqe.toNat := UInt32.ofNat_toNat.symm
      by_cases hlast : j = cq.cqe.toNat
      · rw [if_pos (by rw [hlast, UInt32.ofNat_add, ← hcqe])]
        congr 2
        omega
      · have hne : UInt32.ofNat (lo + j) ≠ UInt32.ofNat lo + cq.cqe := by
          intro heq
          rw [hcqe, ← UInt32.ofNat_add] at heq
          exact hlast (ofNat_add_inj (by omega) hlt heq)
        have hnext : UInt32.ofNat (lo + j) + 1 = UInt32.ofNat (lo + (j + 1)) :=
          (UInt32.ofNat_add (lo + j) 1).symm
        rw [if_neg hne, hnext]
        exact ih (by omega) (by omega)
    · have hold : ¬ cq.IsNew (lo + j) := h.queue.stale _ (by omega) (by omega)
      rw [if_neg hold, if_pos Option.isNone_none]
      congr 2
      omega

/-- The sweep of the driver is the sweep of a ring with marked laps. -/
theorem sweep_eq (rsnUidx : UInt32) (hcons : cq.consIndex = UInt32.ofNat lo) {d fuel : ℕ}
    (buf : ℕ → Cqe64) (f : ℕ) (hd : d < fuel) (hf : d + f < cq.ncqe) :
    cq.sweep rsnUidx fuel (UInt32.ofNat (lo + d)) buf (UInt32.ofNat f) =
      ((Phase.sweep cq.ncqe lo (freeResCqe cq.cqeVersion rsnUidx) Cqe64.onto d buf f).1,
        UInt32.ofNat
          (Phase.sweep cq.ncqe lo (freeResCqe cq.cqeVersion rsnUidx) Cqe64.onto d buf f).2) := by
  have hN := cq.ncqe_le
  induction d generalizing buf f fuel with
  | zero =>
    obtain ⟨fuel, rfl⟩ := Nat.exists_eq_add_one.mpr hd
    have hend : ¬ (UInt32.ofNat lo - 1 - UInt32.ofNat lo).toNat < 2 ^ 31 := by
      have : UInt32.ofNat lo - 1 - UInt32.ofNat lo = -1 := by grind
      rw [this]
      decide
    rw [Cq.sweep, hcons, Nat.add_zero, if_neg hend]
    rfl
  | succ d ih =>
    obtain ⟨fuel, rfl⟩ := Nat.exists_eq_add_one.mpr (Nat.zero_lt_of_lt hd)
    have hprev : UInt32.ofNat (lo + (d + 1)) - 1 = UInt32.ofNat (lo + d) := by
      rw [← Nat.add_assoc, UInt32.ofNat_add]
      exact UInt32.add_sub_cancel ..
    have hdist : UInt32.ofNat (lo + d) - UInt32.ofNat lo = UInt32.ofNat d := by
      rw [UInt32.ofNat_add]
      grind
    have hin : (UInt32.ofNat d).toNat < 2 ^ 31 := by
      rw [UInt32.toNat_ofNat_of_lt' (by simp only [UInt32.size]; omega)]
      omega
    have hzero : UInt32.ofNat f ≠ 0 ↔ f ≠ 0 := by
      rw [Ne, Ne, ← UInt32.toNat_inj, UInt32.toNat_ofNat_of_lt' (by simp only [UInt32.size]; omega)]
      rfl
    rw [Cq.sweep, Phase.sweep, hprev, hcons, hdist, if_pos hin, toNat_and_cqe,
      ← UInt32.ofNat_add, toNat_and_cqe]
    by_cases hgone : freeResCqe cq.cqeVersion rsnUidx (buf ((lo + d) % cq.ncqe)) = true
    · rw [if_pos hgone, if_pos hgone]
      have hnext : UInt32.ofNat f + 1 = UInt32.ofNat (f + 1) := (UInt32.ofNat_add f 1).symm
      rw [hnext]
      exact ih buf (f + 1) (by omega) (by omega)
    · rw [if_neg hgone, if_neg hgone]
      by_cases hfreed : f = 0
      · rw [if_neg (mt hzero.mp (not_not.mpr hfreed)), if_neg (not_not.mpr hfreed)]
        exact ih buf f (by omega) (by omega)
      · rw [if_pos (hzero.mpr hfreed), if_pos hfreed]
        exact ih _ f (by omega) (by omega)

/-- The device has been told how far the driver is. -/
def Told (cq : Cq) : Prop := cq.setCi = cq.consIndex &&& 0xffffff

theorem clean_frame (rsnUidx : UInt32) :
    (cq.clean rsnUidx).cqe = cq.cqe ∧ (cq.clean rsnUidx).cqeVersion = cq.cqeVersion ∧
      (cq.clean rsnUidx).dvOwned = cq.dvOwned ∧ (cq.Told → (cq.clean rsnUidx).Told) := by
  rw [clean]
  split
  · exact ⟨rfl, rfl, rfl, id⟩
  · dsimp only
    split
    · exact ⟨rfl, rfl, rfl, fun _ => rfl⟩
    · exact ⟨rfl, rfl, rfl, id⟩

/-- Cleaning takes the CQEs of a queue pair out and leaves the others in their order; the
last entry of a full ring is not looked at. -/
theorem Holds.clean (rsnUidx : UInt32) (h : cq.Holds lo l) (hown : cq.dvOwned = false) :
    ∃ f l', (cq.clean rsnUidx).Holds (lo + f) l' ∧ f + l'.length = l.length ∧
      l'.map Cqe64.strip =
        ((l.take cq.cqe.toNat).filter fun c => !freeResCqe cq.cqeVersion rsnUidx c).map
          Cqe64.strip ++ (l.drop cq.cqe.toNat).map Cqe64.strip := by
  have hlook : min l.length cq.cqe.toNat < cq.ncqe := Nat.lt_succ_of_le (min_le_right _ _)
  have hprod : cq.findProd cq.ncqe cq.consIndex =
      UInt32.ofNat (lo + min l.length cq.cqe.toNat) := by
    rw [h.consIndex]
    exact h.findProd (Nat.zero_le _) (Nat.le_refl cq.ncqe)
  have hsweep := sweep_eq rsnUidx h.consIndex cq.buf 0 hlook hlook
  obtain ⟨l', hq, hview, hlen⟩ := h.queue.sweep (p := min l.length cq.cqe.toNat)
    (freeResCqe cq.cqeVersion rsnUidx) Cqe64.onto Cqe64.strip (min_le_left _ _)
    Cqe64.strip_onto Cqe64.valid_onto Cqe64.owner_onto
  have htake : l.take (min l.length cq.cqe.toNat) = l.take cq.cqe.toNat := by
    rw [min_comm, ← List.take_eq_take_min]
  have hdrop : l.drop (min l.length cq.cqe.toNat) = l.drop cq.cqe.toNat := by
    rw [min_comm, ← List.drop_eq_drop_min]
  rw [htake, hdrop] at hview
  have hclean : cq.clean rsnUidx =
      let (buf, nfreed) := cq.sweep rsnUidx cq.ncqe (UInt32.ofNat (lo + min l.length cq.cqe.toNat))
        cq.buf (UInt32.ofNat 0)
      if nfreed ≠ 0 then { cq with buf, consIndex := cq.consIndex + nfreed : Cq }.updateConsIndex
      else { cq with buf } := by
    rw [Cq.clean, if_neg (by simp [hown]), hprod]
    rfl
  rw [hclean, hsweep]
  have hcap := h.queue.length_le
  generalize Phase.sweep cq.ncqe lo (freeResCqe cq.cqeVersion rsnUidx) Cqe64.onto
    (min l.length cq.cqe.toNat) cq.buf 0 = swept at hq hlen ⊢
  obtain ⟨buf, f⟩ := swept
  refine ⟨f, l', ?_, hlen, hview⟩
  dsimp only
  split
  · exact ⟨by rw [UInt32.ofNat_add, ← h.consIndex]; rfl, hq⟩
  · rename_i hzero
    have hf : f = 0 := by
      have : UInt32.ofNat f = 0 := not_not.mp hzero
      have hnat := congrArg UInt32.toNat this
      rw [UInt32.toNat_ofNat_of_lt' (by
        have := cq.ncqe_le
        simp only [UInt32.size]
        omega)] at hnat
      exact hnat
    subst hf
    exact ⟨h.consIndex, hq⟩

end

end Cq

/-! ### The queue at work -/

namespace CqRing

structure State where
  cq : Cq
  /-- The device's own count of the CQEs it has written. -/
  prod : UInt32 := 0
  /-- The CQEs the driver has taken, oldest first. -/
  polled : List Cqe64 := []

/-- What can happen next. -/
inductive Act
  /-- The device writes a CQE. -/
  | put (cqe64 : Cqe64)
  /-- `poll_cq` takes one CQE. -/
  | poll
  /-- `__mlx5_cq_clean`, for a queue pair that is going away. -/
  | clean (rsnUidx : UInt32)
  /-- `mlx5dv_init_obj`, which is `mlx5dv_get_cq`. -/
  | initObj

/-- The device writes where the driver will look next, marked for its own lap.  It does not
overrun the ring, and no CQE is compressed. -/
def put (s : State) (cqe64 : Cqe64) : Option State :=
  if cqe64.valid = true ∧ cqe64.format ≠ MLX5_COMPRESSED ∧
      (s.prod - s.cq.consIndex).toNat ≤ s.cq.cqe.toNat then
    some { s with
      cq := { s.cq with
        buf := Function.update s.cq.buf (s.prod &&& s.cq.cqe).toNat
          (cqe64.mark (s.prod &&& (s.cq.cqe + 1) ≠ 0)) }
      prod := s.prod + 1 }
  else none

def poll (s : State) : Option State :=
  s.cq.getNextCqe.map fun cqe64 =>
    { s with
      cq := { s.cq with consIndex := s.cq.consIndex + 1 : Cq }.updateConsIndex
      polled := s.polled ++ [cqe64] }

def step (s : State) : Act → Option State
  | .put cqe64 => put s cqe64
  | .poll => poll s
  | .clean rsnUidx => some { s with cq := s.cq.clean rsnUidx }
  | .initObj => some { s with cq := { s.cq with dvOwned := true } }

/-- What the ring is for: a list of bounded length. -/
structure Fifo where
  cap : ℕ
  cqeVersion : Bool
  dvOwned : Bool := false
  items : List Cqe64 := []
  polled : List Cqe64 := []

namespace Fifo

/-- Cleaning looks at all places but the last. -/
def clean (f : Fifo) (rsnUidx : UInt32) : List Cqe64 :=
  (f.items.take (f.cap - 1)).filter (fun c => !Cq.freeResCqe f.cqeVersion rsnUidx c) ++
    f.items.drop (f.cap - 1)

def step (f : Fifo) : Act → Option Fifo
  | .put cqe64 =>
    if cqe64.valid = true ∧ cqe64.format ≠ MLX5_COMPRESSED ∧ f.items.length < f.cap then
      some { f with items := f.items ++ [cqe64.strip] }
    else none
  | .poll =>
    match f.items with
    | [] => none
    | c :: items => some { f with items, polled := f.polled ++ [c] }
  | .clean rsnUidx => some (if f.dvOwned then f else { f with items := f.clean rsnUidx })
  | .initObj => some { f with dvOwned := true }

end Fifo

/-- The list in a ring. -/
def view (s : State) : Fifo where
  cap := s.cq.ncqe
  cqeVersion := s.cq.cqeVersion
  dvOwned := s.cq.dvOwned
  items := s.cq.pending.map Cqe64.strip
  polled := s.polled.map Cqe64.strip

/-- The ring holds a list, and the device is right behind it. -/
structure Inv (s : State) (lo : ℕ) (l : List Cqe64) : Prop where
  holds : s.cq.Holds lo l
  prod : s.prod = UInt32.ofNat (lo + l.length)
  told : s.cq.Told

/-- A queue that has just been created. -/
structure Initial (s : State) : Prop where
  created : ∃ cqeVersion cqe, createCq cqeVersion cqe = some s.cq
  prod : s.prod = 0
  polled : s.polled = []

theorem createCq_eq_some {cqeVersion : Bool} {cqe : ℤ} {cq : Cq}
    (h : createCq cqeVersion cqe = some cq) :
    cqe < cq.ncqe ∧ cq.cqeVersion = cqeVersion ∧ cq.consIndex = 0 ∧ cq.setCi = 0 ∧
      cq.dvOwned = false ∧ ∀ j, (cq.buf j).valid = false := by
  rw [createCq] at h
  split at h
  · exact absurd h (by simp)
  · split at h
    · exact absurd h (by simp)
    · rename_i ncqe _
      split at h
      · exact absurd h (by simp)
      · rename_i hle
        obtain rfl := Option.some_inj.mp h
        have hblank : ({ opOwn := MLX5_CQE_INVALID <<< 4 } : Cqe64).valid = false := by decide
        refine ⟨?_, rfl, rfl, rfl, rfl, fun _ => hblank⟩
        have hcap : (UInt32.ofNat (ncqe - 1)).toNat = ncqe - 1 :=
          UInt32.toNat_ofNat_of_lt' (by simp only [UInt32.size]; omega)
        rw [Cq.ncqe, hcap]
        omega

theorem Initial.inv {s : State} (h : Initial s) : Inv s 0 [] := by
  obtain ⟨cqeVersion, cqe, hc⟩ := h.created
  obtain ⟨-, -, hcons, hci, -, hbuf⟩ := createCq_eq_some hc
  exact ⟨⟨hcons, Phase.Queue.blank fun j _ => hbuf j⟩, h.prod, by rw [Cq.Told, hci, hcons]; rfl⟩

section

variable {s s' : State} {lo : ℕ} {l : List Cqe64}

theorem Inv.view (h : Inv s lo l) :
    view s = ⟨s.cq.ncqe, s.cq.cqeVersion, s.cq.dvOwned, l.map Cqe64.strip,
      s.polled.map Cqe64.strip⟩ := by
  rw [CqRing.view, h.holds.pending]

/-- The device has room exactly when the list is not full. -/
theorem Inv.room (h : Inv s lo l) :
    (s.prod - s.cq.consIndex).toNat ≤ s.cq.cqe.toNat ↔ l.length < s.cq.ncqe := by
  have hlen := h.holds.queue.length_le
  have hN := s.cq.ncqe_le
  have hdist : s.prod - s.cq.consIndex = UInt32.ofNat l.length := by
    rw [h.prod, h.holds.consIndex, UInt32.ofNat_add]
    grind
  rw [hdist, UInt32.toNat_ofNat_of_lt' (by simp only [UInt32.size]; omega), Cq.ncqe]
  omega

theorem Inv.put {cqe64 : Cqe64} (h : Inv s lo l) (hs : put s cqe64 = some s') :
    Inv s' lo (l ++ [cqe64.mark (Phase.lap s.cq.ncqe (lo + l.length))]) ∧
      cqe64.valid = true ∧ cqe64.format ≠ MLX5_COMPRESSED ∧ l.length < s.cq.ncqe ∧
      s'.cq.ncqe = s.cq.ncqe ∧ s'.cq.cqeVersion = s.cq.cqeVersion ∧
      s'.cq.dvOwned = s.cq.dvOwned ∧ s'.polled = s.polled := by
  rw [CqRing.put] at hs
  split at hs
  · rename_i hc
    obtain ⟨hvalid, hformat, hroom⟩ := hc
    have hroom := h.room.mp hroom
    obtain rfl := Option.some_inj.mp hs
    refine ⟨⟨⟨h.holds.consIndex, ?_⟩, ?_, h.told⟩, hvalid, hformat, hroom, rfl, rfl, rfl, rfl⟩
    · have := h.holds.queue.put (c := cqe64.mark (Phase.lap s.cq.ncqe (lo + l.length))) hroom
        (by rwa [Cqe64.valid_mark]) (Cqe64.owner_mark _ _)
      rw [← s.cq.toNat_and_cqe, ← s.cq.decide_and_ncqe, ← h.prod] at this
      rwa [← s.cq.decide_and_ncqe, ← h.prod]
    · rw [List.length_append, List.length_singleton, ← Nat.add_assoc, UInt32.ofNat_add, ← h.prod]
      rfl
  · exact absurd hs (by simp)

/-- The driver takes the head of the list. -/
theorem Inv.next {c : Cqe64} {l : List Cqe64} (h : Inv s lo (c :: l)) (polled : List Cqe64) :
    s.cq.getNextCqe = some c ∧
      Inv { s with
        cq := { s.cq with consIndex := s.cq.consIndex + 1 : Cq }.updateConsIndex
        polled } (lo + 1) l := by
  refine ⟨h.holds.getNextCqe, ⟨?_, h.holds.queue.take⟩, ?_, rfl⟩
  · rw [UInt32.ofNat_add, ← h.holds.consIndex]
    rfl
  · rw [show s.prod = _ from h.prod, List.length_cons]
    congr 1
    omega

theorem Inv.poll (h : Inv s lo l) (hs : poll s = some s') :
    ∃ c l', l = c :: l' ∧ Inv s' (lo + 1) l' ∧ s'.cq.ncqe = s.cq.ncqe ∧
      s'.cq.cqeVersion = s.cq.cqeVersion ∧ s'.cq.dvOwned = s.cq.dvOwned ∧
      s'.polled = s.polled ++ [c] := by
  obtain ⟨c, hc, rfl⟩ := Option.map_eq_some_iff.mp hs
  rw [h.holds.getNextCqe] at hc
  obtain ⟨l', rfl⟩ := List.head?_eq_some_iff.mp hc
  exact ⟨c, l', rfl, (h.next _).2, rfl, rfl, rfl, rfl⟩

theorem Inv.clean (rsnUidx : UInt32) (h : Inv s lo l) (hown : s.cq.dvOwned = false) :
    ∃ f l', Inv { s with cq := s.cq.clean rsnUidx } (lo + f) l' ∧
      l'.map Cqe64.strip =
        ((l.take s.cq.cqe.toNat).filter fun c => !Cq.freeResCqe s.cq.cqeVersion rsnUidx c).map
          Cqe64.strip ++ (l.drop s.cq.cqe.toNat).map Cqe64.strip := by
  obtain ⟨f, l', hholds, hlen, hview⟩ := h.holds.clean rsnUidx hown
  refine ⟨f, l', ⟨hholds, ?_, (s.cq.clean_frame rsnUidx).2.2.2 h.told⟩, hview⟩
  rw [h.prod, ← hlen, Nat.add_assoc]

/-- Every step keeps a list in the ring. -/
theorem exists_inv_step {a : Act} (h : ∃ lo l, Inv s lo l) (hs : step s a = some s') :
    ∃ lo l, Inv s' lo l := by
  obtain ⟨lo, l, h⟩ := h
  cases a with
  | put cqe64 => exact ⟨lo, _, (h.put hs).1⟩
  | poll =>
    obtain ⟨c, l', -, h', -⟩ := h.poll hs
    exact ⟨lo + 1, l', h'⟩
  | clean rsnUidx =>
    obtain rfl := Option.some_inj.mp hs
    cases hown : s.cq.dvOwned with
    | false =>
      obtain ⟨f, l', h', -⟩ := h.clean rsnUidx hown
      exact ⟨lo + f, l', h'⟩
    | true =>
      refine ⟨lo, l, ?_⟩
      rw [Cq.clean, if_pos hown]
      exact h
  | initObj =>
    obtain rfl := Option.some_inj.mp hs
    exact ⟨lo, l, ⟨h.holds.consIndex, h.holds.queue⟩, h.prod, h.told⟩

/-- Whatever lap a CQE was written on, it is of the same queue pair. -/
theorem freeResCqe_strip (cqeVersion : Bool) (rsnUidx : UInt32) (c : Cqe64) :
    Cq.freeResCqe cqeVersion rsnUidx c.strip = Cq.freeResCqe cqeVersion rsnUidx c := rfl

theorem filter_map_strip (cqeVersion : Bool) (rsnUidx : UInt32) (l : List Cqe64) :
    (l.map Cqe64.strip).filter (fun c => !Cq.freeResCqe cqeVersion rsnUidx c) =
      (l.filter fun c => !Cq.freeResCqe cqeVersion rsnUidx c).map Cqe64.strip := by
  rw [List.filter_map]
  rfl

/-- The list of a ring that has been cleaned. -/
theorem Inv.view_clean (rsnUidx : UInt32) (h : Inv s lo l) :
    CqRing.view { s with cq := s.cq.clean rsnUidx } =
      if s.cq.dvOwned then CqRing.view s
      else { CqRing.view s with items := (CqRing.view s).clean rsnUidx } := by
  cases hown : s.cq.dvOwned with
  | true => simp [Cq.clean, hown]
  | false =>
    obtain ⟨f, l', h', hview⟩ := h.clean rsnUidx hown
    obtain ⟨hcqe, hver, hdv, -⟩ := s.cq.clean_frame rsnUidx
    rw [h'.view, h.view]
    simp only [Bool.false_eq_true, if_false, Fifo.clean]
    rw [hview, hver, hdv, ← List.map_take, ← List.map_drop, filter_map_strip, Cq.ncqe, Cq.ncqe,
      hcqe]
    rfl

/-- One step of the ring is one step of its list. -/
theorem step_view (h : ∃ lo l, Inv s lo l) (a : Act) :
    (step s a).map view = (view s).step a := by
  obtain ⟨lo, l, h⟩ := h
  cases a with
  | put cqe64 =>
    rw [step, Fifo.step]
    cases hs : put s cqe64 with
    | none =>
      have hno : ¬ (cqe64.valid = true ∧ cqe64.format ≠ MLX5_COMPRESSED ∧
          l.length < s.cq.ncqe) := by
        rintro ⟨hv, hf, hroom⟩
        rw [put, if_pos ⟨hv, hf, h.room.mpr hroom⟩] at hs
        exact absurd hs (by simp)
      rw [h.view, if_neg (by simpa using hno)]
      rfl
    | some s' =>
      obtain ⟨h', hv, hf, hroom, hcap, hver, hown, hpolled⟩ := h.put hs
      rw [h.view, if_pos ⟨hv, hf, by simpa using hroom⟩, Option.map_some, h'.view, hcap, hver, hown,
        hpolled]
      simp
  | poll =>
    rw [step, Fifo.step, h.view]
    cases hs : poll s with
    | none =>
      have hnil : l = [] := by
        rw [poll, Option.map_eq_none_iff, h.holds.getNextCqe, List.head?_eq_none_iff] at hs
        exact hs
      rw [hnil]
      rfl
    | some s' =>
      obtain ⟨c, l', rfl, h', hcap, hver, hown, hpolled⟩ := h.poll hs
      rw [Option.map_some, h'.view, hcap, hver, hown, hpolled]
      simp
  | clean rsnUidx =>
    rw [step, Fifo.step, Option.map_some, h.view_clean]
    rfl
  | initObj =>
    have h' : Inv { s with cq := { s.cq with dvOwned := true } } lo l :=
      ⟨⟨h.holds.consIndex, h.holds.queue⟩, h.prod, h.told⟩
    rw [step, Fifo.step, Option.map_some, h'.view, h.view]
    rfl

/-- The ring is a list of bounded length over every run: each CQE is taken once, in the
order of writing, and none that has not been written is taken. -/
theorem run_fifo {s : State} (h : Initial s) (as : List Act) :
    (Machine.run step s as).map view =
      Machine.run Fifo.step { cap := s.cq.ncqe, cqeVersion := s.cq.cqeVersion } as := by
  have hstart : view s = { cap := s.cq.ncqe, cqeVersion := s.cq.cqeVersion } := by
    obtain ⟨cqeVersion, cqe, hc⟩ := h.created
    obtain ⟨-, -, -, -, hown, -⟩ := createCq_eq_some hc
    rw [h.inv.view, hown, h.polled]
    rfl
  rw [← hstart]
  exact Machine.run_map (I := fun s => ∃ lo l, Inv s lo l) (fun _ _ _ => exists_inv_step)
    (fun _ a h => step_view h a) ⟨0, [], h.inv⟩ as

/-- A queue of two entries. -/
def entries2 : State := { cq := (createCq false 1).get (by decide) }

theorem entries2_initial : Initial entries2 where
  created := ⟨false, 1, by simp [entries2]⟩
  prod := rfl
  polled := rfl

/-- The CQE of a send on queue pair 7. -/
def sent7 : Cqe64 := { sopDropQpn := 7, opOwn := 0 }

/-- Three CQEs go through two entries. -/
theorem run_fifo_wraps :
    (Machine.run step entries2 [.put sent7, .poll, .put sent7, .put sent7, .poll]).map view =
      some { cap := 2, cqeVersion := false, items := [sent7], polled := [sent7, sent7] } := by
  rw [run_fifo entries2_initial]
  rfl

/-! ### What cleaning leaves -/

/-- No CQE of the queue pair waits. -/
def Free (cqeVersion : Bool) (rsnUidx : UInt32) (l : List Cqe64) : Prop :=
  ∀ c ∈ l, Cq.freeResCqe cqeVersion rsnUidx c = false

theorem free_map_strip {cqeVersion : Bool} {rsnUidx : UInt32} {l : List Cqe64} :
    Free cqeVersion rsnUidx (l.map Cqe64.strip) ↔ Free cqeVersion rsnUidx l := by
  simp [Free, freeResCqe_strip]

theorem free_append {cqeVersion : Bool} {rsnUidx : UInt32} {l l' : List Cqe64} :
    Free cqeVersion rsnUidx (l ++ l') ↔
      Free cqeVersion rsnUidx l ∧ Free cqeVersion rsnUidx l' := by
  simp [Free, or_imp, forall_and]

theorem filter_free (cqeVersion : Bool) (rsnUidx : UInt32) (l : List Cqe64) :
    Free cqeVersion rsnUidx (l.filter fun c => !Cq.freeResCqe cqeVersion rsnUidx c) := by
  simp [Free]

/-- The last place of a ring is taken only when it is full. -/
theorem mem_drop_iff {n : ℕ} (hlen : l.length ≤ n + 1) {c : Cqe64} :
    c ∈ l.drop n ↔ l.length = n + 1 ∧ l.getLast? = some c := by
  rcases Nat.lt_or_ge n l.length with hlt | hle
  · have hfull : l.length = n + 1 := by omega
    have hone : l.drop n = [l[n]] := by
      rw [List.drop_eq_getElem_cons hlt, List.drop_of_length_le hfull.le]
    rw [hone, List.mem_singleton, List.getLast?_eq_getElem?, hfull, Nat.add_sub_cancel,
      List.getElem?_eq_getElem hlt, Option.some_inj]
    exact ⟨fun h => ⟨rfl, h.symm⟩, fun h => h.2.symm⟩
  · rw [List.drop_of_length_le hle]
    simp
    omega

/-- Cleaning never loses, adds or reorders a CQE of another queue pair, and leaves none of
the one it is for exactly when there was none, or the queue is not `DV_OWNED` and does not
end, full, with a CQE of that queue pair. -/
theorem clean_iff {s₀ s : State} (h₀ : Initial s₀) {as : List Act}
    (hr : Machine.run step s₀ as = some s) (rsnUidx : UInt32) :
    ((s.cq.clean rsnUidx).pending.filter
        fun c => !Cq.freeResCqe s.cq.cqeVersion rsnUidx c).map Cqe64.strip =
      (s.cq.pending.filter fun c => !Cq.freeResCqe s.cq.cqeVersion rsnUidx c).map Cqe64.strip ∧
    (Free s.cq.cqeVersion rsnUidx (s.cq.clean rsnUidx).pending ↔
      Free s.cq.cqeVersion rsnUidx s.cq.pending ∨
        s.cq.dvOwned = false ∧
          ¬ (s.cq.pending.length = s.cq.ncqe ∧
            ∃ c, s.cq.pending.getLast? = some c ∧
              Cq.freeResCqe s.cq.cqeVersion rsnUidx c = true)) := by
  obtain ⟨lo, l, h⟩ := Machine.run_inv (I := fun s => ∃ lo l, Inv s lo l)
    (fun _ _ _ => exists_inv_step) ⟨0, [], h₀.inv⟩ hr
  cases hown : s.cq.dvOwned with
  | true => simp [Cq.clean, hown]
  | false =>
    obtain ⟨f, l', h', hview⟩ := h.clean rsnUidx hown
    have hpending : (s.cq.clean rsnUidx).pending = l' := h'.holds.pending
    rw [hpending, h.holds.pending]
    constructor
    · rw [← filter_map_strip, hview, List.filter_append, filter_map_strip, filter_map_strip,
        List.filter_filter, ← List.map_append]
      simp only [Bool.and_self]
      rw [← List.filter_append, List.take_append_drop]
    · have hdrop : Free s.cq.cqeVersion rsnUidx (l.drop s.cq.cqe.toNat) ↔
          ¬ (l.length = s.cq.ncqe ∧ ∃ c, l.getLast? = some c ∧
            Cq.freeResCqe s.cq.cqeVersion rsnUidx c = true) := by
        constructor
        · rintro hfree ⟨hfull, c, hlast, hgone⟩
          have := hfree c ((mem_drop_iff hfull.le).mpr ⟨hfull, hlast⟩)
          rw [hgone] at this
          exact Bool.noConfusion this
        · intro hno c hc
          obtain ⟨hfull, hlast⟩ := (mem_drop_iff h.holds.queue.length_le).mp hc
          rw [← Bool.not_eq_true]
          exact fun hgone => hno ⟨hfull, c, hlast, hgone⟩
      rw [← free_map_strip, hview, free_append, free_map_strip, free_map_strip,
        and_iff_right (filter_free _ _ _), hdrop]
      constructor
      · exact fun hno => Or.inr ⟨rfl, hno⟩
      · rintro (hfree | ⟨-, hno⟩)
        · exact hdrop.mp fun c hc => hfree c (List.mem_of_mem_drop hc)
        · exact hno

/-- A CQE of the queue pair stays behind in a full ring. -/
theorem clean_iff_full : ∃ s, Machine.run step entries2 [.put sent7, .put sent7] = some s ∧
    ¬ Free s.cq.cqeVersion 7 (s.cq.clean 7).pending := by
  have hr : Machine.run step entries2 [.put sent7, .put sent7] = some _ := rfl
  refine ⟨_, hr, ?_⟩
  rw [(clean_iff entries2_initial hr 7).2]
  rintro (hfree | ⟨-, hnot⟩)
  · have := hfree sent7 (List.mem_of_getElem? (i := 0) rfl)
    revert this
    decide
  · exact hnot ⟨rfl, _, rfl, rfl⟩

end

end CqRing

end Rdma
