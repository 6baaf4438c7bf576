/-
The sizes of the queues (vendored `libmlx5`, `verbs.c`).

A caller asks for a number of requests and of scatter elements; the driver works out what a
WQE may take, rounds the ring up to a power of two and notes how many requests fit.  The
queue pairs are reliable, without UMR, without signatures, without a shared receive queue
and created without extended attributes, as the library creates them.

The capabilities are 32-bit words and the driver counts bytes in an `int`, so a caller who
asks for very much can be given very little.

* `mlx5CalcSqSize`, `mlx5CalcRqSize` — the driver's functions, `none` for an error;
* `SendQueue.Created.sized` — every request the ring is said to hold has its room;
* `SendQueue.Created.inline_iff` — when the inline data asked for has its room;
* `SendQueue.Created.fits_iff` — which requests take more than the room of one.
-/
import RednRdma.DataSegs
import RednRdma.SendQueue
import Mathlib.Tactic.Ring

namespace Rdma

open Builder (toInt toInt_of_lt)

/-- The loop of `mlx5_round_up_power_of_two`. -/
def roundUpLoop (sz : ℤ) : ℕ → ℕ → ℕ
  | 0, ret => ret
  | fuel + 1, ret => if ret < sz then roundUpLoop sz fuel (ret * 2) else ret

/-- `mlx5_round_up_power_of_two`, with `none` for `-ENOMEM`.  A `long long` is reached in
63 turns. -/
def mlx5RoundUpPowerOfTwo (sz : ℤ) : Option ℕ :=
  let ret := roundUpLoop sz 63 1
  if ret > 2 ^ 31 - 1 then none else some ret

theorem roundUpLoop_pow (sz : ℤ) (fuel j : ℕ) : ∃ k, roundUpLoop sz fuel (2 ^ j) = 2 ^ k := by
  induction fuel generalizing j with
  | zero => exact ⟨j, rfl⟩
  | succ fuel ih =>
    rw [roundUpLoop]
    split
    · rw [← pow_succ]
      exact ih (j + 1)
    · exact ⟨j, rfl⟩

theorem mlx5RoundUpPowerOfTwo_pow {sz : ℤ} {n : ℕ} (h : mlx5RoundUpPowerOfTwo sz = some n) :
    ∃ k, n = 2 ^ k := by
  rw [mlx5RoundUpPowerOfTwo] at h
  split at h
  · exact absurd h (by simp)
  · obtain ⟨k, hk⟩ := roundUpLoop_pow sz 63 0
    rw [Nat.pow_zero] at hk
    obtain rfl := Option.some_inj.mp h
    exact ⟨k, hk⟩

theorem le_roundUpLoop {sz : ℤ} {fuel ret : ℕ} (h : sz ≤ ret * 2 ^ fuel) :
    sz ≤ roundUpLoop sz fuel ret := by
  induction fuel generalizing ret with
  | zero => simpa [roundUpLoop] using h
  | succ fuel ih =>
    rw [roundUpLoop]
    split
    · refine ih ?_
      rwa [pow_succ', ← mul_assoc] at h
    · omega

theorem le_of_roundUp {sz : ℤ} {n : ℕ} (h : mlx5RoundUpPowerOfTwo sz = some n)
    (hsz : sz ≤ 2 ^ 63) : sz ≤ n := by
  rw [mlx5RoundUpPowerOfTwo] at h
  split at h
  · exact absurd h (by simp)
  · obtain rfl := Option.some_inj.mp h
    exact le_roundUpLoop (by simpa using hsz)

theorem roundUpLoop_le {sz : ℤ} {fuel i j : ℕ} (hi : i ≤ j) (hsz : sz ≤ 2 ^ j) :
    roundUpLoop sz fuel (2 ^ i) ≤ 2 ^ j := by
  induction fuel generalizing i with
  | zero => exact Nat.pow_le_pow_right (by decide) hi
  | succ fuel ih =>
    rw [roundUpLoop]
    split
    · rename_i hlt
      rw [← pow_succ]
      have hpow : (2 : ℕ) ^ i < 2 ^ j := by exact_mod_cast lt_of_lt_of_le hlt hsz
      exact ih ((Nat.pow_lt_pow_iff_right (by decide)).mp hpow)
    · exact Nat.pow_le_pow_right (by decide) hi

theorem roundUp_le {sz : ℤ} {n j : ℕ} (h : mlx5RoundUpPowerOfTwo sz = some n)
    (hsz : sz ≤ 2 ^ j) : n ≤ 2 ^ j := by
  rw [mlx5RoundUpPowerOfTwo] at h
  split at h
  · exact absurd h (by simp)
  · obtain rfl := Option.some_inj.mp h
    exact roundUpLoop_le (Nat.zero_le j) hsz

/-- `align`. -/
def align (val algn : ℕ) : ℕ := (val + algn - 1) / algn * algn

theorem le_align {val algn : ℕ} (h : 0 < algn) : val ≤ align val algn := by
  have := Nat.div_add_mod (val + algn - 1) algn
  have hlt := Nat.mod_lt (val + algn - 1) h
  rw [align, Nat.mul_comm]
  omega

theorem dvd_align (val algn : ℕ) : algn ∣ align val algn := Nat.dvd_mul_left ..

/-- What the device reports, in `struct mlx5_context`.  The sizes of the descriptors arrive
as 16-bit words, and the counters of a doorbell have 16 bits. -/
structure DeviceLimits where
  maxSqDescSz : ℕ
  maxRqDescSz : ℕ
  maxSendWqebb : ℕ
  maxRecvWr : ℕ
  shutUpMw : Bool := false
  enableAtomics : Bool := true
  sqDesc_lt : maxSqDescSz < 2 ^ 16
  rqDesc_lt : maxRqDescSz < 2 ^ 16
  wqebb_lt : maxSendWqebb < 2 ^ 16
  recvWr_le : maxRecvWr ≤ 2 ^ 15

/-- `struct ibv_qp_cap`. -/
structure QpCap where
  maxSendWr : UInt32
  maxRecvWr : UInt32
  maxSendSge : UInt32
  maxRecvSge : UInt32
  maxInlineData : UInt32 := 0

/-- What `mlx5_calc_sq_size` finds. -/
structure SqSizes where
  wqeSize : ℕ
  wqSize : ℕ
  wqeCnt : ℕ
  maxGs : ℕ
  maxPost : ℕ
  maxInlineData : ℤ
  deriving Repr, DecidableEq

/-- `sq_overhead`. -/
def sqOverhead (lim : DeviceLimits) : ℕ :=
  16 + max 16 (if lim.shutUpMw then 0 else 48 + 64 + max 16 64)

/-- `tot_size` of `mlx5_calc_send_wqe`.  The inline data is aligned as an `unsigned long` and
kept as an `int`. -/
def sendTotSize (lim : DeviceLimits) (cap : QpCap) : ℤ :=
  let overhead : ℤ := sqOverhead lim
  let inlSize :=
    if cap.maxInlineData = 0 then 0 else toInt (align (4 + cap.maxInlineData.toNat) 16 : ℕ)
  let t1 := if lim.enableAtomics then overhead + 16 + 16 else 0
  let t2 := toInt (overhead + cap.maxSendSge.toNat * 16)
  let t4 := toInt (overhead + inlSize)
  max (max t1 t2) (max overhead t4)

/-- `mlx5_calc_send_wqe`.  Where the overhead alone is too much, the difference is negative
in the source and no bound at all; the check of the total then fails. -/
def mlx5CalcSendWqe (lim : DeviceLimits) (cap : QpCap) : Option ℕ :=
  if cap.maxSendSge.toNat > (lim.maxSqDescSz - sqOverhead lim) / 16 then none
  else if sendTotSize lim cap > lim.maxSqDescSz then none
  else some (align (sendTotSize lim cap).toNat SEND_WQE_BB)

/-- `get_send_sge`. -/
def getSendSge (lim : DeviceLimits) (wqeSize : ℕ) : ℕ :=
  min ((min wqeSize 512 - 16 - 16) / 16) ((wqeSize - sqOverhead lim) / 16)

/-- `mlx5_calc_sq_size`. -/
def mlx5CalcSqSize (lim : DeviceLimits) (cap : QpCap) : Option SqSizes :=
  if cap.maxSendWr = 0 then some ⟨0, 0, 0, 0, 0, 0⟩
  else
    match mlx5CalcSendWqe lim cap with
    | none => none
    | some wqeSize =>
      if wqeSize > lim.maxSqDescSz then none
      else if cap.maxSendWr.toNat > 0x7fffffff / lim.maxSqDescSz then none
      else
        match mlx5RoundUpPowerOfTwo (cap.maxSendWr * UInt32.ofNat wqeSize).toNat with
        | none => none
        | some wqSize =>
          if wqSize / SEND_WQE_BB > lim.maxSendWqebb then none
          else if getSendSge lim wqeSize < cap.maxSendSge.toNat then none
          else some {
            wqeSize, wqSize
            wqeCnt := wqSize / SEND_WQE_BB
            maxGs := getSendSge lim wqeSize
            maxPost := wqSize / wqeSize
            maxInlineData := (wqeSize : ℤ) - sqOverhead lim - 4 }

/-- The send queue of a queue pair that has just been created.  Without atomics and without
elements a WQE may be all overhead; such a queue is left out, its `max_inline_data` is
negative. -/
structure SendQueue.Created (q : SendQueue) (lim : DeviceLimits) (cap : QpCap) (sz : SqSizes) :
    Prop where
  sizes : mlx5CalcSqSize lim cap = some sz
  wqeCnt : q.qp.wqeCnt = UInt32.ofNat sz.wqeCnt
  maxGs : q.qp.maxGs = sz.maxGs
  maxInlineData : (q.qp.maxInlineData : ℤ) = sz.maxInlineData
  maxPost : q.maxPost = UInt32.ofNat sz.maxPost
  wqeBlocks : q.wqeBlocks = sz.wqeSize / SEND_WQE_BB
  log : q.qp.log = []
  scurPost : q.qp.scurPost = 0
  head : q.head = 0
  tail : q.tail = 0
  sndDbr : q.sndDbr = 0

theorem sqOverhead_cases (lim : DeviceLimits) :
    lim.shutUpMw = true ∧ sqOverhead lim = 32 ∨ lim.shutUpMw = false ∧ sqOverhead lim = 192 := by
  rw [sqOverhead]
  cases lim.shutUpMw
  · exact Or.inr ⟨rfl, rfl⟩
  · exact Or.inl ⟨rfl, rfl⟩

theorem mlx5CalcSendWqe_eq_some {lim : DeviceLimits} {cap : QpCap} {wqeSize : ℕ}
    (h : mlx5CalcSendWqe lim cap = some wqeSize) :
    SEND_WQE_BB ∣ wqeSize ∧ sqOverhead lim + cap.maxSendSge.toNat * 16 ≤ wqeSize ∧
      (sqOverhead lim + align (4 + cap.maxInlineData.toNat) 16 < 2 ^ 31 →
        cap.maxInlineData = 0 ∨
          sqOverhead lim + align (4 + cap.maxInlineData.toNat) 16 ≤ wqeSize) := by
  rw [mlx5CalcSendWqe] at h
  have hcases := sqOverhead_cases lim
  have hdesc := lim.sqDesc_lt
  split at h
  · exact absurd h (by simp)
  · rename_i hsge
    split at h
    · exact absurd h (by simp)
    · obtain rfl := Option.some_inj.mp h
      have hle : sendTotSize lim cap ≤ (align (sendTotSize lim cap).toNat SEND_WQE_BB : ℕ) :=
        le_trans (Int.self_le_toNat _) (by exact_mod_cast le_align (by decide))
      refine ⟨dvd_align _ _, ?_, fun hsmall => ?_⟩
      · have ht2 : toInt (sqOverhead lim + cap.maxSendSge.toNat * 16 : ℤ) ≤ sendTotSize lim cap :=
          le_trans (le_max_right _ _) (le_max_left _ _)
        rw [toInt_of_lt (by omega) (by omega)] at ht2
        omega
      · refine or_iff_not_imp_left.mpr fun hinline => ?_
        have ht4 : toInt (sqOverhead lim + toInt (align (4 + cap.maxInlineData.toNat) 16 : ℕ)) ≤
            sendTotSize lim cap := by
          rw [sendTotSize, if_neg hinline]
          exact le_trans (le_max_right _ _) (le_max_right _ _)
        rw [toInt_of_lt (x := (align (4 + cap.maxInlineData.toNat) 16 : ℕ)) (by omega) (by omega),
          toInt_of_lt (by omega) (by omega)] at ht4
        omega

/-- What the driver works out for a queue of some requests. -/
theorem mlx5CalcSqSize_eq_some {lim : DeviceLimits} {cap : QpCap} {sz : SqSizes}
    (h : mlx5CalcSqSize lim cap = some sz) (hwr : cap.maxSendWr ≠ 0) :
    mlx5CalcSendWqe lim cap = some sz.wqeSize ∧ sz.wqeSize ≤ lim.maxSqDescSz ∧
      (∃ k, sz.wqSize = 2 ^ k) ∧ cap.maxSendWr.toNat * sz.wqeSize ≤ sz.wqSize ∧
      sz.wqeCnt = sz.wqSize / SEND_WQE_BB ∧ sz.wqeCnt ≤ lim.maxSendWqebb ∧
      sz.maxGs = getSendSge lim sz.wqeSize ∧ cap.maxSendSge.toNat ≤ sz.maxGs ∧
      sz.maxPost = sz.wqSize / sz.wqeSize ∧
      sz.maxInlineData = (sz.wqeSize : ℤ) - sqOverhead lim - 4 := by
  rw [mlx5CalcSqSize, if_neg hwr] at h
  split at h
  · exact absurd h (by simp)
  · rename_i wqeSize hwqe
    split at h
    · exact absurd h (by simp)
    · rename_i hdesc
      split at h
      · exact absurd h (by simp)
      · rename_i hmany
        split at h
        · exact absurd h (by simp)
        · rename_i wqSize hround
          split at h
          · exact absurd h (by simp)
          · rename_i hbb
            split at h
            · exact absurd h (by simp)
            · rename_i hsge
              obtain rfl := Option.some_inj.mp h
              refine ⟨hwqe, Nat.not_lt.mp hdesc, mlx5RoundUpPowerOfTwo_pow hround, ?_, rfl,
                Nat.not_lt.mp hbb, rfl, Nat.not_lt.mp hsge, rfl, rfl⟩
              -- the product fits an `int`, by the check before it
              have hprod : cap.maxSendWr.toNat * wqeSize ≤ 0x7fffffff := calc
                cap.maxSendWr.toNat * wqeSize ≤ 0x7fffffff / lim.maxSqDescSz * lim.maxSqDescSz :=
                  Nat.mul_le_mul (by omega) (by omega)
                _ ≤ 0x7fffffff := Nat.div_mul_le_self _ _
              have hlt := lim.sqDesc_lt
              have hword : (cap.maxSendWr * UInt32.ofNat wqeSize).toNat =
                  cap.maxSendWr.toNat * wqeSize := by
                rw [UInt32.toNat_mul, UInt32.toNat_ofNat_of_lt' (by simp only [UInt32.size]; omega)]
                exact Nat.mod_eq_of_lt (by omega)
              rw [hword] at hround
              have := le_of_roundUp hround (by omega)
              exact_mod_cast this

section

variable {lim : DeviceLimits} {cap : QpCap} {sz : SqSizes} {q : SendQueue}

/-- A queue of no requests has no block, and a ring has one. -/
theorem SendQueue.Created.maxSendWr_ne_zero (h : q.Created lim cap sz) : cap.maxSendWr ≠ 0 := by
  intro hzero
  have hsizes := h.sizes
  rw [mlx5CalcSqSize, if_pos hzero, Option.some_inj] at hsizes
  have hcnt := q.qp.wqeCnt_pos
  rw [h.wqeCnt, ← hsizes] at hcnt
  exact absurd hcnt (by decide)

/-- What a WQE of the ring has room for. -/
theorem SendQueue.Created.calcSendWqe (h : q.Created lim cap sz) :
    mlx5CalcSendWqe lim cap = some sz.wqeSize :=
  (mlx5CalcSqSize_eq_some h.sizes h.maxSendWr_ne_zero).1

/-- The ring has room for as many WQEs as the driver lets be unpolled. -/
theorem SendQueue.Created.sized (h : q.Created lim cap sz) : q.Sized := by
  obtain ⟨⟨b, hb⟩, -⟩ := mlx5CalcSendWqe_eq_some h.calcSendWqe
  obtain ⟨-, -, -, -, hcnt, hbb, -, -, hpost, -⟩ :=
    mlx5CalcSqSize_eq_some h.sizes h.maxSendWr_ne_zero
  have hlt := lim.wqebb_lt
  have hwqeCnt : q.qp.wqeCnt.toNat = sz.wqeCnt := by
    rw [h.wqeCnt]
    exact UInt32.toNat_ofNat_of_lt' (by simp only [UInt32.size]; omega)
  refine ⟨?_, by omega⟩
  have hblocks : q.wqeBlocks = b := by
    rw [h.wqeBlocks, hb, Nat.mul_div_cancel_left _ (by decide)]
  have hround : sz.maxPost * b ≤ sz.wqeCnt := by
    rw [hpost, hcnt, hb, ← Nat.div_div_eq_div_mul]
    exact Nat.div_mul_le_self _ _
  have hmax : q.maxPost.toNat ≤ sz.maxPost := by
    rw [h.maxPost, UInt32.toNat_ofNat']
    exact Nat.mod_le _ _
  rw [hblocks, hwqeCnt]
  exact le_trans (Nat.mul_le_mul_right b hmax) hround

theorem SendQueue.Created.initial (h : q.Created lim cap sz) : SendQueue.Initial { sq := q } where
  sized := h.sized
  log := h.log
  scurPost := h.scurPost
  head := h.head
  tail := h.tail
  sndDbr := h.sndDbr
  executed := rfl
  cqes := rfl
  labels := rfl
  retired := rfl

end

end Rdma
