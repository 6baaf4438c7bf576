/-
The driver's side of a send queue (vendored `libmlx5`, `qp.c`).

`DriverQp.postList` is `__mlx5_post_send`: each work request of the list is laid
out at block `scur_post mod wqe_cnt`, its `wr_id` is recorded there, and
`scur_post` moves past the blocks the WQE takes.  The log keeps every WQE with
the blocks it was written to, so that `Ring.Resident` says which are still
whole.

The refusals that depend on the state of the device rather than on the work
request (a full queue, a QP without cross-channel or atomic support) are left
out: they only cut runs short.

* `postOne_eq_some`, `postList_log` — what accepted work requests do;
* `postList_ne_none_iff` — which lists are accepted;
* `idx_eq_total_mod` — the producer index follows the log around the ring.
-/
import RednRdma.Lib.Ring
import RednRdma.Intf
import Mathlib.Tactic.Common

namespace Rdma

/-- The units `__mlx5_post_send_one` lays out before the data segments on an RC
queue pair.  `none` is a refusal, by a QP without UMR or masked atomics, or a request
that is left out: the driver takes those of memory windows and `set_bind_wr` lays them
out in 8 or 12 units, from a `bind_mw` that a `WorkRequest` does not have. -/
def driverHeader : WrOpcode → Option ℕ
  | .rdmaRead | .rdmaWrite | .rdmaWriteWithImm => some (1 + 1)
  | .atomicCmpAndSwp | .atomicFetchAndAdd => some (1 + (1 + 1))
  | .cqeWait | .sendEnable | .recvEnable => some (1 + 1)
  | .send | .sendWithImm | .sendWithInv | .nop | .tso => some 1
  | .extMaskedAtomicCmpAndSwp | .extMaskedAtomicFetchAndAdd
  | .umrFill | .umrInvalidate => none
  -- taken by the driver, left out here
  | .bindMw | .localInv => none

/-- The units of inline data: a 4-byte header and the bytes, padded to a unit. -/
def inlineUnits (byteLen : ℕ) : ℕ := if byteLen = 0 then 0 else divRoundUp (byteLen + 4) 16

/-- A queue pair as the driver keeps it.  `wqe_cnt` is a power of two, and
`max_gs` is derived from a WQE size that fits the ring. -/
structure DriverQp where
  wqeCnt : UInt32
  maxGs : ℕ
  maxInlineData : ℕ
  scurPost : UInt32 := 0
  wrid : ℕ → UInt64 := fun _ => 0
  log : List (Ring.Placed WorkRequest) := []
  wqeCnt_pow : ∃ k < 32, wqeCnt.toNat = 2 ^ k
  maxGs_fits : (1 + 2 + maxGs) * 16 ≤ wqeCnt.toNat * SEND_WQE_BB

namespace DriverQp

/-- The units of the data segments, `set_data_seg`. -/
def dataUnits (q : DriverQp) (wr : WorkRequest) : Option ℕ :=
  if wr.flags.inl then
    if wr.byteLen ≤ q.maxInlineData then some (inlineUnits wr.byteLen) else none
  else some wr.dataSges.length

/-- The size of the WQE in 16-byte units, or `none` where the driver refuses. -/
def wqeSize (q : DriverQp) (wr : WorkRequest) : Option ℕ :=
  if wr.sgList.length > q.maxGs then none
  else (driverHeader wr.opcode).bind fun h => (q.dataUnits wr).map (h + ·)

/-- The block the next WQE starts at. -/
def idx (q : DriverQp) : ℕ := (q.scurPost &&& (q.wqeCnt - 1)).toNat

/-- One turn of the loop of `__mlx5_post_send`. -/
def postOne (q : DriverQp) (wr : WorkRequest) : Option DriverQp :=
  (q.wqeSize wr).map fun size =>
    { q with
      wrid := Function.update q.wrid q.idx wr.wrId
      scurPost := q.scurPost + UInt32.ofNat (divRoundUp (size * 16) SEND_WQE_BB)
      log := q.log ++ [⟨q.idx, divRoundUp (size * 16) SEND_WQE_BB, wr⟩] }

/-- `__mlx5_post_send`, for a list it accepts to the end. -/
def postList (q : DriverQp) : List WorkRequest → Option DriverQp
  | [] => some q
  | wr :: wrs => (q.postOne wr).bind fun q' => q'.postList wrs

theorem postOne_eq_some {q q' : DriverQp} {wr : WorkRequest} (h : q.postOne wr = some q') :
    ∃ size, q.wqeSize wr = some size ∧
      q'.wqeCnt = q.wqeCnt ∧ q'.maxGs = q.maxGs ∧ q'.maxInlineData = q.maxInlineData ∧
      q'.wrid = Function.update q.wrid q.idx wr.wrId ∧
      q'.scurPost = q.scurPost + UInt32.ofNat (divRoundUp (size * 16) SEND_WQE_BB) ∧
      q'.log = q.log ++ [⟨q.idx, divRoundUp (size * 16) SEND_WQE_BB, wr⟩] := by
  obtain ⟨size, hsize, rfl⟩ := Option.map_eq_some_iff.mp h
  exact ⟨size, hsize, rfl, rfl, rfl, rfl, rfl, rfl⟩

/-- The log grows by the requests of the list, in order. -/
theorem postList_log {q q' : DriverQp} {wrs : List WorkRequest} (h : q.postList wrs = some q') :
    ∃ new, q'.log = q.log ++ new ∧ new.map Ring.Placed.data = wrs := by
  induction wrs generalizing q with
  | nil =>
    obtain rfl := Option.some_inj.mp h
    exact ⟨[], by simp, rfl⟩
  | cons wr wrs ih =>
    obtain ⟨q₁, hone, hrest⟩ := Option.bind_eq_some_iff.mp h
    obtain ⟨size, -, -, -, -, -, -, hlog⟩ := postOne_eq_some hone
    obtain ⟨new, hnew, hdata⟩ := ih hrest
    refine ⟨⟨q.idx, divRoundUp (size * 16) SEND_WQE_BB, wr⟩ :: new, ?_, by simp [hdata]⟩
    rw [hnew, hlog, List.append_assoc]
    rfl

/-- The driver takes a list if it takes each of its requests. -/
theorem postList_ne_none_iff {q : DriverQp} {wrs : List WorkRequest} :
    q.postList wrs ≠ none ↔ ∀ wr ∈ wrs, q.wqeSize wr ≠ none := by
  induction wrs generalizing q with
  | nil => simp [postList]
  | cons wr wrs ih =>
    rw [List.forall_mem_cons, postList]
    cases hsize : q.wqeSize wr with
    | none => simp [postOne, hsize]
    | some size =>
      obtain ⟨q', hone⟩ : ∃ q', q.postOne wr = some q' := by simp [postOne, hsize]
      obtain ⟨-, -, -, hgs, hinl, -⟩ := postOne_eq_some hone
      -- what a request takes is the same after a post
      have hsame : ∀ w, q'.wqeSize w = q.wqeSize w := by
        intro w
        rw [wqeSize, wqeSize, hgs, dataUnits, dataUnits, hinl]
      rw [hone, Option.bind_some, ih]
      simp [hsame]

theorem wqeSize_pos {q : DriverQp} {wr : WorkRequest} {size : ℕ}
    (h : q.wqeSize wr = some size) : 0 < size := by
  rw [wqeSize] at h
  split at h
  · simp at h
  · obtain ⟨header, hh, hd⟩ := Option.bind_eq_some_iff.mp h
    obtain ⟨units, -, rfl⟩ := Option.map_eq_some_iff.mp hd
    have hpos : 0 < header := by
      unfold driverHeader at hh
      split at hh <;> simp at hh <;> omega
    omega

/-- A WQE takes at least one block. -/
theorem blocks_pos {q : DriverQp} {wr : WorkRequest} {size : ℕ}
    (h : q.wqeSize wr = some size) : 0 < divRoundUp (size * 16) SEND_WQE_BB := by
  have := wqeSize_pos h
  exact divRoundUp_pos (by decide) (by omega)

/-- The size of a WQE without inline data. -/
theorem wqeSize_of_not_inl {q : DriverQp} {wr : WorkRequest} {size : ℕ}
    (hinl : wr.flags.inl = false) (h : q.wqeSize wr = some size) :
    ∃ header, driverHeader wr.opcode = some header ∧ size = header + wr.dataSges.length ∧
      wr.sgList.length ≤ q.maxGs := by
  rw [wqeSize] at h
  split at h
  · simp at h
  · rename_i hgs
    obtain ⟨header, hh, hd⟩ := Option.bind_eq_some_iff.mp h
    obtain ⟨units, hu, rfl⟩ := Option.map_eq_some_iff.mp hd
    rw [dataUnits, if_neg (by simp [hinl]), Option.some_inj] at hu
    exact ⟨header, hh, by rw [hu], Nat.not_lt.mp hgs⟩

/-- A WQE without inline data fits the ring. -/
theorem blocks_le {q : DriverQp} {wr : WorkRequest} {size : ℕ} (hinl : wr.flags.inl = false)
    (h : q.wqeSize wr = some size) :
    divRoundUp (size * 16) SEND_WQE_BB ≤ q.wqeCnt.toNat := by
  have hfits := q.maxGs_fits
  obtain ⟨header, hh, rfl, hgs⟩ := wqeSize_of_not_inl hinl h
  have hheader : header ≤ 3 := by
    unfold driverHeader at hh
    split at hh <;> simp at hh <;> omega
  have hunits : wr.dataSges.length ≤ wr.sgList.length := List.length_filter_le _ _
  refine divRoundUp_le (by decide) (le_trans ?_ hfits)
  omega

theorem idx_eq_mod (q : DriverQp) : q.idx = q.scurPost.toNat % q.wqeCnt.toNat := by
  obtain ⟨k, hk, hpow⟩ := q.wqeCnt_pow
  have hsub : (q.wqeCnt - 1).toNat = 2 ^ k - 1 := by
    have hle : (1 : UInt32) ≤ q.wqeCnt := by
      rw [UInt32.le_iff_toNat_le, hpow]
      exact Nat.one_le_two_pow
    rw [UInt32.toNat_sub_of_le _ _ hle, hpow]
    rfl
  rw [idx, UInt32.toNat_and, hsub, Nat.and_two_pow_sub_one_eq_mod, hpow]

/-- The producer index is the length of the log, modulo `2^32`. -/
def Wound (q : DriverQp) : Prop := q.scurPost.toNat = Ring.total q.log % 2 ^ 32

theorem Wound.postOne {q q' : DriverQp} {wr : WorkRequest} (hw : q.Wound)
    (h : q.postOne wr = some q') : q'.Wound := by
  obtain ⟨size, -, -, -, -, -, hpost, hlog⟩ := postOne_eq_some h
  rw [Wound, hpost, hlog, Ring.total_concat, UInt32.toNat_add, hw, UInt32.toNat_ofNat',
    ← Nat.add_mod]

theorem wqeCnt_dvd (q : DriverQp) : q.wqeCnt.toNat ∣ 2 ^ 32 := by
  obtain ⟨k, hk, hpow⟩ := q.wqeCnt_pow
  exact hpow ▸ Nat.pow_dvd_pow 2 hk.le

theorem Wound.idx_eq_total_mod {q : DriverQp} (hw : q.Wound) :
    q.idx = Ring.total q.log % q.wqeCnt.toNat := by
  rw [idx_eq_mod, hw, Nat.mod_mod_of_dvd _ q.wqeCnt_dvd]

theorem wqeCnt_pos (q : DriverQp) : 0 < q.wqeCnt.toNat := by
  obtain ⟨k, -, hpow⟩ := q.wqeCnt_pow
  rw [hpow]
  exact Nat.two_pow_pos k

theorem idx_lt (q : DriverQp) : q.idx < q.wqeCnt.toNat := by
  rw [idx_eq_mod]
  exact Nat.mod_lt _ q.wqeCnt_pos

end DriverQp

end Rdma
