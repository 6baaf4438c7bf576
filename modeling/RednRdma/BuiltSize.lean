/-
The size that is counted and the size that is built (`mlx5_intf.c`, `mlx5_intf.h`).

`update_scur_post` counts the units of a work request without writing a segment of it;
`__mlx5_post_send` counts them as it writes.  Where no data is inline the two counts are the
same, so the two functions leave the same context.

* `headerSegs_size`, `dataSegLoop_size` — the units before the data segments, and theirs;
* `mlx5PostSendOne_size` — the size of a WQE is the one that is counted;
* `blocks_eq_ceil` — the blocks of a size;
* `updateScurPost_eq_mlx5PostSend` — the context after either.
-/
import RednRdma.RoundTrip
import RednRdma.PrefixPost
import Mathlib.Data.Rat.Floor

namespace Rdma

open Bytes

namespace Builder

variable {ctx : ConnContext} {data m m' : Mem} {wr : WorkRequest} {seg : ℕ} {size : ℤ}

/-- Before the data segments, the same units for every opcode. -/
theorem headerSegs_size {h : Header} (hh : headerSegs ctx m wr seg = .ok (.ok h)) :
    h.size = shadowHeader wr.opcode := by
  rw [headerSegs] at hh
  cases hop : wr.opcode
  all_goals simp only [hop] at hh
  case cqeWait =>
    obtain ⟨icq, -, hh⟩ := Except.bind_eq_ok.mp hh
    obtain rfl := Except.ok.inj (Except.ok.inj hh)
    rfl
  -- an enable is built only where the queue is managed
  case sendEnable | recvEnable =>
    split at hh
    · exact absurd hh (by simp [pure, Except.pure])
    · obtain ⟨target, -, hh⟩ := Except.bind_eq_ok.mp hh
      obtain rfl := Except.ok.inj (Except.ok.inj hh)
      rfl
  all_goals
    obtain rfl := Except.ok.inj (Except.ok.inj hh)
    rfl

/-- A unit for every SGE that is not empty, wherever the segments go. -/
theorem dataSegLoop_size (ctx : ConnContext) (arg : Option ℤ) {sgList : List Sge} (dpseg : ℕ)
    (offset : ℤ) (m : Mem) {sz : ℤ} (hsz : 0 ≤ sz)
    (hroom : sz + (nonEmpty sgList).length < 2 ^ 31) :
    (dataSegLoop ctx arg sgList dpseg offset m sz).2 = sz + (nonEmpty sgList).length := by
  induction sgList generalizing dpseg offset m sz with
  | nil => exact (add_zero sz).symm
  | cons sge sges ih =>
    by_cases hlen : sge.length ≠ 0
    · have hcons : nonEmpty (sge :: sges) = sge :: nonEmpty sges :=
        List.filter_cons_of_pos (by simpa using hlen)
      rw [hcons, List.length_cons] at hroom ⊢
      push_cast at hroom ⊢
      simp only [dataSegLoop, if_pos hlen]
      rw [toInt_of_lt (by omega) (by omega), ih _ _ _ (by omega) (by omega)]
      ring
    · have hcons : nonEmpty (sge :: sges) = nonEmpty sges :=
        List.filter_cons_of_neg (by simpa using hlen)
      rw [hcons] at hroom ⊢
      simp only [dataSegLoop, if_neg hlen]
      exact ih _ _ _ hsz hroom

theorem setDataSeg_size {sgList : List Sge} {atomArg sz : ℤ} (hsz : 0 ≤ sz)
    (hroom : sz + (nonEmpty sgList).length < 2 ^ 31)
    (h : setDataSeg ctx data m seg sz false sgList atomArg 0 0 = .ok (m', .ok size)) :
    size = sz + (nonEmpty sgList).length := by
  rw [setDataSeg, if_neg Bool.false_ne_true] at h
  -- an atomic operation goes through the loop with a length of its own
  split at h
  · have hsize := congrArg Prod.snd (Except.pure_eq_ok.mp h)
    rw [← Except.ok.inj hsize]
    exact dataSegLoop_size ctx (some atomArg) seg 0 m hsz hroom
  · have hsize := congrArg Prod.snd (Except.pure_eq_ok.mp h)
    rw [← Except.ok.inj hsize]
    exact dataSegLoop_size ctx none seg 0 m hsz hroom

theorem dataSges_length_le (wr : WorkRequest) : wr.dataSges.length ≤ wr.sgList.length :=
  List.length_filter_le _ _

/-- **The size** of a WQE without inline data is the one `update_scur_post` computes. -/
theorem mlx5PostSendOne_size (hinl : wr.flags.inl = false) (hsges : wr.sgList.length ≤ 16)
    (h : mlx5PostSendOne ctx data m wr seg = .ok (m', .ok size)) : size = shadowSize wr := by
  obtain ⟨hd, m₁, hheader, hdata, -⟩ := mlx5PostSendOne_eq_ok h
  have hunits := shadowHeader_le wr.opcode
  have hcount := (dataSges_length_le wr).trans hsges
  rw [dataSges_eq] at hcount
  rw [hinl, headerSegs_size hheader] at hdata
  rw [setDataSeg_size (by omega) (by omega) hdata, shadowSize, dataSges_eq, Nat.cast_add]

theorem shadowSize_le (hsges : wr.sgList.length ≤ 16) : shadowSize wr ≤ 19 := by
  have hunits := shadowHeader_le wr.opcode
  have hcount := (dataSges_length_le wr).trans hsges
  rw [shadowSize]
  omega

/-- The blocks of `units` units, in `int`, in `unsigned`, and as they are meant. -/
theorem blocks_eq_ceil {units : ℕ} (hunits : units ≤ 19) :
    blocks units = divRoundUp (units * 16) SEND_WQE_BB ∧
      blocks units = ⌈(16 * units / 64 : ℚ)⌉ := by
  have hblocks : blocks units = ((units * 16 + 63) / 64 : ℕ) := by
    have hbytes : toInt (units * 16) = units * 16 := toInt_of_lt (by omega) (by omega)
    have hup : toInt (units * 16 + 64 - 1) = units * 16 + 64 - 1 :=
      toInt_of_lt (by omega) (by omega)
    rw [blocks, hbytes]
    show (toInt (units * 16 + 64 - 1)).tdiv 64 = _
    rw [hup, Int.tdiv_eq_ediv_of_nonneg (by omega)]
    omega
  refine ⟨hblocks, ?_⟩
  have hceil := Rat.ceil_intCast_div_natCast (16 * units) 64
  push_cast at hceil
  rw [hblocks, hceil]
  omega

/-- `update_scur_post` is the advance past a WQE of the size it computes. -/
theorem updateScurPost_eq_advance {iqp : Mlx5dvQp} (hiqp : ctx.iqp = some iqp)
    (hsges : wr.sgList.length ≤ 16) :
    updateScurPost (some wr) ctx =
      .ok (advance ctx (wqeIdx ctx iqp) wr.wrId (shadowSize wr)) := by
  have hblocks : UInt32.ofInt (blocks (shadowSize wr)) =
      UInt32.ofNat (divRoundUp (shadowSize wr * 16) SEND_WQE_BB) := by
    rw [(blocks_eq_ceil (shadowSize_le hsges)).1, ← UInt32.toNat_inj, UInt32.ofInt,
      UInt32.toNat_ofNat', UInt32.toNat_ofNat']
    omega
  have hview : deref ctx.iqp = .ok iqp := deref_eq_ok.mpr hiqp
  rw [updateScurPost, hview, advance, hblocks]
  rfl

/-- **The shadow counts what is built**: where `__mlx5_post_send` succeeds with a total size,
on a work request without inline data, `update_scur_post` leaves the context that
`mlx5_post_send` leaves, with the id in the same entry and the counter on by the blocks of this
size. -/
theorem updateScurPost_eq_mlx5PostSend {ctx : ConnContext} {data m m' : Mem} {wr : WorkRequest}
    {iqp : Mlx5dvQp} {size : ℤ} (hiqp : ctx.iqp = some iqp) (hinl : wr.flags.inl = false)
    (hsges : wr.sgList.length ≤ 16)
    (hpost : mlx5PostSendOne ctx data m wr (getSendWqe ctx (wqeIdx ctx iqp)) =
      .ok (m', .ok size)) :
    ∃ r, mlx5PostSend ctx data m [wr] = .ok r ∧ r.ret = none ∧
      updateScurPost (some wr) ctx = .ok r.ctx ∧
      r.ctx =
        { ctx with
          sqWrid := Function.update ctx.sqWrid (wqeIdx ctx iqp) wr.wrId
          scurPost := ctx.scurPost + UInt32.ofInt ⌈(16 * size / 64 : ℚ)⌉ } := by
  obtain rfl := mlx5PostSendOne_size hinl hsges hpost
  have hceil := (blocks_eq_ceil (shadowSize_le hsges)).2
  have hbuilds : Builds data { ctx, m } [wr] [⟨wqeIdx ctx iqp, shadowSize wr⟩] _ :=
    Builds.cons hiqp rfl hsges hpost (Builds.nil _)
  have hloop := postLoop_append hbuilds []
  refine ⟨_, mlx5PostSend_eq hloop, rfl, updateScurPost_eq_advance hiqp hsges, ?_⟩
  show advance ctx (wqeIdx ctx iqp) wr.wrId (shadowSize wr) = _
  rw [advance, hceil, Int.cast_natCast]

/-- An atomic operation with an empty SGE between two. -/
def casOfThree : WorkRequest where
  wrId := 9
  opcode := .atomicCmpAndSwp
  sgList := [⟨0x100, 8, 1⟩, ⟨0x108, 0, 1⟩, ⟨0x110, 8, 1⟩]

/-- Of five units, which are two blocks, past the wrap. -/
theorem updateScurPost_casOfThree :
    ∃ r, mlx5PostSend wrapping4 (fun _ => 0) (fun _ => 0) [casOfThree] = .ok r ∧
      r.ret = none ∧ updateScurPost (some casOfThree) wrapping4 = .ok r.ctx ∧
      r.ctx.scurPost = 1 ∧ r.ctx.sqWrid 3 = 9 := by
  have hpost : mlx5PostSendOne wrapping4 (fun _ => 0) (fun _ => 0) casOfThree
      (getSendWqe wrapping4 3) = .ok (_, .ok 5) := rfl
  have hview : wrapping4.iqp = some { sqBuf := 0x1000, sqWqeCnt := 4, sqStride := 64 } := rfl
  obtain ⟨r, hr, hret, hup, -⟩ :=
    updateScurPost_eq_mlx5PostSend hview rfl (by decide) hpost
  have hctx := Except.ok.inj hup
  exact ⟨r, hr, hret, hup, hctx ▸ rfl, hctx ▸ rfl⟩

end Builder

end Rdma
