/-
Building WQEs without the driver (`mlx5_intf.c`, `mlx5_intf.h`, `doorbell.h`).

`mlx5_post_send` writes WQEs into the send queue itself, past the driver: for each work
request of a list it fills the segments of a WQE at the block `scur_post` names, and rings the
doorbell for the last one.  Segments are filled one after the other, and those that would
lie past the end of the queue at its beginning.

The memory `m` holds the send queue.  What the SGEs of an inline request point to is read
from `data`: it does not lie in the queue.

* `setDataInlSeg`, `setDataNonInlSeg`, `setDataAtomSeg` — the data segments;
* `mlx5PostSendOne`, `mlx5PostSend` — the posts, `__mlx5_post_send` and `mlx5_post_send`.
-/
import RednRdma.Setup
import RednRdma.Segment
import Mathlib.Data.Int.Bitwise

namespace Rdma

open Bytes

/-- The errors a post returns. -/
inductive Errno
  | einval | enomem
  deriving Repr, DecidableEq

abbrev IBV_INLINE_THRESHOLD : ℕ := 128

/-- `MLX5_WRAPPER_INLINE_SEG`, the bit that marks a data segment as inline. -/
abbrev MLX5_WRAPPER_INLINE_SEG : UInt32 := 0x80000000

/-- The bits of `flags` that the verbs library defines as `IBV_EXP_QP_CREATE_MANAGED_SEND`
and `IBV_EXP_QP_CREATE_MANAGED_RECV`. -/
def managedSend (flags : ℤ) : Bool := flags.testBit 3
def managedRecv (flags : ℤ) : Bool := flags.testBit 4

namespace Builder

/-- What an `int` keeps of a number. -/
def toInt (x : ℤ) : ℤ := x.bmod (2 ^ 32)

/-! ### The control metadata -/

/-- `MLX5_WQE_CTRL_SOLICITED`. -/
abbrev MLX5_WQE_CTRL_SOLICITED : UInt8 := 2

/-- `MLX5_WQE_CTRL_FENCE`. -/
abbrev MLX5_WQE_CTRL_FENCE : UInt8 := 0x80

/-- `IBV_SEND_FENCE`, `IBV_SEND_SIGNALED` and `IBV_SEND_SOLICITED`, as the index of
`fm_ce_se_tbl`. -/
def sendFlagBits (flags : SendFlags) : Fin 8 :=
  (if flags.fence then 1 else 0) + (if flags.signaled then 2 else 0) +
    (if flags.solicited then 4 else 0)

/-- The control bits that ask for what the flags ask for. -/
def ctrlBits (flags : SendFlags) : UInt8 :=
  (if flags.solicited then MLX5_WQE_CTRL_SOLICITED else 0) |||
    (if flags.signaled then MLX5_WQE_CTRL_CQ_UPDATE else 0) |||
    (if flags.fence then MLX5_WQE_CTRL_FENCE else 0)

/-- `mlx5_build_ctrl_metadata`, the table that is read. -/
def mlx5BuildCtrlMetadata (ctx : ConnContext) : ConnContext :=
  { ctx with
    fmCeSeTbl := fun i => ctx.sqSignalBits ||| ctrlBits
      { fence := i.val.testBit 0, signaled := i.val.testBit 1, solicited := i.val.testBit 2 } }

/-- `send_ieth`: the opcodes whose entry in `mlx5_ib_opcode` has the attribute
`MLX5_WRAPPER_OPCODE_WITH_IMM`. -/
def sendIeth (wr : WorkRequest) : UInt32 :=
  match wr.opcode with
  | .sendWithImm | .sendWithInv | .rdmaWriteWithImm => wr.immData
  | _ => 0

/-! ### Waits and enables -/

/-- `set_wait_en_seg`. -/
def setWaitEnSeg (m : Mem) (seg objNum count : ℕ) : Mem :=
  let m := store m (seg + 8) (beBytes 4 count)
  store m (seg + 12) (beBytes 4 objNum)

/-- `wr->task.cqe_wait.cq_count`, which is where `wr->task.wqe_enable.wqe_count` is. -/
def taskCount : Task → UInt32
  | .none => 0
  | .cqeWait _ count | .wqeEnable _ count => count

/-- `wr->task.wqe_enable.qp->qp_num`. -/
def taskQpNum : Task → Except Stop UInt32
  | .wqeEnable qpNum _ => .ok qpNum
  | _ => .error .fault

/-! ### Data segments -/

/-- The length a segment gets: `sge.length = atom_arg`, or what is left after `offset`. -/
def segLength (arg : Option ℤ) (sge : Sge) (offset : ℤ) : UInt32 :=
  match arg with
  | some atomArg => UInt32.ofInt atomArg
  | none => sge.length - UInt32.ofInt offset

/-- The loop of `set_data_non_inl_seg` and of `set_data_atom_seg`, from `dpseg` on. -/
def dataSegLoop (ctx : ConnContext) (arg : Option ℤ) :
    List Sge → ℕ → ℤ → Mem → ℤ → Mem × ℤ
  | [], _, _, m, sz => (m, sz)
  | sge :: sges, dpseg, offset, m, sz =>
    -- at the end of the queue, not past it
    let dpseg := if dpseg = ctx.sqEnd then getSendWqe ctx 0 else dpseg
    if sge.length ≠ 0 then
      dataSegLoop ctx arg sges (dpseg + 16) 0
        (setDataPtrSeg m dpseg (segLength arg sge offset).toNat sge.lkey.toNat
          (sge.addr + UInt64.ofInt offset).toNat) (toInt (sz + 1))
    else dataSegLoop ctx arg sges dpseg offset m sz

/-- `set_data_non_inl_seg`. -/
def setDataNonInlSeg (ctx : ConnContext) (m : Mem) (sgList : List Sge) (wqe : ℕ) (sz : ℤ)
    (idx : ℕ) (offset : ℤ) : Mem × ℤ :=
  dataSegLoop ctx none (sgList.drop idx) wqe offset m sz

/-- `set_data_atom_seg`. -/
def setDataAtomSeg (ctx : ConnContext) (m : Mem) (sgList : List Sge) (wqe : ℕ) (sz : ℤ)
    (atomArg : ℤ) : Mem × ℤ :=
  dataSegLoop ctx (some atomArg) sgList wqe 0 m sz

/-! ### Inline data -/

/-- `memcpy` into the queue with an `int` for its size: a negative one becomes a `size_t`
that no memory has. -/
def memcpy (data m : Mem) (dst src : ℕ) (n : ℤ) : Except Stop Mem :=
  if 0 ≤ n then .ok (store m dst (load data src n.toNat)) else .error .fault

/-- The variables of the loop of `set_data_inl_seg`, and how many bytes it has copied. -/
structure InlVars where
  m : Mem
  wqe : ℕ
  inl : ℤ := 0
  copied : ℕ := 0

/-- What does not fit before the end of the queue goes on at its beginning: the first part of
a copy is made, and the rest is left. -/
def copyToEnd (ctx : ConnContext) (data : Mem) (s : InlVars) (addr : ℕ) (len : ℤ) :
    Except Stop (InlVars × ℕ × ℤ) :=
  if s.wqe + len > ctx.sqEnd then do
    let copy := toInt (ctx.sqEnd - s.wqe)
    let m ← memcpy data s.m s.wqe addr copy
    return ({ s with m, wqe := getSendWqe ctx 0, copied := s.copied + copy.toNat },
      addr + copy.toNat, toInt (len - copy))
  else .ok (s, addr, len)

/-- The copy of one SGE. -/
def copyIn (ctx : ConnContext) (data : Mem) (s : InlVars) (addr : ℕ) (len : ℤ) :
    Except Stop InlVars := do
  let (s, addr, len) ← copyToEnd ctx data s addr len
  let m ← memcpy data s.m s.wqe addr len
  return { s with m, wqe := s.wqe + len.toNat, copied := s.copied + len.toNat }

/-- The loop of `set_data_inl_seg`. -/
def inlLoop (ctx : ConnContext) (data : Mem) :
    List Sge → ℤ → InlVars → Except Stop (Option Errno × InlVars)
  | [], _, s => .ok (none, s)
  | sge :: sges, offset, s => do
    let addr := (sge.addr + UInt64.ofInt offset).toNat
    let len := toInt (sge.length - UInt32.ofInt offset).toNat
    let inl := toInt (s.inl + len)
    -- the copies made before stay
    if inl > IBV_INLINE_THRESHOLD then return (some .enomem, { s with inl })
    else do
      let s ← copyIn ctx data s addr len
      inlLoop ctx data sges 0 { s with inl }

/-- `ALIGN(inl + sizeof(seg->byte_count), 16) / 16`, in `size_t`. -/
def inlAlign (inl : ℤ) : ℕ :=
  (((UInt64.ofInt inl + 4 + 15) &&& ~~~15) / 16).toNat

/-- What `set_data_inl_seg` leaves and returns. -/
structure InlDone where
  m : Mem
  ret : Except Errno ℤ
  copied : ℕ

/-- `set_data_inl_seg`. -/
def setDataInlSeg (ctx : ConnContext) (data m : Mem) (sgList : List Sge) (wqe : ℕ) (sz : ℤ)
    (idx : ℕ) (offset : ℤ) : Except Stop InlDone := do
  let seg := wqe
  let (err, s) ← inlLoop ctx data (sgList.drop idx) offset { m, wqe := wqe + 4 }
  match err with
  | some e => return { m := s.m, ret := .error e, copied := s.copied }
  | none =>
    if s.inl ≠ 0 then
      return {
        m := store s.m seg (beBytes 4 (UInt32.ofInt s.inl ||| MLX5_WRAPPER_INLINE_SEG).toNat)
        ret := .ok (toInt (sz + inlAlign s.inl))
        copied := s.copied }
    else return { m := s.m, ret := .ok sz, copied := s.copied }

/-- `set_data_seg`. -/
def setDataSeg (ctx : ConnContext) (data m : Mem) (seg : ℕ) (sz : ℤ) (isInl : Bool)
    (sgList : List Sge) (atomArg : ℤ) (idx : ℕ) (offset : ℤ) :
    Except Stop (Mem × Except Errno ℤ) := do
  if isInl then
    let r ← setDataInlSeg ctx data m sgList seg sz idx offset
    return (r.m, r.ret)
  else if atomArg ≠ 0 then
    let (m, sz) := setDataAtomSeg ctx m sgList seg sz atomArg
    return (m, .ok sz)
  else
    let (m, sz) := setDataNonInlSeg ctx m sgList seg sz idx offset
    return (m, .ok sz)

/-! ### One WQE -/

/-- What lies before the data segments, after the control segment. -/
structure Header where
  m : Mem
  seg : ℕ
  size : ℤ
  atomArg : ℤ := 0

/-- The `switch` of `__mlx5_post_send`, for a control segment at `seg - 16`. -/
def headerSegs (ctx : ConnContext) (m : Mem) (wr : WorkRequest) (seg : ℕ) :
    Except Stop (Except Errno Header) :=
  match wr.opcode with
  | .rdmaRead | .rdmaWrite | .rdmaWriteWithImm =>
    .ok (.ok { m := setRaddrSeg m seg wr.remoteAddr.toNat wr.rkey.toNat, seg := seg + 16,
               size := 1 + 1 })
  | .atomicCmpAndSwp | .atomicFetchAndAdd =>
    let m := setRaddrSeg m seg wr.remoteAddr.toNat wr.rkey.toNat
    .ok (.ok { m := setAtomicSeg m (seg + 16) wr.opcode wr.swap.toNat wr.compareAdd.toNat,
               seg := seg + 16 + 16, size := 1 + (1 + 1), atomArg := 8 })
  | .cqeWait => do
    let waitIndex := taskCount wr.task
    -- the queue of the posting connection, whatever the task names
    let icq ← deref ctx.icq
    return .ok { m := setWaitEnSeg m seg icq.cqn.toNat waitIndex.toNat, seg := seg + 16,
                 size := 1 + 1 }
  | .sendEnable | .recvEnable => do
    -- the flags of the posting connection stand for those of the target
    if (wr.opcode = .sendEnable ∧ ¬ managedSend ctx.flags) ∨
        (wr.opcode = .recvEnable ∧ ¬ managedRecv ctx.flags) then
      return .error .einval
    else
      let headEnIndex := taskCount wr.task
      let qpNum ← taskQpNum wr.task
      return .ok { m := setWaitEnSeg m seg qpNum.toNat headEnIndex.toNat, seg := seg + 16,
                   size := 1 + 1 }
  | _ => .ok (.ok { m, seg, size := 1 })

/-- `__mlx5_post_send`: the WQE at `seg`, and its size in units. -/
def mlx5PostSendOne (ctx : ConnContext) (data m : Mem) (wr : WorkRequest) (seg : ℕ) :
    Except Stop (Mem × Except Errno ℤ) := do
  let ctrl := seg
  let imm := sendIeth wr
  match ← headerSegs ctx m wr (seg + 16) with
  | .error e => return (m, .error e)
  | .ok h =>
    let (m, ret) ← setDataSeg ctx data h.m h.seg h.size wr.flags.inl wr.sgList h.atomArg 0 0
    match ret with
    | .error e => return (m, .error e)
    | .ok size =>
      let fmCeSe := ctx.fmCeSeTbl (sendFlagBits wr.flags)
      -- a local variable, not the one of the context
      let scurPost : UInt16 := 0
      return (setCtrlSeg m ctrl ctx.qpNum.toNat (mlx5IbOpcode wr.opcode) scurPost.toNat 0
        (UInt8.ofInt size).toNat fmCeSe.toNat imm.toNat, .ok size)

/-! ### A list of work requests -/

/-- `DIV_ROUND_UP(size * 16, MLX5_SEND_WQE_BB)`, in `int`. -/
def blocks (size : ℤ) : ℤ := (toInt (toInt (size * 16) + SEND_WQE_BB - 1)).tdiv SEND_WQE_BB

/-- The block of the next WQE. -/
def wqeIdx (ctx : ConnContext) (iqp : Mlx5dvQp) : ℕ := (ctx.scurPost &&& (iqp.sqWqeCnt - 1)).toNat

/-- The context once a WQE of `size` units is built at block `idx`. -/
def advance (ctx : ConnContext) (idx : ℕ) (wrId : UInt64) (size : ℤ) : ConnContext :=
  { ctx with
    sqWrid := Function.update ctx.sqWrid idx wrId
    scurPost := ctx.scurPost + UInt32.ofInt (blocks size) }

/-- The variables of `mlx5_post_send`; the last two are not read before they are set. -/
structure PostVars where
  ctx : ConnContext
  m : Mem
  nreq : ℕ := 0
  wqe2ring : ℕ := 0
  size : ℤ := 0

/-- The loop of `mlx5_post_send`, and the error it ends in, with `*bad_wr`. -/
def postLoop (data : Mem) :
    List WorkRequest → PostVars → Except Stop (PostVars × Option (Errno × List WorkRequest))
  | [], s => .ok (s, none)
  | wr :: wrs, s => do
    let iqp ← deref s.ctx.iqp
    let idx := wqeIdx s.ctx iqp
    let seg := getSendWqe s.ctx idx
    if wr.sgList.length > 16 then return (s, some (.enomem, wr :: wrs))
    else do
      let (m, ret) ← mlx5PostSendOne s.ctx data s.m wr seg
      match ret with
      -- what the segments of the rejected request overwrote stays overwritten
      | .error e => return ({ s with m }, some (e, wr :: wrs))
      | .ok size =>
        postLoop data wrs
          { ctx := advance s.ctx idx wr.wrId size, m, nreq := s.nreq + 1, wqe2ring := seg, size }

/-- A call of `__ring_db`, by the method `MLX5_DB_METHOD_DB`. -/
structure Doorbell where
  currPost : ℕ
  seg : ℕ
  size : ℤ
  deriving Repr, DecidableEq

/-- What `mlx5_post_send` leaves and returns; `badWr` is what is stored to `*bad_wr`. -/
structure Posted where
  ctx : ConnContext
  m : Mem
  ret : Option Errno
  badWr : Option (List WorkRequest)
  bells : List Doorbell

/-- `mlx5_post_send`. -/
def mlx5PostSend (ctx : ConnContext) (data m : Mem) (wrs : List WorkRequest) :
    Except Stop Posted := do
  let (s, err) ← postLoop data wrs { ctx, m }
  let bells :=
    if s.nreq ≠ 0 then
      -- a managed queue is rung by an enable from elsewhere
      if managedSend s.ctx.flags then []
      else [{ currPost := (s.ctx.scurPost &&& 0xffff).toNat, seg := s.wqe2ring,
              size := (s.size + 3).tdiv 4 }]
    else []
  return { ctx := s.ctx, m := s.m, ret := err.map Prod.fst, badWr := err.map Prod.snd, bells }

end Builder

end Rdma
