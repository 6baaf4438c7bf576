/-
The posting calls of `verbs.c`.

Each call is written from where `get_connection(sockfd)->context` is in hand.
It builds its work requests, takes their ids, and passes the list to
`ibv_post_send_wrapper`; only `IBV_SET_TRIGGER` hands its list to the driver
directly.  `PostCall` names the calls, and `PostCall.exec` runs one.

The waits of `send_rdma_operation` for region metadata are taken at their end:
a region that is not ready by then stops the process.
-/
import RednRdma.Driver

namespace Rdma

/-- A connection: the library's context and the queue pair the driver keeps. -/
structure Conn where
  ctx : ConnContext
  qp : DriverQp

/-- `ibv_post_send_wrapper`: the shadow moves by the head of the list, the
driver by all of it.  `none` stands for a non-zero return value. -/
def ibvPostSendWrapper (c : Conn) (wrs : List WorkRequest) : Except Stop (Option Conn) := do
  let ctx ← updateScurPost wrs.head? c.ctx
  return (c.qp.postList wrs).map fun qp => { ctx, qp }

/-- The way every caller treats the wrapper's return value. -/
def submit (c : Conn) (reason : String) (wrs : List WorkRequest) : Except Stop Conn := do
  match ← ibvPostSendWrapper c wrs with
  | some c => return c
  | none => throw (.rcDie reason)

/-- `wr_id = next_wr_id(ctx, 1)` for each request of a list in turn. -/
def takeIds (ctx : ConnContext) : List WorkRequest → List WorkRequest × ConnContext
  | [] => ([], ctx)
  | wr :: wrs =>
    let (wrId, ctx) := nextWrId ctx 1
    let (rest, ctx) := takeIds ctx wrs
    ({ wr with wrId := wrId.toUInt64 } :: rest, ctx)

/-- `ctx->n_posted_ops++`, `n` times. -/
def countOps (ctx : ConnContext) (n : ℕ) : ConnContext :=
  { ctx with nPostedOps := ctx.nPostedOps + UInt32.ofNat n }

/-- The body the single-request calls share: number the request, count it if the
call does, post it and return its id. -/
def postNext (c : Conn) (counted : Bool) (reason : String) (sr : WorkRequest) :
    Except Stop (UInt32 × Conn) := do
  let (wrId, ctx) := nextWrId c.ctx 1
  let ctx := if counted then countOps ctx 1 else ctx
  let c ← submit { c with ctx } reason [{ sr with wrId := wrId.toUInt64 }]
  return (wrId, c)

/-! ### Wrapper operations -/

/-- `struct rdma_metadata`; a chain linked by `next` is a list. -/
structure RdmaMeta where
  addr : UInt64
  imm : UInt32 := 0
  sgeEntries : List Sge := []
  deriving Repr, DecidableEq

/-- `op_one_sided`. -/
def opOneSided : WrOpcode → Bool
  | .rdmaRead | .rdmaWrite | .rdmaWriteWithImm => true
  | _ => false

/-- The operations of `IBV_WRAPPER_FUNC`. -/
inductive WrapperOp
  | send | sendWithImm | rdmaRead | rdmaWrite | rdmaWriteWithImm
  deriving Repr, DecidableEq

/-- `IBV_ENUM`. -/
def WrapperOp.opcode : WrapperOp → WrOpcode
  | .send => .send
  | .sendWithImm => .sendWithImm
  | .rdmaRead => .rdmaRead
  | .rdmaWrite => .rdmaWrite
  | .rdmaWriteWithImm => .rdmaWriteWithImm

/-- The operation carries an immediate. -/
abbrev WrapperOp.WithImm (op : WrapperOp) : Prop := op = .rdmaWriteWithImm ∨ op = .sendWithImm

/-- The operation names remote memory. -/
abbrev WrapperOp.OneSided (op : WrapperOp) : Prop := opOneSided op.opcode = true

/-- `sge_entries[i].lkey = local_mr->lkey`, for every entry. -/
def withLkey (mr : Option IbvMr) : List Sge → Except Stop (List Sge)
  | [] => return []
  | sges => do
    let mr ← deref mr
    return sges.map fun sge => { sge with lkey := mr.lkey }

/-- `wr.rdma`, filled in for a one-sided operation only. -/
def rdmaTarget (opcode : WrOpcode) (remoteMr : Option MrContext) (m : RdmaMeta) :
    Except Stop (UInt64 × UInt32) :=
  if opOneSided opcode then do
    let remoteMr ← deref remoteMr
    return (m.addr, remoteMr.rkey)
  else return (0, 0)

/-- The request `send_rdma_operation` makes of one element of the chain. -/
def rdmaRequest (localMr : Option IbvMr) (remoteMr : Option MrContext) (opcode : WrOpcode)
    (m : RdmaMeta) : Except Stop WorkRequest := do
  let sgList ← withLkey localMr m.sgeEntries
  let target ← rdmaTarget opcode remoteMr m
  return {
    sgList, opcode
    flags := { signaled := true }
    remoteAddr := target.1, rkey := target.2
    immData := if opcode = .rdmaWriteWithImm ∨ opcode = .sendWithImm then htonl m.imm else 0 }

/-- `!one_sided || mr_remote_ready(ctx, remote_id)`. -/
def remoteReady (ctx : ConnContext) (opcode : WrOpcode) (remoteId : ℤ) : Except Stop Bool :=
  if opOneSided opcode then mrRemoteReady ctx remoteId else return true

/-- `remote_mr`, `NULL` unless the operation is one-sided. -/
def remoteMrFor (ctx : ConnContext) (opcode : WrOpcode) (remoteId : ℤ) :
    Except Stop (Option MrContext) :=
  if opOneSided opcode then readAt ctx.remoteMr remoteId else return none

/-- `send_rdma_operation`. -/
def sendRdmaOperation (c : Conn) (chain : List RdmaMeta) (localId remoteId : ℤ)
    (opcode : WrOpcode) : Except Stop (UInt32 × Conn) := do
  -- `MAX_MR` itself passes here and faults below
  dieIf (localId > MAX_MR ∨ remoteId > MAX_MR) "invalid memory regions specified"
  let localReady ← mrLocalReady c.ctx localId
  dieIf (!localReady) "failed to issue sync; no metadata available for remote mr\n"
  let ready ← remoteReady c.ctx opcode remoteId
  dieIf (!ready) "failed to issue sync; no metadata available for remote mr\n"
  let localMr ← readAt c.ctx.localMr localId
  let remoteMr ← remoteMrFor c.ctx opcode remoteId
  let wrs ← chain.mapM (rdmaRequest localMr remoteMr opcode)
  let (wrs, ctx) := takeIds c.ctx wrs
  let last ← deref wrs.getLast?
  let c ← submit { c with ctx := countOps ctx wrs.length } "failed to post rdma operation" wrs
  return (last.wrId.toUInt32, c)

/-! ### Calls that post what they are given -/

/-- `IBV_SEND_ASYNC`.  Its `wr_id` is a constant. -/
def ibvSendAsync (c : Conn) (src size : UInt64) (imm : UInt32) (localId : ℤ) :
    Except Stop (UInt32 × Conn) := do
  let localMr ← deref (← readAt c.ctx.localMr localId)
  let sge : Sge := { addr := src, length := size.toUInt32, lkey := localMr.lkey }
  -- the line that takes `next_wr_id` is commented out
  let sr : WorkRequest :=
    { wrId := 99
      sgList := [sge]
      opcode := if imm ≠ 0 then .sendWithImm else .send
      immData := if imm ≠ 0 then htonl imm else 0
      flags := { signaled := true } }
  let c ← submit { c with ctx := countOps c.ctx 1 } "failed to post rdma operation" [sr]
  return (99, c)

/-- `IBV_POST_ASYNC`, returning the id of the last request of the list. -/
def ibvPostAsync (c : Conn) (wrs : List WorkRequest) : Except Stop (UInt32 × Conn) := do
  let last ← deref wrs.getLast?
  let c ← submit { c with ctx := countOps c.ctx wrs.length } "failed to post rdma operation" wrs
  return (last.wrId.toUInt32, c)

/-! ### Single requests -/

/-- The request of `IBV_CAS_ASYNC`, but for its id. -/
def casRequest (src dst compare swap lkey rkey : UInt64) (fence : ℤ) : WorkRequest :=
  { sgList := [{ addr := src, length := 8, lkey := lkey.toUInt32 }]
    opcode := .atomicCmpAndSwp
    compareAdd := compare, swap, remoteAddr := dst, rkey := rkey.toUInt32
    flags := { signaled := true, fence := fence ≠ 0 } }

/-- `IBV_CAS_ASYNC`. -/
def ibvCasAsync (c : Conn) (src dst compare swap lkey rkey : UInt64) (fence : ℤ) :
    Except Stop (UInt32 × Conn) :=
  postNext c true "failed to post rdma operation"
    (casRequest src dst compare swap lkey rkey fence)

/-- `IBV_FETCH_ADD_ASYNC`. -/
def ibvFetchAddAsync (c : Conn) (src dst size cmp lkey rkey : UInt64) :
    Except Stop (UInt32 × Conn) :=
  postNext c true "failed to post rdma operation"
    { sgList := [{ addr := src, length := size.toUInt32, lkey := lkey.toUInt32 }]
      opcode := .atomicFetchAndAdd
      compareAdd := cmp, swap := 0, remoteAddr := dst, rkey := rkey.toUInt32
      flags := { signaled := true, fence := true } }

/-- `IBV_CONVERT_ENDIAN_ASYNC`. -/
def ibvConvertEndianAsync (c : Conn) (src dst size lkey rkey : UInt64) :
    Except Stop (UInt32 × Conn) :=
  if size > 16 then
    throw (.rcDie "endian conversion failed; max number of sge allowed is 16")
  else
    postNext c true "failed to post rdma operation"
      { sgList := (List.range size.toNat).map fun i =>
          { addr := src + size - 1 - UInt64.ofNat i, length := 1, lkey := lkey.toUInt32 }
        opcode := .rdmaRead
        remoteAddr := dst, rkey := rkey.toUInt32
        flags := { signaled := true } }

/-- `IBV_NOOP_ASYNC`.  Its `opcode = 0` is `IBV_WR_RDMA_WRITE`. -/
def ibvNoopAsync (c : Conn) (signaled : ℤ) : Except Stop (UInt32 × Conn) :=
  postNext c true "failed to post rdma operation"
    { opcode := .rdmaWrite, flags := { signaled := signaled ≠ 0 } }

/-- `IBV_CALC_OP_ASYNC`. -/
def ibvCalcOpAsync (c : Conn) (m : RdmaMeta) (localId remoteId : ℤ) :
    Except Stop (UInt32 × Conn) := do
  let localMr ← readAt c.ctx.localMr localId
  let remoteMr ← readAt c.ctx.remoteMr remoteId
  let sgList ← withLkey localMr m.sgeEntries
  let remoteMr ← deref remoteMr
  postNext c true "failed to post rdma operation"
    { sgList, opcode := .rdmaWrite
      remoteAddr := m.addr, rkey := remoteMr.rkey
      flags := { signaled := true, withCalc := true } }

/-- `rc_bind_buffer`, which always answers 1. -/
def rcBindBuffer (ctx : ConnContext) (buffer : ℤ) (wrId : UInt32) : ConnContext :=
  { ctx with bufferBindings := (wrId, buffer) :: ctx.bufferBindings }

/-- `send_message`; `msgSize` is the process-wide `msg_size`, and 48 is
`sizeof(struct message)`. -/
def sendMessage (msgSize : ℕ) (c : Conn) (buffer : ℤ) : Except Stop (UInt32 × Conn) := do
  let (wrId, ctx) := nextWrId c.ctx 2
  let addr ← readAt ctx.msgSend buffer
  let mr ← deref (← readAt ctx.msgSendMr buffer)
  let wr : WorkRequest :=
    { wrId := wrId.toUInt64
      sgList := [{ addr, length := UInt32.ofNat (48 + msgSize), lkey := mr.lkey }]
      opcode := .send
      flags := { signaled := true } }
  let c ← submit { c with ctx := rcBindBuffer ctx buffer wrId } "failed to post rdma operation" [wr]
  return (wrId, { c with ctx := countOps c.ctx 1 })

/-! ### Cross-channel requests: `c` posts them, `ctx` is the queue they name -/

/-- `IBV_WAIT`. -/
def ibvWait (c : Conn) (ctx : ConnContext) : Except Stop (UInt32 × Conn) :=
  postNext c false "failed to post rdma wr"
    { opcode := .cqeWait, task := .cqeWait ctx.cq ctx.nPostedOps }

/-- `IBV_WAIT_TILL`. -/
def ibvWaitTill (c : Conn) (ctx : ConnContext) (count : UInt32) : Except Stop (UInt32 × Conn) :=
  postNext c false "failed to post rdma wr"
    { opcode := .cqeWait, task := .cqeWait ctx.cq (ctx.nPostedOps + count)
      flags := { waitEnLast := true } }

/-- `IBV_WAIT_EXPLICIT`. -/
def ibvWaitExplicit (c : Conn) (ctx : ConnContext) (count : UInt32) :
    Except Stop (UInt32 × Conn) :=
  postNext c false "failed to post rdma wr"
    { opcode := .cqeWait, task := .cqeWait ctx.cq count
      flags := { waitEnLast := true } }

/-- `IBV_TRIGGER`. -/
def ibvTrigger (c : Conn) (ctx : ConnContext) (count : UInt32) : Except Stop (UInt32 × Conn) :=
  postNext c false "failed to post rdma wr"
    { opcode := .sendEnable, task := .wqeEnable ctx.qpNum count
      flags := { waitEnLast := true } }

/-- `IBV_TRIGGER_EXPLICIT` without `MODDED_DRIVER`: the request is posted with
count 0, then the posted WQE is looked up and `count` stored into it.  The store
goes to the ring's memory, which is not part of a `Conn`; a lookup that fails
makes it a store near `NULL`. -/
def ibvTriggerExplicit (c : Conn) (ctx : ConnContext) (_count : UInt32) :
    Except Stop (UInt32 × Conn) := do
  let (wrId, c) ← postNext c false "failed to post rdma wr"
    { opcode := .sendEnable, task := .wqeEnable ctx.qpNum 0 }
  let _srCtrl ← deref (ibvFindWqe c.ctx wrId)
  return (wrId, c)

/-- The chain of `IBV_SET_TRIGGER`: an enable, then `nops - 1` times a wait and
an enable. -/
def triggerChain (ctx : ConnContext) (nops : ℕ) (nwait : UInt32) : List WorkRequest :=
  let enable : WorkRequest :=
    { opcode := .sendEnable, task := .wqeEnable ctx.qpNum nwait, flags := { waitEnLast := true } }
  let wait : WorkRequest :=
    { opcode := .cqeWait, task := .cqeWait ctx.cq nwait, flags := { waitEnLast := true } }
  enable :: (List.replicate (nops - 1) [wait, enable]).flatten

/-- `IBV_SET_TRIGGER`: `ibv_exp_post_task` goes to the driver past the wrapper. -/
def ibvSetTrigger (c : Conn) (ctx : ConnContext) (nops : ℤ) (nwait : UInt32) :
    Except Stop Conn :=
  if nops ≤ 0 then .error .fault
  else
    let (wrs, mctx) := takeIds c.ctx (triggerChain ctx nops.toNat nwait)
    match c.qp.postList wrs with
    | some qp => .ok { ctx := mctx, qp }
    | none => .error (.rcDie "failed to post rdma task")

end Rdma
