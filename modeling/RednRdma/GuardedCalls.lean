/-
The guards of the calls (`connection.c`, `mr.c`, `verbs.c`).

Most calls follow what `get_connection` returns without looking at it, and `IBV_SEND`,
`IBV_RECEIVE` and `IBV_CALC_OP` read their regions with no guard at all.

* `Entry` — the calls that take a descriptor or a region id;
* `Entry.Guarded` — when the guards of a call cover it;
* `guarded_iff` — that this is exact, for every call and every table that can be reached;
* `boundary_passes` — calls that get past their guards.
-/
import RednRdma.GuardedBatch

namespace Rdma

namespace Guards

open Traced
open Broadcast (CmId Act Mode)

variable (t : Broadcast.Table) (sockfd : ℤ)

/-! ### Posts that are given what they post -/

def ibvPostAsync (wrs : List WorkRequest) : Run (UInt32 × Broadcast.Table) :=
  simplePost t sockfd fun c => Rdma.ibvPostAsync c wrs

def ibvCasAsync (src dst compare swap lkey rkey : UInt64) (fence : ℤ) :
    Run (UInt32 × Broadcast.Table) :=
  simplePost t sockfd fun c => Rdma.ibvCasAsync c src dst compare swap lkey rkey fence

def ibvFetchAddAsync (src dst size cmp lkey rkey : UInt64) : Run (UInt32 × Broadcast.Table) :=
  simplePost t sockfd fun c => Rdma.ibvFetchAddAsync c src dst size cmp lkey rkey

def ibvConvertEndianAsync (src dst size lkey rkey : UInt64) : Run (UInt32 × Broadcast.Table) :=
  posting t sockfd fun e => do
    -- refused before the queue pair is looked at
    lift (dieIf (size > 16) "endian conversion failed; max number of sge allowed is 16")
    lift (post e fun c => Rdma.ibvConvertEndianAsync c src dst size lkey rkey)

def ibvNoopAsync (signaled : ℤ) : Run (UInt32 × Broadcast.Table) :=
  simplePost t sockfd fun c => Rdma.ibvNoopAsync c signaled

def ibvNoopSync (signaled : ℤ) : Run Unit := do
  lift (dieIf (signaled = 0) "cannot synchronously execute unsignaled verb")
  sync sockfd (ibvNoopAsync t sockfd signaled)

section

variable {t sockfd}

theorem safe_ibvNoopSync {signaled : ℤ} : (ibvNoopSync t sockfd signaled).Safe ↔
    signaled = 0 ∨ Guard t sockfd fun _ => True := by
  rw [ibvNoopSync, safe_dieIf_bind, ibvNoopAsync, simplePost, safe_sync]
  exact or_congr_right safe_simplePost

end

/-- `IBV_WRAPPER_SEND_MSG_ASYNC`.  It writes the header of the message first. -/
def ibvWrapperSendMsgAsync (msgSize : ℕ) (buffer : ℤ) : Run (UInt32 × Broadcast.Table) :=
  posting t sockfd fun e => do
    let _msg ← lift (readAt e.ctx.msgSend buffer)
    lift (post e fun c => sendMessage msgSize c buffer)

/-- `IBV_WRAPPER_SEND_MSG_SYNC`; `appId` is the one in the header of the message. -/
def ibvWrapperSendMsgSync (msgSize : ℕ) (buffer solicit : ℤ) (appId : UInt32) :
    Run (UInt32 × Broadcast.Table) :=
  posting t sockfd fun e => do
    let _msg ← lift (readAt e.ctx.msgSend buffer)
    lift (dieIf (solicit ≠ 0 ∧ appId = 0)
      "app_id must be greater than 0 to match request to response")
    lift (post e fun c => sendMessage msgSize c buffer)

/-! ### Posts that read a region -/

/-- An index of one of the tables for regions. -/
def InMrs (mrId : ℤ) : Prop := 0 ≤ mrId ∧ mrId < MAX_MR

def ibvSendAsync (src size : UInt64) (imm : UInt32) (localId : ℤ) :
    Run (UInt32 × Broadcast.Table) :=
  posting t sockfd fun e => do
    let _localMr ← readMr e.ctx.localMr localId
    lift (post e fun c => Rdma.ibvSendAsync c src size imm localId)

def ibvCalcOpAsync (m : RdmaMeta) (localId remoteId : ℤ) : Run (UInt32 × Broadcast.Table) :=
  posting t sockfd fun e => do
    let _localMr ← readMr e.ctx.localMr localId
    let _remoteMr ← readMr e.ctx.remoteMr remoteId
    lift (post e fun c => Rdma.ibvCalcOpAsync c m localId remoteId)

section

variable {t sockfd}

theorem safe_ibvSendAsync {src size : UInt64} {imm : UInt32} {localId : ℤ} :
    (ibvSendAsync t sockfd src size imm localId).Safe ↔ Guard t sockfd fun _ => InMrs localId := by
  simp only [ibvSendAsync, safe_posting, safe_bind, safe_readMr, safe_lift, implies_true, and_true]
  rfl

theorem safe_ibvCalcOpAsync {m : RdmaMeta} {localId remoteId : ℤ} :
    (ibvCalcOpAsync t sockfd m localId remoteId).Safe ↔
      Guard t sockfd fun _ => InMrs localId ∧ InMrs remoteId := by
  have hcall (e : CmId) : (do
      let _localMr ← readMr e.ctx.localMr localId
      let _remoteMr ← readMr e.ctx.remoteMr remoteId
      lift (post e fun c => Rdma.ibvCalcOpAsync c m localId remoteId) :
        Run (UInt32 × CmId)).Safe ↔ InMrs localId ∧ InMrs remoteId := by
    rw [safe_bind, safe_readMr]
    refine and_congr_right fun hlocal => ?_
    constructor
    · intro h
      have hread : (readMr e.ctx.localMr localId).result = .ok _ :=
        dif_pos ⟨hlocal.1, by omega⟩
      have hrest := h _ hread
      rw [safe_bind, safe_readMr] at hrest
      exact hrest.1
    · intro hremote _ _
      rw [safe_bind, safe_readMr]
      exact ⟨hremote, fun _ _ => safe_lift _⟩
  simp only [ibvCalcOpAsync, safe_posting, hcall]

end

/-! ### Receives -/

/-- `ibv_post_recv(id->qp, …)`. -/
def postRecv (e : CmId) (request : Except Stop RecvRequest) : Except Stop RecvRequest := do
  let wr ← request
  let _qp ← deref e.qp
  return wr

/-- The receives that read no region. -/
def receiving (call : RecvCall) : Run RecvRequest := do
  let (_, e) ← contextOf t sockfd
  lift (postRecv e (call.exec e.ctx))

def ibvReceiveImm : Run RecvRequest := receiving t sockfd .imm

def ibvReceiveAny (addr size lkey : UInt64) : Run RecvRequest :=
  receiving t sockfd (.any addr size lkey)

def ibvReceiveSg (m : RdmaMeta) (lkey : UInt64) : Run RecvRequest :=
  receiving t sockfd (.sg m lkey)

def ibvReceiveMsg (msgSize : ℕ) (buffer : ℤ) : Run RecvRequest :=
  receiving t sockfd (.msg msgSize buffer)

/-- `IBV_RECEIVE`, which reads its region before `mr_local_key` asks for it. -/
def ibvReceive (addr size : UInt64) (localId : ℤ) : Run RecvRequest := do
  let (_, e) ← contextOf t sockfd
  let _localMr ← readMr e.ctx.localMr localId
  let lkey ← mrLocalKey t sockfd localId
  lift (postRecv e (.ok
    { wrId := 99, sgList := [{ addr, length := size.toUInt32, lkey := lkey.toUInt32 }] }))

section

variable {t sockfd}

theorem safe_receiving {call : RecvCall} :
    (receiving t sockfd call).Safe ↔ Guard t sockfd fun _ => True :=
  safe_contextOf_lift fun _ => safe_lift _

theorem safe_ibvReceive (h : Broadcast.Inv t) {addr size : UInt64} {localId : ℤ} :
    (ibvReceive t sockfd addr size localId).Safe ↔ Guard t sockfd fun _ => InMrs localId := by
  rw [ibvReceive, safe_contextOf_bind]
  refine or_congr_right (exists₂_congr fun id e => and_congr_right fun hholds => ?_)
  rw [safe_bind, safe_readMr]
  refine and_iff_left_of_imp ?_
  intro hin _ _
  rw [safe_bind, mrLocalKey, safe_mrGet h]
  exact ⟨⟨hholds.inGuard, fun _ _ _ _ => ⟨hin.1, by omega⟩⟩, fun _ _ => safe_lift _⟩

end

/-! ### Lookups -/

/-- `IBV_FIND_WQE`, with `none` for `NULL`. -/
def ibvFindWqe (wrId : UInt32) : Run (Option ℕ) := do
  let (_, e) ← contextOf t sockfd
  return Rdma.ibvFindWqe e.ctx wrId

def ibvGetWqe (idx : UInt32) : Run ℕ := do
  let (_, e) ← contextOf t sockfd
  return Rdma.ibvGetWqe e.ctx idx

def ibvGetCq : Run (Option ℕ) := do
  let (_, e) ← contextOf t sockfd
  return e.ctx.cq

def ibvNextWrId : Run (UInt32 × Broadcast.Table) :=
  posting t sockfd fun e => do
    let (wrId, ctx) := nextWrId e.ctx 1
    return (wrId, { e with ctx })

/-! ### Cross-channel requests -/

/-- A call of two descriptors: `msockfd` posts, and `sockfd` is the queue it names. -/
def crossPost {α : Type} (msockfd sockfd : ℤ)
    (call : ConnContext → Conn → Except Stop (α × Conn)) : Run (α × Broadcast.Table) :=
  posting t msockfd fun m => do
    let (_, e) ← contextOf t sockfd
    lift (post m (call e.ctx))

section

variable {t sockfd}

theorem safe_crossPost {α : Type} {msockfd : ℤ}
    {call : ConnContext → Conn → Except Stop (α × Conn)} :
    (crossPost t msockfd sockfd call).Safe ↔
      Guard t msockfd fun _ => Guard t sockfd fun _ => True := by
  have hinner (m : CmId) : (contextOf t sockfd >>= fun r =>
      (lift (post m (call r.2.ctx)) : Run (α × CmId))).Safe ↔ Guard t sockfd fun _ => True :=
    safe_contextOf_lift fun _ => safe_lift _
  simp only [crossPost, safe_posting, hinner]

end

def ibvWait (msockfd sockfd : ℤ) : Run (UInt32 × Broadcast.Table) :=
  crossPost t msockfd sockfd fun ctx c => Rdma.ibvWait c ctx

def ibvWaitTill (msockfd sockfd : ℤ) (count : UInt32) : Run (UInt32 × Broadcast.Table) :=
  crossPost t msockfd sockfd fun ctx c => Rdma.ibvWaitTill c ctx count

def ibvWaitExplicit (msockfd sockfd : ℤ) (count : UInt32) : Run (UInt32 × Broadcast.Table) :=
  crossPost t msockfd sockfd fun ctx c => Rdma.ibvWaitExplicit c ctx count

def ibvTrigger (msockfd sockfd : ℤ) (count : UInt32) : Run (UInt32 × Broadcast.Table) :=
  crossPost t msockfd sockfd fun ctx c => Rdma.ibvTrigger c ctx count

def ibvSetTrigger (msockfd sockfd nops : ℤ) (nwait : UInt32) : Run (Unit × Broadcast.Table) :=
  crossPost t msockfd sockfd fun ctx c => (Prod.mk ()) <$> Rdma.ibvSetTrigger c ctx nops nwait

/-- `IBV_TRIGGER_EXPLICIT` without `MODDED_DRIVER`: it finds the WQE it has posted through the
descriptor again, and stores into it. -/
def ibvTriggerExplicit (msockfd sockfd : ℤ) (_count : UInt32) :
    Run (UInt32 × Broadcast.Table) := do
  let (wrId, t) ← crossPost t msockfd sockfd fun ctx c =>
    postNext c false "failed to post rdma wr"
      { opcode := .sendEnable, task := .wqeEnable ctx.qpNum 0 }
  let srCtrl ← ibvFindWqe t msockfd wrId
  let _ ← lift (deref srCtrl)
  return (wrId, t)

section

variable {t sockfd}

theorem safe_ibvTriggerExplicit {msockfd : ℤ} {count : UInt32} :
    (ibvTriggerExplicit t msockfd sockfd count).Safe ↔
      Guard t msockfd fun _ => Guard t sockfd fun _ => True := by
  rw [ibvTriggerExplicit, safe_bind, safe_crossPost]
  refine and_iff_left ?_
  intro r hr
  obtain ⟨id, e, h⟩ := posting_holds hr
  have hfind : (ibvFindWqe r.2 msockfd r.1).Safe := by
    rw [ibvFindWqe, safe_contextOf_lift fun _ => safe_pure _]
    exact .inr ⟨id, e, h, trivial⟩
  rw [safe_bind]
  refine ⟨hfind, ?_⟩
  intro _ _
  rw [safe_bind]
  exact ⟨safe_lift _, fun _ _ => safe_pure _⟩

end

/-! ### The calls -/

/-- `rc_acquire_buffer`. -/
def rcAcquireBuffer : Run (ℤ × Broadcast.Table) :=
  posting t sockfd fun e => do
    let (i, ctx) ← lift (Rdma.rcAcquireBuffer e.ctx true)
    return (i, { e with ctx })

/-- The calls that take a descriptor or a region id, with their other arguments.
`rc_connection_ip`, `rc_connection_qpnum`, `rc_connection_cqnum`, `register_wq` and the calls
that create experimental objects are left out. -/
inductive Entry
  | rcReady (sockfd : ℤ)
  | rcActive (sockfd : ℤ)
  | rcTerminated (sockfd : ℤ)
  | rcConnectionMeta (sockfd : ℤ)
  | rcAcquireBuffer (sockfd : ℤ)
  | mrLocalKey (sockfd mrId : ℤ)
  | mrLocalRkey (sockfd mrId : ℤ)
  | mrLocalAddr (sockfd mrId : ℤ)
  | mrRemoteKey (sockfd mrId : ℤ)
  | mrRemoteAddr (sockfd mrId : ℤ)
  | mrGetSqIdx (sockfd : ℤ)
  | nextWrId (sockfd : ℤ)
  | getCq (sockfd : ℤ)
  | findWqe (sockfd : ℤ) (wrId : UInt32)
  | getWqe (sockfd : ℤ) (idx : UInt32)
  | wrapperOp (mode : Mode) (sockfd : ℤ) (chain : List RdmaMeta) (localId remoteId : ℤ)
      (opcode : WrOpcode)
  | wrapperOpAll (mode : Mode) (chain : List RdmaMeta) (localId remoteId : ℤ)
      (opcode : WrOpcode)
  | send (mode : Mode) (sockfd : ℤ) (src size : UInt64) (imm : UInt32) (localId : ℤ)
  | post (mode : Mode) (sockfd : ℤ) (wrs : List WorkRequest)
  | cas (mode : Mode) (sockfd : ℤ) (src dst compare swap lkey rkey : UInt64) (fence : ℤ)
  | fetchAdd (mode : Mode) (sockfd : ℤ) (src dst size cmp lkey rkey : UInt64)
  | convertEndian (mode : Mode) (sockfd : ℤ) (src dst size lkey rkey : UInt64)
  | noop (mode : Mode) (sockfd signaled : ℤ)
  | calcOp (mode : Mode) (sockfd : ℤ) (m : RdmaMeta) (localId remoteId : ℤ)
  | sendMsg (mode : Mode) (sockfd : ℤ) (msgSize : ℕ) (buffer solicit : ℤ) (appId : UInt32)
  | receive (sockfd : ℤ) (addr size : UInt64) (localId : ℤ)
  | receiveImm (sockfd : ℤ)
  | receiveAny (sockfd : ℤ) (addr size lkey : UInt64)
  | receiveSg (sockfd : ℤ) (m : RdmaMeta) (lkey : UInt64)
  | receiveMsg (sockfd : ℤ) (msgSize : ℕ) (buffer : ℤ)
  | awaitResponse (sockfd : ℤ) (appId : UInt32)
  | awaitResponseNotify (sockfd : ℤ) (appId : UInt32)
  | awaitWorkCompletion (sockfd : ℤ) (wrId : UInt32)
  | awaitWorkCompletionNotify (sockfd : ℤ) (wrId : UInt32)
  | awaitPendingWorkCompletions (sockfd : ℤ)
  | wait (msockfd sockfd : ℤ)
  | waitTill (msockfd sockfd : ℤ) (count : UInt32)
  | waitExplicit (msockfd sockfd : ℤ) (count : UInt32)
  | trigger (msockfd sockfd : ℤ) (count : UInt32)
  | triggerExplicit (msockfd sockfd : ℤ) (count : UInt32)
  | setTrigger (msockfd sockfd nops : ℤ) (nwait : UInt32)

def Entry.run : Entry → Run Unit
  | rcReady s => discard (Guards.rcReady t s)
  | rcActive s => discard (Guards.rcActive t s)
  | rcTerminated s => discard (Guards.rcTerminated t s)
  | rcConnectionMeta s => discard (Guards.rcConnectionMeta t s)
  | rcAcquireBuffer s => discard (Guards.rcAcquireBuffer t s)
  | mrLocalKey s i => discard (Guards.mrLocalKey t s i)
  | mrLocalRkey s i => discard (Guards.mrLocalRkey t s i)
  | mrLocalAddr s i => discard (Guards.mrLocalAddr t s i)
  | mrRemoteKey s i => discard (Guards.mrRemoteKey t s i)
  | mrRemoteAddr s i => discard (Guards.mrRemoteAddr t s i)
  | mrGetSqIdx s => discard (Guards.mrGetSqIdx t s)
  | nextWrId s => discard (ibvNextWrId t s)
  | getCq s => discard (ibvGetCq t s)
  | findWqe s wrId => discard (ibvFindWqe t s wrId)
  | getWqe s idx => discard (ibvGetWqe t s idx)
  | wrapperOp mode s chain l r op => inMode mode s (ibvWrapperOpAsync t s chain l r op)
  | wrapperOpAll .async chain l r op => discard (ibvWrapperOpAsyncAll t chain l r op)
  | wrapperOpAll .sync chain l r op => discard (ibvWrapperOpSyncAll t chain l r op)
  | send mode s src size imm l => inMode mode s (ibvSendAsync t s src size imm l)
  | post mode s wrs => inMode mode s (ibvPostAsync t s wrs)
  | cas mode s src dst cmp swap lk rk f =>
    inMode mode s (ibvCasAsync t s src dst cmp swap lk rk f)
  | fetchAdd mode s src dst sz cmp lk rk =>
    inMode mode s (ibvFetchAddAsync t s src dst sz cmp lk rk)
  | convertEndian mode s src dst sz lk rk =>
    inMode mode s (ibvConvertEndianAsync t s src dst sz lk rk)
  | noop .async s signaled => discard (ibvNoopAsync t s signaled)
  | noop .sync s signaled => ibvNoopSync t s signaled
  | calcOp mode s m l r => inMode mode s (ibvCalcOpAsync t s m l r)
  | sendMsg .async s msgSize b _ _ => discard (ibvWrapperSendMsgAsync t s msgSize b)
  | sendMsg .sync s msgSize b solicit appId =>
    discard (ibvWrapperSendMsgSync t s msgSize b solicit appId)
  | receive s addr size l => discard (ibvReceive t s addr size l)
  | receiveImm s => discard (ibvReceiveImm t s)
  | receiveAny s addr size lk => discard (ibvReceiveAny t s addr size lk)
  | receiveSg s m lk => discard (ibvReceiveSg t s m lk)
  | receiveMsg s msgSize b => discard (ibvReceiveMsg t s msgSize b)
  -- up to where they begin to wait
  | awaitResponse s _ | awaitResponseNotify s _ | awaitWorkCompletion s _
  | awaitWorkCompletionNotify s _ | awaitPendingWorkCompletions s => discard (contextOf t s)
  | wait m s => discard (ibvWait t m s)
  | waitTill m s n => discard (ibvWaitTill t m s n)
  | waitExplicit m s n => discard (ibvWaitExplicit t m s n)
  | trigger m s n => discard (ibvTrigger t m s n)
  | triggerExplicit m s n => discard (ibvTriggerExplicit t m s n)
  | setTrigger m s nops nwait => discard (ibvSetTrigger t m s nops nwait)

/-- When the guards a call passes cover what it accesses. -/
def Entry.Guarded : Entry → Prop
  | rcReady s | rcActive s | rcTerminated s | rcConnectionMeta s | mrGetSqIdx s =>
    InGuard MAX_CONNECTIONS s
  | mrLocalKey s i | mrLocalRkey s i | mrLocalAddr s i | mrRemoteKey s i | mrRemoteAddr s i =>
    InGuard MAX_CONNECTIONS s ∧ ActiveGuard t s i
  | wrapperOp _ s _ l r op => Guard t s (RegionsGuard l r op)
  | wrapperOpAll _ _ l r op => FirstGuard t l r op
  -- no guard stands before these regions
  | send _ s _ _ _ l | receive s _ _ l => Guard t s fun _ => InMrs l
  | calcOp _ s _ l r => Guard t s fun _ => InMrs l ∧ InMrs r
  | noop mode s signaled => mode = .sync ∧ signaled = 0 ∨ Guard t s fun _ => True
  | wait m s | waitTill m s _ | waitExplicit m s _ | trigger m s _ | triggerExplicit m s _
  | setTrigger m s _ _ => Guard t m fun _ => Guard t s fun _ => True
  | rcAcquireBuffer s | nextWrId s | getCq s | findWqe s _ | getWqe s _ | post _ s _
  | cas _ s _ _ _ _ _ _ _ | fetchAdd _ s _ _ _ _ _ _ | convertEndian _ s _ _ _ _ _
  | sendMsg _ s _ _ _ _ | receiveImm s | receiveAny s _ _ _ | receiveSg s _ _
  | receiveMsg s _ _ | awaitResponse s _ | awaitResponseNotify s _ | awaitWorkCompletion s _
  | awaitWorkCompletionNotify s _ | awaitPendingWorkCompletions s => Guard t s fun _ => True

section

variable {t}

/-- **Every call, on a table in order.** -/
theorem Entry.safe_iff (h : Broadcast.Inv t) (call : Entry) :
    (call.run t).Safe ↔ call.Guarded t := by
  cases call with
  | rcReady s => exact safe_discard.trans (safe_ask h)
  | rcActive s => exact safe_discard.trans (safe_ask h)
  | rcTerminated s => exact safe_discard.trans (safe_ask h)
  | rcConnectionMeta s => exact safe_discard.trans (safe_ask h)
  | rcAcquireBuffer s =>
    exact safe_discard.trans
      (safe_posting_of_safe fun _ => (safe_lift _).bind fun _ => safe_pure _)
  | mrLocalKey s i => exact safe_discard.trans (safe_mrGet h)
  | mrLocalRkey s i => exact safe_discard.trans (safe_mrGet h)
  | mrLocalAddr s i => exact safe_discard.trans (safe_mrGet h)
  | mrRemoteKey s i => exact safe_discard.trans (safe_mrGet h)
  | mrRemoteAddr s i => exact safe_discard.trans (safe_mrGet h)
  | mrGetSqIdx s => exact safe_discard.trans (safe_mrGetSqIdx h)
  | nextWrId s => exact safe_discard.trans (safe_posting_of_safe fun _ => safe_pure _)
  | getCq s => exact safe_discard.trans (safe_contextOf_lift fun _ => safe_pure _)
  | findWqe s wrId => exact safe_discard.trans (safe_contextOf_lift fun _ => safe_pure _)
  | getWqe s idx => exact safe_discard.trans (safe_contextOf_lift fun _ => safe_pure _)
  | wrapperOp mode s chain l r op =>
    refine safe_inMode.trans (safe_posting.trans ?_)
    simp only [safe_sendRdmaOperation]
    rfl
  | wrapperOpAll mode chain l r op =>
    cases mode with
    | async => exact safe_discard.trans (safe_ibvWrapperOpAsyncAll h)
    | sync => exact safe_discard.trans (safe_ibvWrapperOpSyncAll h)
  | send mode s src size imm l => exact safe_inMode.trans safe_ibvSendAsync
  | post mode s wrs => exact safe_inMode.trans safe_simplePost
  | cas mode s src dst cmp swap lk rk f => exact safe_inMode.trans safe_simplePost
  | fetchAdd mode s src dst sz cmp lk rk => exact safe_inMode.trans safe_simplePost
  | convertEndian mode s src dst sz lk rk =>
    exact safe_inMode.trans
      (safe_posting_of_safe fun _ => (safe_lift _).bind fun _ => safe_lift _)
  | noop mode s signaled =>
    cases mode with
    | async =>
      refine (safe_discard.trans safe_simplePost).trans ?_
      simp [Entry.Guarded]
    | sync => simpa [Entry.run, Entry.Guarded] using safe_ibvNoopSync
  | calcOp mode s m l r => exact safe_inMode.trans safe_ibvCalcOpAsync
  | sendMsg mode s msgSize b solicit appId =>
    cases mode with
    | async =>
      exact safe_discard.trans
        (safe_posting_of_safe fun _ => (safe_lift _).bind fun _ => safe_lift _)
    | sync =>
      exact safe_discard.trans (safe_posting_of_safe fun _ =>
        (safe_lift _).bind fun _ => (safe_lift _).bind fun _ => safe_lift _)
  | receive s addr size l => exact safe_discard.trans (safe_ibvReceive h)
  | receiveImm s => exact safe_discard.trans safe_receiving
  | receiveAny s addr size lk => exact safe_discard.trans safe_receiving
  | receiveSg s m lk => exact safe_discard.trans safe_receiving
  | receiveMsg s msgSize b => exact safe_discard.trans safe_receiving
  | awaitResponse s appId => exact safe_discard.trans safe_contextOf_iff
  | awaitResponseNotify s appId => exact safe_discard.trans safe_contextOf_iff
  | awaitWorkCompletion s wrId => exact safe_discard.trans safe_contextOf_iff
  | awaitWorkCompletionNotify s wrId => exact safe_discard.trans safe_contextOf_iff
  | awaitPendingWorkCompletions s => exact safe_discard.trans safe_contextOf_iff
  | wait m s => exact safe_discard.trans safe_crossPost
  | waitTill m s n => exact safe_discard.trans safe_crossPost
  | waitExplicit m s n => exact safe_discard.trans safe_crossPost
  | trigger m s n => exact safe_discard.trans safe_crossPost
  | triggerExplicit m s n => exact safe_discard.trans safe_ibvTriggerExplicit
  | setTrigger m s nops nwait => exact safe_discard.trans safe_crossPost

end

/-! ### Runs -/

/-- What the guards are for: the call stops in `rc_die`, or what it accesses it may access.  A
call that reports a failure has come back, and has to have done the latter. -/
def Upheld {α : Type} (x : Run α) : Prop := (∃ reason, x.result = .error (.rcDie reason)) ∨ x.Safe

/-- Nothing that is not allowed comes before an `rc_die`. -/
theorem upheld_iff_safe {α : Type} {x : Run α} : Upheld x ↔ x.Safe := by
  refine ⟨?_, .inr⟩
  rintro (⟨reason, hdie⟩ | hsafe)
  · exact safe_of_result_ne (by simp [hdie])
  · exact hsafe

variable {L : Multimap.Lookup UInt32 IdRecord} {t}

/-- **The guards, exactly**: on every table that can be reached a call stops in `rc_die` or
accesses only what it may if and only if it is guarded. -/
theorem guarded_iff {as : List Act} (hr : Machine.run (Broadcast.step L) {} as = some t)
    (call : Entry) : Upheld (call.run t) ↔ call.Guarded t :=
  upheld_iff_safe.trans (call.safe_iff (Broadcast.run_inv hr))

/-- One connection, which is ready, in slot 0. -/
theorem exists_oneReady : ∃ as t e,
    Machine.run (Broadcast.step Multimap.Lookup.first) {} as = some t ∧
      Holds t 0 1 e ∧ e.ctx.state = .ready ∧
      t.bitmap = Function.update (fun _ => false) Broadcast.slot0 true := by
  refine ⟨.init 1 0 1 0 :: Broadcast.makeReady 1 Broadcast.slot0, ?_⟩
  rw [Machine.run_cons, Broadcast.init_onePending]
  exact ⟨_, _, rfl, ⟨Broadcast.slot0, rfl, rfl, rfl, rfl⟩, rfl, rfl⟩

/-- A batch on that connection, waited for. -/
theorem guarded_oneReady : ∃ as t,
    Machine.run (Broadcast.step Multimap.Lookup.first) {} as = some t ∧
      Upheld ((Entry.wrapperOp .sync 0 [meta8] 0 0 .send).run t) := by
  obtain ⟨as, t, e, hr, hholds, -⟩ := exists_oneReady
  refine ⟨as, t, hr, (guarded_iff hr _).mpr (.inr ⟨1, e, hholds, .inr (.inr ⟨?_, ?_⟩)⟩)⟩
  · exact ⟨le_rfl, by decide⟩
  · exact fun hone => absurd hone (by simp [opOneSided])

/-- `MAX_CONNECTIONS` and `MAX_MR` themselves pass the guards, a negative descriptor does, a
free slot is followed, and no guard at all stands before the region of a `SEND`. -/
theorem boundary_passes : ∃ as t,
    Machine.run (Broadcast.step Multimap.Lookup.first) {} as = some t ∧
      ¬ Upheld ((Entry.rcReady 1000).run t) ∧
      ¬ Upheld ((Entry.rcReady (-1)).run t) ∧
      ¬ Upheld ((Entry.getWqe 1 0).run t) ∧
      ¬ Upheld ((Entry.mrLocalAddr 0 2).run t) ∧
      ¬ Upheld ((Entry.send .async 0 0 8 0 3).run t) := by
  obtain ⟨as, t, e, hr, hholds, hstate, hbitmap⟩ := exists_oneReady
  have hexact (call : Entry) : Upheld (call.run t) ↔ call.Guarded t :=
    upheld_iff_safe.trans (call.safe_iff (Broadcast.run_inv hr))
  refine ⟨as, t, hr, ?_, ?_, ?_, ?_, ?_⟩ <;> rw [hexact]
  · exact fun h => h.2 rfl
  · exact fun h => absurd h.1 (by decide)
  · rintro (hgt | ⟨id, e', ⟨i, hi, hbit, -⟩, -⟩)
    · exact absurd hgt (by decide)
    · have hne : i ≠ Broadcast.slot0 := by
        rintro rfl
        exact absurd hi (by decide)
      rw [hbitmap, Function.update_of_ne hne] at hbit
      exact absurd hbit (by simp)
  · rintro ⟨-, hguard⟩
    exact (hguard 1 e hholds (by simp [Rdma.rcActive, hstate])).2 rfl
  · rintro (hgt | ⟨-, -, -, hin⟩)
    · exact absurd hgt (by omega)
    · exact absurd hin.2 (by decide)

end Guards

end Rdma
