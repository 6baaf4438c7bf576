/-
A connection and its NIC.

The state is the connection, the receives it has posted, how far the NIC has come
with the send queue, and the CQEs that wait to be polled.  The NIC executes the
requests of the send queue in order.  A request that fails puts a CQE whether it is
signaled or not and moves the queue pair to the error state, in which everything
after it is flushed with an error too.

* `RecvCall.exec` — the receive posts, which write no field of the context;
* `step` — the posting calls, the NIC and the poller, in any order;
* `step_execute_cases`, `step_poll_eq_some` — what the NIC and the poller do.
-/
import RednRdma.PostEffect
import RednRdma.Polling

namespace Rdma

/-! ### Receive posts -/

/-- `struct ibv_recv_wr`. -/
structure RecvRequest where
  wrId : UInt64
  sgList : List Sge := []
  deriving Repr, DecidableEq

/-- `rc_active`, on a connection that is in its slot. -/
def rcActive (ctx : ConnContext) : Bool := ctx.state = .active ∨ ctx.state = .ready

/-- `mr_local_key`.  The waits for the connection and the region are taken at their
end. -/
def mrLocalKey (ctx : ConnContext) (mrId : ℤ) : Except Stop UInt32 := do
  dieIf (!rcActive ctx) "failed to get local memory address; connection is not active\n"
  let ready ← mrLocalReady ctx mrId
  dieIf (!ready) "failed to get local memory address; no metadata available for region\n"
  let localMr ← deref (← readAt ctx.localMr mrId)
  return localMr.lkey

/-- A call that puts a request on the receive queue of a connection. -/
inductive RecvCall
  /-- `IBV_RECEIVE_IMM`, which is `receive_imm(id, 0)`. -/
  | imm
  /-- `IBV_RECEIVE`. -/
  | one (addr size : UInt64) (localId : ℤ)
  /-- `IBV_RECEIVE_ANY`. -/
  | any (addr size lkey : UInt64)
  /-- `IBV_RECEIVE_SG`. -/
  | sg (m : RdmaMeta) (lkey : UInt64)
  /-- `IBV_RECEIVE_MSG`, which is `receive_message(id, buffer)`. -/
  | msg (msgSize : ℕ) (buffer : ℤ)

/-- The request the call posts.  No call takes an id or counts what it posts: in
each of them `ctx->n_posted_ops++` is commented out. -/
def RecvCall.exec (ctx : ConnContext) : RecvCall → Except Stop RecvRequest
  | imm => return { wrId := 0 }
  | one addr size localId => do
    let _localMr ← readAt ctx.localMr localId
    let lkey ← mrLocalKey ctx localId
    return { wrId := 99, sgList := [{ addr, length := size.toUInt32, lkey }] }
  | any addr size lkey =>
    return { wrId := 99, sgList := [{ addr, length := size.toUInt32, lkey := lkey.toUInt32 }] }
  | sg m lkey => do
    dieIf (m.sgeEntries.length = 0 ∨ m.sgeEntries.length > 16)
      "invalid number of sge entries for receive"
    return {
      wrId := 99
      sgList := m.sgeEntries.map fun sge => { sge with lkey := lkey.toUInt32 } }
  | msg msgSize buffer => do
    let addr ← readAt ctx.msgRcv buffer
    let mr ← deref (← readAt ctx.msgRcvMr buffer)
    return {
      wrId := UInt64.ofNat buffer.toNat
      sgList := [{ addr, length := UInt32.ofNat (48 + msgSize), lkey := mr.lkey }] }

/-! ### Send buffers -/

/-- `_rc_acquire_buffer`. -/
def rcAcquireBuffer (ctx : ConnContext) (user : Bool) : Except Stop (ℤ × ConnContext) := do
  let i : ℤ := ctx.sendIdx.toNat % MAX_BUFFER
  let ctx := { ctx with sendIdx := ctx.sendIdx + 1 }
  if user then
    -- the header of the message is written
    let msg ← readAt ctx.msgSend i
    if msg = 0 then throw .fault
  return (i, ctx)

theorem rcAcquireBuffer_eq_ok {ctx ctx' : ConnContext} {user : Bool} {i : ℤ}
    (h : rcAcquireBuffer ctx user = .ok (i, ctx')) :
    i = 0 ∧ ctx' = { ctx with sendIdx := ctx.sendIdx + 1 } := by
  have hzero : ((ctx.sendIdx.toNat % MAX_BUFFER : ℕ) : ℤ) = 0 := by simp [Nat.mod_one]
  rw [rcAcquireBuffer] at h
  split at h
  · obtain ⟨msg, -, h⟩ := Except.bind_eq_ok.mp h
    split at h
    · exact absurd h (by simp [bind, Except.bind, throw, throwThe, MonadExceptOf.throw])
    · obtain ⟨rfl, rfl⟩ := Prod.mk.inj (Except.ok.inj h)
      exact ⟨hzero, rfl⟩
  · obtain ⟨rfl, rfl⟩ := Prod.mk.inj (Except.ok.inj h)
    exact ⟨hzero, rfl⟩

namespace Execution

structure State where
  conn : Conn
  /-- The receives posted and not completed, oldest first. -/
  recvq : List RecvRequest := []
  /-- The requests at the front of the send queue that have been executed. -/
  executed : ℕ := 0
  /-- Those of them that succeeded; fewer than executed once the queue pair is in the
  error state. -/
  succeeded : ℕ := 0
  /-- The CQEs not polled yet, oldest first. -/
  cq : List IbvWc := []

/-- The requests that have been posted on the send queue. -/
def State.log (s : State) : List (Ring.Placed WorkRequest) := s.conn.qp.log

/-- Every request posted has been executed, and every receive has completed. -/
def State.Completed (s : State) : Prop := s.executed = s.log.length ∧ s.recvq = []

/-- The poller has emptied the completion queue after the NIC was done with the send
queue. -/
def State.Drained (s : State) : Prop := s.executed = s.log.length ∧ s.cq = []

instance (s : State) : Decidable s.Completed := inferInstanceAs (Decidable (_ ∧ _))

instance (s : State) : Decidable s.Drained := inferInstanceAs (Decidable (_ ∧ _))

/-- What can happen next. -/
inductive Act
  | call (call : PostCall)
  /-- `IBV_NEXT_WR_ID`. -/
  | nextWrId
  /-- `rc_acquire_buffer`, or `_rc_acquire_buffer` for the library itself. -/
  | acquire (user : Bool)
  | recv (call : RecvCall)
  /-- The NIC executes the next request of the send queue. -/
  | execute (status : WcStatus)
  /-- The oldest receive completes. -/
  | receive (status : WcStatus) (withImm : Bool) (immData : UInt32)
  /-- `poll_cq` handles one CQE. -/
  | poll

/-- The CQE of a request of the send queue. -/
def sendCqe (s : State) (wr : WorkRequest) (status : WcStatus) : IbvWc :=
  { wrId := wr.wrId, status, recv := false, qpNum := s.conn.ctx.qpNum }

/-- The NIC executes the next request: a signaled one puts a CQE, and any one that
fails. -/
def execute (s : State) (status : WcStatus) : Option State :=
  match s.log[s.executed]?, status with
  | none, _ => none
  | some r, .success =>
    if s.succeeded = s.executed then
      some { s with
        executed := s.executed + 1
        succeeded := s.succeeded + 1
        cq := if r.data.flags.signaled then s.cq ++ [sendCqe s r.data .success] else s.cq }
    else none
  | some r, .error =>
    some { s with executed := s.executed + 1, cq := s.cq ++ [sendCqe s r.data .error] }

/-- The oldest receive completes. -/
def receive (s : State) (status : WcStatus) (withImm : Bool) (immData : UInt32) :
    Option State :=
  match s.recvq with
  | [] => none
  | r :: recvq =>
    if status = .success ∧ s.succeeded ≠ s.executed then none
    else some { s with
      recvq
      cq := s.cq ++ [{ wrId := r.wrId, status, recv := true, withImm, immData,
                       qpNum := s.conn.ctx.qpNum }] }

/-- One turn of `poll_cq`. -/
def poll (s : State) : Option State :=
  match s.cq with
  | [] => none
  | wc :: cq =>
    (pollCq wc s.conn.ctx).toOption.map fun r => { s with cq, conn := { s.conn with ctx := r.1 } }

def step (s : State) : Act → Option State
  | .call call => (call.exec s.conn).toOption.map fun r => { s with conn := r.2 }
  | .nextWrId => some { s with conn := { s.conn with ctx := (nextWrId s.conn.ctx 1).2 } }
  | .acquire user =>
    (rcAcquireBuffer s.conn.ctx user).toOption.map fun r =>
      { s with conn := { s.conn with ctx := r.2 } }
  | .recv call =>
    (call.exec s.conn.ctx).toOption.map fun r => { s with recvq := s.recvq ++ [r] }
  | .execute status => execute s status
  | .receive status withImm immData => receive s status withImm immData
  | .poll => poll s

/-- A connection nothing has been posted on and nothing acquired from. -/
structure Initial (s : State) : Prop where
  log : s.log = []
  lastSend : s.conn.ctx.lastSend = 0
  lastSendCompl : s.conn.ctx.lastSendCompl = 0
  nPostedOps : s.conn.ctx.nPostedOps = 0
  bufferBindings : s.conn.ctx.bufferBindings = []
  recvq : s.recvq = []
  executed : s.executed = 0
  succeeded : s.succeeded = 0
  cq : s.cq = []

/-- The step put a CQE. -/
def puts (s s' : State) : Bool := s.cq.length < s'.cq.length

/-- Requests that are labelled call by call: the label of one is an old one, or that of
the call which posted it. -/
theorem label_cases {β : Type} {labels : List β} {log new : List (Ring.Placed WorkRequest)}
    (hlen : labels.length = log.length) {label b : β} {j : ℕ} {r : Ring.Placed WorkRequest}
    (hj : (labels ++ List.replicate new.length label)[j]? = some b)
    (hr : (log ++ new)[j]? = some r) :
    labels[j]? = some b ∧ log[j]? = some r ∨ label = b ∧ r ∈ new := by
  rcases Nat.lt_or_ge j labels.length with hlt | hge
  · rw [List.getElem?_append_left hlt] at hj
    rw [List.getElem?_append_left (hlen ▸ hlt)] at hr
    exact Or.inl ⟨hj, hr⟩
  · rw [List.getElem?_append_right hge] at hj
    rw [List.getElem?_append_right (hlen ▸ hge)] at hr
    exact Or.inr ⟨(List.mem_replicate.mp (List.mem_of_getElem? hj)).2.symm,
      List.mem_of_getElem? hr⟩

/-! ### Steps -/

theorem step_call_eq_some {s s' : State} {call : PostCall} (hs : step s (.call call) = some s') :
    ∃ ret conn wrs, call.exec s.conn = .ok (ret, conn) ∧ Effect call s.conn conn wrs ∧
      s' = { s with conn } := by
  obtain ⟨⟨ret, conn⟩, hx, rfl⟩ := Option.map_eq_some_iff.mp hs
  have hx := Except.toOption_eq_some.mp hx
  obtain ⟨wrs, he⟩ := exec_effect hx
  exact ⟨ret, conn, wrs, hx, he, rfl⟩

theorem step_acquire_eq_some {s s' : State} {user : Bool}
    (hs : step s (.acquire user) = some s') :
    rcAcquireBuffer s.conn.ctx user = .ok (0, s'.conn.ctx) ∧
      s' = { s with conn :=
        { s.conn with ctx := { s.conn.ctx with sendIdx := s.conn.ctx.sendIdx + 1 } } } := by
  obtain ⟨⟨i, ctx⟩, hx, rfl⟩ := Option.map_eq_some_iff.mp hs
  have hx := Except.toOption_eq_some.mp hx
  obtain ⟨rfl, rfl⟩ := rcAcquireBuffer_eq_ok hx
  exact ⟨hx, rfl⟩

theorem step_recv_eq_some {s s' : State} {call : RecvCall} (hs : step s (.recv call) = some s') :
    ∃ r, s' = { s with recvq := s.recvq ++ [r] } := by
  obtain ⟨r, -, rfl⟩ := Option.map_eq_some_iff.mp hs
  exact ⟨r, rfl⟩

/-- The NIC goes on in the send queue. -/
theorem step_execute_cases {s s' : State} {status : WcStatus}
    (hs : step s (.execute status) = some s') :
    ∃ r, s.log[s.executed]? = some r ∧
      (status = .success ∧ s.succeeded = s.executed ∧ s' = { s with
          executed := s.executed + 1
          succeeded := s.succeeded + 1
          cq := if r.data.flags.signaled then s.cq ++ [sendCqe s r.data .success] else s.cq } ∨
        status = .error ∧ s' = { s with
          executed := s.executed + 1
          cq := s.cq ++ [sendCqe s r.data .error] }) := by
  change execute s status = some s' at hs
  unfold execute at hs
  split at hs
  · exact absurd hs (by simp)
  · rename_i r hr
    split at hs
    · rename_i heq
      obtain rfl := Option.some_inj.mp hs
      exact ⟨r, hr, Or.inl ⟨rfl, heq, rfl⟩⟩
    · exact absurd hs (by simp)
  · rename_i r hr
    obtain rfl := Option.some_inj.mp hs
    exact ⟨r, hr, Or.inr ⟨rfl, rfl⟩⟩

theorem step_receive_eq_some {s s' : State} {status : WcStatus} {withImm : Bool}
    {immData : UInt32} (hs : step s (.receive status withImm immData) = some s') :
    ∃ r recvq wc, s.recvq = r :: recvq ∧ wc.recv = true ∧
      s' = { s with recvq, cq := s.cq ++ [wc] } := by
  change receive s status withImm immData = some s' at hs
  rw [receive] at hs
  split at hs
  · exact absurd hs (by simp)
  · rename_i r recvq hq
    split at hs
    · exact absurd hs (by simp)
    · obtain rfl := Option.some_inj.mp hs
      exact ⟨r, recvq, _, hq, rfl, rfl⟩

theorem step_poll_eq_some {s s' : State} (hs : step s .poll = some s') :
    ∃ wc cq ctx msg, s.cq = wc :: cq ∧ pollCq wc s.conn.ctx = .ok (ctx, msg) ∧
      s' = { s with cq, conn := { s.conn with ctx } } := by
  change poll s = some s' at hs
  rw [poll] at hs
  split at hs
  · exact absurd hs (by simp)
  · rename_i wc cq hcq
    obtain ⟨⟨ctx, msg⟩, hx, rfl⟩ := Option.map_eq_some_iff.mp hs
    exact ⟨wc, cq, ctx, msg, hcq, Except.toOption_eq_some.mp hx, rfl⟩

end Execution

end Rdma
