/-
Polling a completion queue (`connection.c`, `agent.c`, `verbs.c`).

`poll_cq` takes one CQE after the other.  It looks up the connection of a CQE in the
table of queue pair numbers, records a successful send, and passes a successful
receive to the application; of a failed one it only looks the connection up.

* `pollCq` — the body of the loop, for a CQE whose connection has been found;
* `pollCq_eq_ok`, `pollCq_frame` — what it can do, and what it leaves alone.
-/
import RednRdma.Completion

namespace Rdma

/-- `enum ibv_wc_status`, as far as the library tells the values apart. -/
inductive WcStatus
  | success
  | error
  deriving Repr, DecidableEq

/-- `struct ibv_wc`.  `recv` is the bit `IBV_WC_RECV` of the opcode, `withImm` the
flag `IBV_WC_WITH_IMM`, without which `immData` may be anything. -/
structure IbvWc where
  wrId : UInt64
  status : WcStatus := .success
  recv : Bool
  withImm : Bool := false
  immData : UInt32 := 0
  qpNum : UInt32 := 0
  deriving Repr, DecidableEq

/-- What `update_completions` reads of a CQE. -/
def IbvWc.report (wc : IbvWc) : Wc := { wrId := wc.wrId, recv := wc.recv, serial := 0 }

/-- `ntohl` on a little-endian host. -/
def ntohl (x : UInt32) : UInt32 := htonl x

/-- `struct app_context`. -/
structure AppContext where
  sockfd : ℤ
  id : UInt32
  data : ℕ := 0
  deriving Repr, DecidableEq

/-- `update_pending`. -/
def updatePending (ctx : ConnContext) (appId : UInt32) : ConnContext :=
  { ctx with lastRcvCompl := appId }

/-- `on_completion`, with the message it passes to `app_recv_event`.  The tests of
the opcode and of `app_id` are commented out. -/
def onCompletion (wc : IbvWc) (ctx : ConnContext) :
    Except Stop (ConnContext × Option AppContext) :=
  if wc.recv then
    if ctx.state = .ready then
      let appId := ntohl wc.immData
      .ok (updatePending ctx appId, some { id := appId, sockfd := ctx.sockfd })
    else .error (.rcDie "invalid message\n")
  else .ok (ctx, none)

/-- The body of the loop of `poll_cq`, once the connection has been found. -/
def pollCq (wc : IbvWc) (ctx : ConnContext) : Except Stop (ConnContext × Option AppContext) :=
  match wc.status with
  | .success => onCompletion wc (updateCompletions wc.report ctx)
  | .error => .ok (ctx, none)

/-- A CQE is a failed one, a send, or a receive on a connection that is ready. -/
theorem pollCq_eq_ok {wc : IbvWc} {ctx ctx' : ConnContext} {msg : Option AppContext}
    (h : pollCq wc ctx = .ok (ctx', msg)) :
    wc.status = .error ∧ ctx' = ctx ∧ msg = none ∨
    wc.status = .success ∧ wc.recv = false ∧
      ctx' = { ctx with lastSendCompl := wc.wrId.toUInt32 } ∧ msg = none ∨
    wc.status = .success ∧ wc.recv = true ∧ ctx.state = .ready ∧
      ctx' = { ctx with lastRcvCompl := ntohl wc.immData } ∧
      msg = some { id := ntohl wc.immData, sockfd := ctx.sockfd } := by
  rw [pollCq] at h
  split at h
  · rename_i hstatus
    rw [onCompletion] at h
    split at h
    · rename_i hrecv
      have hctx : updateCompletions wc.report ctx = ctx := if_pos hrecv
      rw [hctx] at h
      split at h
      · rename_i hready
        obtain ⟨rfl, rfl⟩ := Prod.mk.inj (Except.ok.inj h)
        exact Or.inr (Or.inr ⟨hstatus, hrecv, hready, rfl, rfl⟩)
      · exact absurd h (by simp)
    · rename_i hsend
      obtain ⟨rfl, rfl⟩ := Prod.mk.inj (Except.ok.inj h)
      exact Or.inr (Or.inl ⟨hstatus, Bool.eq_false_iff.mpr hsend, if_neg hsend, rfl⟩)
  · rename_i hstatus
    obtain ⟨rfl, rfl⟩ := Prod.mk.inj (Except.ok.inj h)
    exact Or.inl ⟨hstatus, rfl, rfl⟩

/-- A CQE moves the two completion counters only. -/
theorem pollCq_frame {wc : IbvWc} {ctx ctx' : ConnContext} {msg : Option AppContext}
    (h : pollCq wc ctx = .ok (ctx', msg)) :
    ctx' = { ctx with
      lastSendCompl := ctx'.lastSendCompl
      lastRcvCompl := ctx'.lastRcvCompl } := by
  rcases pollCq_eq_ok h with ⟨-, rfl, -⟩ | ⟨-, -, rfl, -⟩ | ⟨-, -, -, rfl, -⟩
  · rfl
  · rfl
  · rfl

end Rdma
