/-
A connection, its driver and its NIC.

This is the machine of `Execution` one level down: the queues are those of the driver, with
their counters, doorbells and tables of ids, and what the NIC has to say goes through the
ring of CQEs.  The caller's `struct ibv_wc` may hold anything when a poll begins.  The table
of connections has this connection under its number.

The NIC executes the WQEs it has been told of, in order, and writes a CQE when the ring has
room for it.  The library does not look at what `ibv_post_recv` returns, so that a receive
the driver does not take is lost without a word.  It does not look at `wc_flags` either, so
that a receive without an immediate is handled with the one in the buffer.

* `step` — the posting calls, the NIC and the poller, in any order;
* `Inv`, `Inv.step` — what the driver's queues and the ring of CQEs have to do with each
  other, whatever is polled into;
* `acts` — what a step is in `Execution`: `heldImms` says with which immediates;
* `Refines.step` — every step of the driver is one of `Execution`, or a receive lost.
-/
import RednRdma.PollOne

namespace Rdma

namespace Device

structure State where
  ctx : ConnContext
  qp : QueuePair
  ring : CqRing.State
  /-- The requests at the front of the send queue that have been executed. -/
  executed : ℕ := 0
  /-- Those of them that succeeded. -/
  succeeded : ℕ := 0
  /-- The receives at the front of the receive queue that have completed. -/
  received : ℕ := 0
  /-- Those of them that have been polled. -/
  taken : ℕ := 0

/-- What can happen next. -/
inductive Act
  | call (call : PostCall) (refused : ℕ → Bool)
  /-- `IBV_NEXT_WR_ID`. -/
  | nextWrId
  /-- `rc_acquire_buffer`, or `_rc_acquire_buffer` for the library itself. -/
  | acquire (user : Bool)
  | recv (call : RecvCall)
  /-- The NIC executes the next request it has been told of.  The CQE is written if there is
  to be one. -/
  | execute (status : WcStatus) (cqe64 : Cqe64)
  /-- The oldest receive completes. -/
  | receive (status : WcStatus) (cqe64 : Cqe64)
  /-- `poll_cq` handles one CQE. -/
  | poll (wc : WcBuf)

/-- The connection as the posting calls see it. -/
def State.conn (d : State) : Conn := ⟨d.ctx, d.qp.sq.qp⟩

/-- The requests that a call which leaves `conn` has handed to the driver. -/
def handed (d : State) (conn : Conn) : List WorkRequest :=
  (conn.qp.log.drop d.qp.sq.posted).map Ring.Placed.data

/-- A posting call.  If the driver refuses one of the requests, the library dies. -/
def call (d : State) (call : PostCall) (refused : ℕ → Bool) : Option State :=
  (call.exec d.conn).toOption.bind fun r =>
    match d.qp.sq.postSend refused (handed d r.2) with
    | (sq, []) => some { d with ctx := r.2.ctx, qp := { d.qp with sq } }
    | _ => none

/-- The CQE is for the queue pair, and has no data in it. -/
def ForQp (d : State) (c : Cqe64) : Prop :=
  c.sopDropQpn &&& 0xffffff = d.qp.qpNum ∧
    c.srqnUidx &&& 0xffffff = (if d.ring.cq.cqeVersion then d.qp.rsn else 0) ∧ c.format = 0

instance (d : State) (c : Cqe64) : Decidable (ForQp d c) := inferInstanceAs (Decidable (_ ∧ _))

/-- The CQE is for the request that is executed. -/
def ForNext (d : State) (wr : WorkRequest) (status : WcStatus) (c : Cqe64) : Prop :=
  ForQp d c ∧ c.wqeCounter = d.qp.sq.counter d.executed ∧
    c.sopDropQpn >>> 24 = UInt32.ofNat (mlx5IbOpcode wr.opcode) ∧
    c.opcode = if status = .success then MLX5_CQE_REQ else MLX5_CQE_REQ_ERR

instance (d : State) (wr : WorkRequest) (status : WcStatus) (c : Cqe64) :
    Decidable (ForNext d wr status c) :=
  inferInstanceAs (Decidable (_ ∧ _))

/-- A receive that ends in this way ends with this CQE. -/
def ForReceive (d : State) (status : WcStatus) (c : Cqe64) : Prop :=
  ForQp d c ∧
    if status = .success then c.opcode ∈ recvOpcodes else c.opcode = MLX5_CQE_RESP_ERR

instance (d : State) (status : WcStatus) (c : Cqe64) : Decidable (ForReceive d status c) :=
  inferInstanceAs (Decidable (_ ∧ _))

/-- The NIC executes the next request, up to the doorbell. -/
def execute (d : State) (status : WcStatus) (c : Cqe64) : Option State :=
  if (d.qp.sq.counter d.executed).toUInt32 = d.qp.sq.sndDbr then none
  else
    d.qp.sq.qp.log[d.executed]?.bind fun r =>
      if status = .success ∧ d.succeeded ≠ d.executed then none
      else
        let d' := { d with
          executed := d.executed + 1
          succeeded := if status = .success then d.succeeded + 1 else d.succeeded }
        if status = .success ∧ r.data.flags.signaled = false then some d'
        else if ForNext d r.data status c then
          (CqRing.put d.ring c).map fun ring => { d' with ring }
        else none

/-- The oldest receive completes, if the doorbell says that there is one. -/
def receive (d : State) (status : WcStatus) (c : Cqe64) : Option State :=
  if UInt32.ofNat d.received &&& 0xffff = d.qp.rq.rcvDbr then none
  else if status = .success ∧ d.succeeded ≠ d.executed then none
  else if ForReceive d status c then
    (CqRing.put d.ring c).map fun ring => { d with ring, received := d.received + 1 }
  else none

/-- One turn of the loop of `poll_cq`, which goes on for an error of the driver too.  The
lookup of a connection with another number fails. -/
def poll (d : State) (wc : WcBuf) : Option State :=
  match ibvPollCq d.ring.cq (some d.qp) wc with
  | (.empty, _) => none
  | (_, cq, wc, rsc) =>
    if wc.qpNum = d.ctx.qpNum then
      (pollCq wc.read d.ctx).toOption.bind fun r =>
        rsc.map fun qp => { d with
          ctx := r.1
          qp
          ring := { d.ring with cq }
          taken := if qp.rq.tail = d.qp.rq.tail then d.taken else d.taken + 1 }
    else none

def step (d : State) : Act → Option State
  | .call call refused => Device.call d call refused
  | .nextWrId => some { d with ctx := (nextWrId d.ctx 1).2 }
  | .acquire user => (rcAcquireBuffer d.ctx user).toOption.map fun r => { d with ctx := r.2 }
  | .recv call =>
    (call.exec d.ctx).toOption.map fun r =>
      { d with qp := { d.qp with rq := (d.qp.rq.postRecv [r]).1 } }
  | .execute status cqe64 => execute d status cqe64
  | .receive status cqe64 => receive d status cqe64
  | .poll wc => poll d wc

/-- The driver takes the receive. -/
def kept (d : State) (call : RecvCall) : Bool :=
  match call.exec d.ctx with
  | .ok r => (d.qp.rq.postRecv [r]).2.isEmpty
  | .error _ => false

/-- The CQE has `IBV_WC_WITH_IMM` set. -/
def hasImm (c : Cqe64) : Bool :=
  c.opcode = MLX5_CQE_RESP_WR_IMM ∨ c.opcode = MLX5_CQE_RESP_SEND_IMM

/-- What a step is in `Execution`.  A receive without an immediate has the one that is in the
buffer when it is polled. -/
def acts (held : ℕ → UInt32) (d : State) : Act → List Execution.Act
  | .call call _ => [.call call]
  | .nextWrId => [.nextWrId]
  | .acquire user => [.acquire user]
  | .recv call => if kept d call then [.recv call] else []
  | .execute status _ => [.execute status]
  | .receive status c => [.receive status (hasImm c) ((recvImm c).getD (held d.received))]
  | .poll _ => [.poll]

/-- What the buffer of a poll that takes a receive holds is noted for it. -/
def noted (d d' : State) (held : ℕ → UInt32) : Act → ℕ → UInt32
  | .poll wc =>
    if d'.taken = d.taken then held else Function.update held d.taken wc.immData
  | _ => held

/-- The immediates that are in the buffer when the receives are polled, one after the
other. -/
def heldImms : State → List Act → ℕ → UInt32
  | _, [] => fun _ => 0
  | d, a :: as =>
    match step d a with
    | some d' => noted d d' (heldImms d' as) a
    | none => fun _ => 0

/-- The requests posted fit their room. -/
def Fitting (d : State) : Act → Prop
  | .call call _ =>
    ∀ r ∈ (call.exec d.conn).toOption, ∀ wr ∈ handed d r.2, d.qp.sq.Fits wr
  | _ => True

/-- Where the driver has no opcode for a completion, the buffer holds none of a receive. -/
def Clear (d : State) : Act → Prop
  | .poll wc => ∀ c ∈ d.ring.cq.getNextCqe, SendTold c wc
  | _ => True

/-- The receive that is polled finds in the buffer what `held` says. -/
def Foretold (held : ℕ → UInt32) (d : State) : Act → Prop
  | .poll wc => ∀ d' ∈ step d (.poll wc), d'.taken ≠ d.taken → held d.taken = wc.immData
  | _ => True

instance (d : State) : ∀ a, Decidable (Fitting d a)
  | .call call _ => inferInstanceAs (Decidable (∀ r ∈ (call.exec d.conn).toOption, _))
  | .nextWrId | .acquire _ | .recv _ | .execute _ _ | .receive _ _ | .poll _ => isTrue trivial

instance (d : State) : ∀ a, Decidable (Clear d a)
  | .poll wc => inferInstanceAs (Decidable (∀ c ∈ d.ring.cq.getNextCqe, SendTold c wc))
  | .call _ _ | .nextWrId | .acquire _ | .recv _ | .execute _ _ | .receive _ _ => isTrue trivial

/-- A connection on queues that have just been created. -/
structure Initial (d : State) : Prop where
  sq : SendQueue.Initial { sq := d.qp.sq }
  rq : d.qp.rq.Blank
  ring : CqRing.Initial d.ring
  qpNum : d.ctx.qpNum = d.qp.qpNum
  rsn : d.ring.cq.cqeVersion = false → d.qp.rsn = d.qp.qpNum
  executed : d.executed = 0
  succeeded : d.succeeded = 0
  received : d.received = 0
  taken : d.taken = 0

/-! ### What is on its way -/

/-- The place of a request on the send queue, if it is one of the send queue. -/
def send? : Origin × IbvWc → Option ℕ
  | (.send k, _) => some k
  | (.recv _, _) => none

/-- The place of a receive on the receive queue. -/
def recv? : Origin × IbvWc → Option ℕ
  | (.send _, _) => none
  | (.recv j, _) => some j

/-- The CQEs that wait are those of the completions `xs`: of sends behind the first
`retired`, in order, and of the receives behind the first `taken`, one by one. -/
structure InFlight (held : ℕ → UInt32) (qp : QueuePair) (ring : CqRing.State)
    (executed received : ℕ) (xs : List (Origin × IbvWc)) (retired taken lo : ℕ)
    (l : List Cqe64) : Prop where
  holds : CqRing.Inv ring lo l
  sq : qp.sq.Tracks retired 0
  sndDbr : qp.sq.Rung
  rq : qp.rq.Tracks taken 0
  rcvDbr : qp.rq.Rung
  reports : List.Forall₂ (fun c x => Reports held ring.cq.cqeVersion qp c x.1 x.2) l xs
  ascending : (xs.filterMap send?).Pairwise (· < ·)
  sends : ∀ k ∈ xs.filterMap send?, retired ≤ k ∧ k < executed
  recvs : xs.filterMap recv? = List.range' taken (received - taken)
  retired_le : retired ≤ executed
  executed_le : executed ≤ qp.sq.posted
  taken_le : taken ≤ received
  received_le : received ≤ qp.rq.log.length

/-- What the queues and the ring have to do with each other: `xs` are the completions that
have not been polled. -/
structure Inv (held : ℕ → UInt32) (d : State) (xs : List (Origin × IbvWc)) : Prop where
  wqeCnt : d.qp.rq.wqeCnt.toNat < 2 ^ 16
  qpNum : d.ctx.qpNum = d.qp.qpNum
  rsn : d.ring.cq.cqeVersion = false → d.qp.rsn = d.qp.qpNum
  inFlight : ∃ retired lo l,
    InFlight held d.qp d.ring d.executed d.received xs retired d.taken lo l

theorem Initial.inv {d : State} (h : Initial d) (held : ℕ → UInt32) : Inv held d [] where
  wqeCnt := by
    obtain ⟨k, hk, hpow⟩ := h.rq.pow
    rw [hpow]
    exact Nat.pow_lt_pow_right (by decide) hk
  qpNum := h.qpNum
  rsn := h.rsn
  inFlight := by
    have hsq := h.sq.inv
    rw [h.received, h.taken, h.executed]
    refine ⟨0, 0, [], h.ring.inv, hsq.tracks, hsq.rung, h.rq.tracks, ?_, .nil, .nil, by simp, rfl,
      Nat.zero_le _, Nat.zero_le _, Nat.zero_le _, Nat.zero_le _⟩
    rw [RecvQueue.Rung, h.rq.rcvDbr, h.rq.head]
    rfl

/-! ### Steps -/

section

variable {held : ℕ → UInt32} {qp : QueuePair} {ring ring' : CqRing.State} {executed received : ℕ}
  {xs : List (Origin × IbvWc)} {retired taken lo : ℕ} {l : List Cqe64} {c : Cqe64}

/-- What the CQEs report stays so when more is posted. -/
theorem reports_extend {cqeVersion : Bool} {qp qp' : QueuePair} {c : Cqe64} {o : Origin}
    {w : IbvWc} (h : Reports held cqeVersion qp c o w) (hrsn : qp'.rsn = qp.rsn)
    (hqpn : qp'.qpNum = qp.qpNum)
    (hsq : ∃ new, qp'.sq.qp.log = qp.sq.qp.log ++ new)
    (hrq : ∃ new, qp'.rq.log = qp.rq.log ++ new) : Reports held cqeVersion qp' c o w := by
  refine ⟨findResource_congr hrsn h.found, h.qpNum, h.num.trans hqpn.symm, ?_⟩
  have hrequest := h.request
  cases o with
  | send k =>
    obtain ⟨new, hlog⟩ := hsq
    obtain ⟨p, hp, hid, hsop⟩ := hrequest.posted
    obtain ⟨hlt, -⟩ := List.getElem?_eq_some_iff.mp hp
    refine ⟨?_, ⟨p, ?_, hid, hsop⟩, hrequest.recv, hrequest.outcome⟩
    · rw [hrequest.counter, SendQueue.counter, SendQueue.counter, hlog, Ring.start, Ring.start,
        List.take_append_of_le_length hlt.le]
    · rw [hlog, List.getElem?_append_left hlt, hp]
  | recv j =>
    obtain ⟨new, hlog⟩ := hrq
    obtain ⟨r, hr, hid⟩ := hrequest.posted
    obtain ⟨hlt, -⟩ := List.getElem?_eq_some_iff.mp hr
    exact ⟨⟨r, by rw [hlog, List.getElem?_append_left hlt, hr], hid⟩, hrequest.recv,
      hrequest.imm, hrequest.outcome⟩

theorem forall₂_extend {cqeVersion : Bool} {qp qp' : QueuePair}
    (h : List.Forall₂ (fun c x => Reports held cqeVersion qp c x.1 x.2) l xs)
    (hrsn : qp'.rsn = qp.rsn) (hqpn : qp'.qpNum = qp.qpNum)
    (hsq : ∃ new, qp'.sq.qp.log = qp.sq.qp.log ++ new)
    (hrq : ∃ new, qp'.rq.log = qp.rq.log ++ new) :
    List.Forall₂ (fun c x => Reports held cqeVersion qp' c x.1 x.2) l xs :=
  h.imp fun _ _ hx => reports_extend hx hrsn hqpn hsq hrq

/-- The driver reads a CQE alike on every lap. -/
theorem reports_mark {cqeVersion : Bool} {o : Origin} {w : IbvWc}
    (h : Reports held cqeVersion qp c o w) (b : Bool) :
    Reports held cqeVersion qp (c.mark b) o w := by
  have hfound : findResource cqeVersion (some qp) (c.mark b) =
      findResource cqeVersion (some qp) c := by
    rw [findResource, findResource, Cqe64.opcode_mark]
    rfl
  refine ⟨hfound.trans h.found, h.qpNum, h.num, ?_⟩
  have hrequest := h.request
  cases o with
  | send k =>
    refine ⟨hrequest.counter, hrequest.posted, hrequest.recv, ?_⟩
    rw [Cqe64.opcode_mark]
    exact hrequest.outcome
  | recv j =>
    have himm : recvImm (c.mark b) = recvImm c := by
      rw [recvImm, recvImm, Cqe64.opcode_mark]
      rfl
    refine ⟨hrequest.posted, hrequest.recv, ?_, ?_⟩
    · rw [Cqe64.opcode_mark]
      exact hrequest.imm
    · rw [Cqe64.opcode_mark, himm]
      exact hrequest.outcome

theorem InFlight.post {sq : SendQueue}
    (h : InFlight held qp ring executed received xs retired taken lo l)
    (htracks : sq.Tracks retired 0) (hrung : sq.Rung)
    (hlog : ∃ new, sq.qp.log = qp.sq.qp.log ++ new) :
    InFlight held { qp with sq } ring executed received xs retired taken lo l where
  holds := h.holds
  sq := htracks
  sndDbr := hrung
  rq := h.rq
  rcvDbr := h.rcvDbr
  reports := forall₂_extend h.reports rfl rfl hlog ⟨[], (List.append_nil _).symm⟩
  ascending := h.ascending
  sends := h.sends
  recvs := h.recvs
  retired_le := h.retired_le
  executed_le := by
    obtain ⟨new, hnew⟩ := hlog
    refine le_trans h.executed_le ?_
    rw [SendQueue.posted, SendQueue.posted, hnew, List.length_append]
    exact Nat.le_add_right _ _
  taken_le := h.taken_le
  received_le := h.received_le

theorem InFlight.recv {rq : RecvQueue}
    (h : InFlight held qp ring executed received xs retired taken lo l)
    (htracks : rq.Tracks taken 0) (hrung : rq.Rung) (hlog : ∃ new, rq.log = qp.rq.log ++ new) :
    InFlight held { qp with rq } ring executed received xs retired taken lo l where
  holds := h.holds
  sq := h.sq
  sndDbr := h.sndDbr
  rq := htracks
  rcvDbr := hrung
  reports := forall₂_extend h.reports rfl rfl ⟨[], (List.append_nil _).symm⟩ hlog
  ascending := h.ascending
  sends := h.sends
  recvs := h.recvs
  retired_le := h.retired_le
  executed_le := h.executed_le
  taken_le := h.taken_le
  received_le := by
    obtain ⟨new, hnew⟩ := hlog
    refine le_trans h.received_le ?_
    rw [hnew, List.length_append]
    exact Nat.le_add_right _ _

/-- The NIC has executed a request that is not signaled. -/
theorem InFlight.quiet (h : InFlight held qp ring executed received xs retired taken lo l)
    (hlt : executed < qp.sq.posted) :
    InFlight held qp ring (executed + 1) received xs retired taken lo l :=
  { h with
    sends := fun k hk => ⟨(h.sends k hk).1, Nat.lt_succ_of_lt (h.sends k hk).2⟩
    retired_le := Nat.le_succ_of_le h.retired_le
    executed_le := hlt }

/-- The NIC has written the CQE of a request. -/
theorem InFlight.putSend {w : IbvWc}
    (h : InFlight held qp ring executed received xs retired taken lo l)
    (hlt : executed < qp.sq.posted) (hput : CqRing.put ring c = some ring')
    (hrep : Reports held ring.cq.cqeVersion qp c (.send executed) w) :
    ∃ l', InFlight held qp ring' (executed + 1) received (xs ++ [(.send executed, w)]) retired
      taken lo l' := by
  obtain ⟨hring, -, -, -, -, hver, -⟩ := h.holds.put hput
  refine ⟨_, hring, h.sq, h.sndDbr, h.rq, h.rcvDbr, ?_, ?_, ?_, ?_, Nat.le_succ_of_le h.retired_le,
    hlt, h.taken_le, h.received_le⟩
  · rw [hver]
    exact List.rel_append h.reports (.cons (reports_mark hrep _) .nil)
  · -- the request comes behind all whose CQEs are on their way
    rw [List.filterMap_append, List.pairwise_append]
    refine ⟨h.ascending, by simp [send?], ?_⟩
    intro a ha b hb
    obtain rfl : b = executed := by simpa [send?] using hb
    exact (h.sends a ha).2
  · intro k hk
    rw [List.filterMap_append] at hk
    rcases List.mem_append.mp hk with hk | hk
    · exact ⟨(h.sends k hk).1, Nat.lt_succ_of_lt (h.sends k hk).2⟩
    · obtain rfl : k = executed := by simpa [send?] using hk
      exact ⟨h.retired_le, Nat.lt_succ_self _⟩
  · rw [List.filterMap_append, h.recvs]
    simp [recv?]

/-- The NIC has written the CQE of a receive. -/
theorem InFlight.putRecv {w : IbvWc}
    (h : InFlight held qp ring executed received xs retired taken lo l)
    (hlt : received < qp.rq.log.length) (hput : CqRing.put ring c = some ring')
    (hrep : Reports held ring.cq.cqeVersion qp c (.recv received) w) :
    ∃ l', InFlight held qp ring' executed (received + 1) (xs ++ [(.recv received, w)]) retired
      taken lo l' := by
  obtain ⟨hring, -, -, -, -, hver, -⟩ := h.holds.put hput
  have htaken := h.taken_le
  refine ⟨_, hring, h.sq, h.sndDbr, h.rq, h.rcvDbr, ?_, ?_, ?_, ?_, h.retired_le, h.executed_le,
    Nat.le_succ_of_le htaken, hlt⟩
  · rw [hver]
    exact List.rel_append h.reports (.cons (reports_mark hrep _) .nil)
  · simpa [List.filterMap_cons, send?] using h.ascending
  · simpa [List.filterMap_cons, send?] using h.sends
  · rw [List.filterMap_append, h.recvs, show received + 1 - taken = received - taken + 1 by omega,
      List.range'_concat]
    simp [recv?]
    omega

/-- What a poll of the driver leaves, when it has taken the CQE of the completion `w`. -/
structure Polls (qp qp' : QueuePair) (ring : CqRing.State) (w : IbvWc) (wc : WcBuf)
    (cq : Cq) (wc' : WcBuf) : Prop where
  eq : ibvPollCq ring.cq (some qp) wc = (.ok, cq, wc', some qp')
  version : cq.cqeVersion = ring.cq.cqeVersion
  qpNum : qp'.qpNum = qp.qpNum
  rsn : qp'.rsn = qp.rsn
  sq : qp'.sq.qp = qp.sq.qp
  rq : qp'.rq.log = qp.rq.log ∧ qp'.rq.wqeCnt = qp.rq.wqeCnt
  told : wc'.read.status = w.status ∧ wc'.read.qpNum = w.qpNum ∧ wc'.read.wrId = w.wrId

theorem isRequestor_of {w : IbvWc} {k : ℕ} (h : ReportsSend qp c k w) :
    isRequestor c.opcode = true := by
  rcases h.outcome with ⟨-, hop⟩ | ⟨-, hop⟩ <;> rw [hop] <;> rfl

theorem isResponder_of {w : IbvWc} {j : ℕ} (h : ReportsRecv held qp c j w) :
    isResponder c.opcode = true := by
  rcases h.outcome with ⟨-, hop, -⟩ | ⟨-, hop⟩
  · simp only [recvOpcodes, List.mem_cons, List.not_mem_nil, or_false] at hop
    rcases hop with hop | hop | hop | hop <;> rw [hop] <;> rfl
  · rw [hop]
    rfl

/-- Polling the completion of a send. -/
theorem InFlight.poll_send {k : ℕ} {w : IbvWc}
    (h : InFlight held qp ring executed received ((.send k, w) :: xs) retired taken lo (c :: l))
    (wc : WcBuf) :
    ∃ qp' cq wc', Polls qp qp' ring w wc cq wc' ∧ (SendTold c wc → Agrees wc'.read w) ∧
      qp'.rq.tail = qp.rq.tail ∧
      InFlight held qp' { ring with cq } executed received xs (k + 1) taken (lo + 1) l ∧
      (wc'.opcode = (sendOpcode (c.sopDropQpn >>> 24)).getD wc.opcode ∧
        wc'.immData = wc.immData) := by
  obtain ⟨hrep, hreports⟩ := List.forall₂_cons.mp h.reports
  have hrequest : ReportsSend qp c k w := hrep.request
  -- one send fewer is on its way, and as many receives as before
  have hlist : ((Origin.send k, w) :: xs).filterMap send? = k :: xs.filterMap send? := rfl
  have hrecvs : ((Origin.send k, w) :: xs).filterMap recv? = xs.filterMap recv? := rfl
  have hasc := h.ascending
  have hsends := h.sends
  rw [hlist] at hasc hsends
  obtain ⟨hfirst, hasc⟩ := List.pairwise_cons.mp hasc
  obtain ⟨hk, hlt⟩ := hsends k List.mem_cons_self
  obtain ⟨p, hp, -⟩ := hrequest.posted
  obtain ⟨-, htracks⟩ := h.sq.takeCompletion hk hp
  obtain ⟨hnext, hring⟩ := h.holds.next ring.polled
  obtain ⟨wc', hpoll, hstatus, hqpn, hid, hop, himm⟩ :=
    hrequest.pollResource hrep.qpNum h.sq hk { wc with withImm := false, withInv := false }
  refine ⟨_, _, wc', ⟨ibvPollCq_eq hnext (Or.inl (isRequestor_of hrequest)) hrep.found hpoll, rfl,
    rfl, rfl, rfl, ⟨rfl, rfl⟩, hstatus, hqpn, hid⟩,
    fun htold => hrequest.agrees htold hstatus hqpn hid hop, rfl,
    ⟨hring, htracks, h.sndDbr, h.rq, h.rcvDbr, ?_, hasc, ?_, hrecvs ▸ h.recvs, hlt, h.executed_le,
      h.taken_le, h.received_le⟩, hop, himm⟩
  · exact forall₂_extend hreports rfl rfl ⟨[], (List.append_nil _).symm⟩
      ⟨[], (List.append_nil _).symm⟩
  · intro m hm
    exact ⟨hfirst m hm, (hsends m (List.mem_cons_of_mem k hm)).2⟩

/-- Polling the completion of a receive. -/
theorem InFlight.poll_recv {j : ℕ} {w : IbvWc}
    (h : InFlight held qp ring executed received ((.recv j, w) :: xs) retired taken lo (c :: l))
    (wc : WcBuf) :
    ∃ qp' cq wc', Polls qp qp' ring w wc cq wc' ∧
      (RecvTold held taken c wc → Agrees wc'.read w) ∧
      (w.withImm = true → c.opcode ≠ MLX5_CQE_RESP_SEND) ∧ qp'.rq.tail ≠ qp.rq.tail ∧
      InFlight held qp' { ring with cq } executed received xs retired (taken + 1) (lo + 1) l := by
  obtain ⟨hrep, hreports⟩ := List.forall₂_cons.mp h.reports
  have hlist : ((Origin.recv j, w) :: xs).filterMap recv? = j :: xs.filterMap recv? := rfl
  have hsends : ((Origin.recv j, w) :: xs).filterMap send? = xs.filterMap send? := rfl
  have hrecvs := h.recvs
  rw [hlist] at hrecvs
  -- the receives come back in their order, so that this one is the oldest not taken
  obtain ⟨n, hn⟩ : ∃ n, received - taken = n + 1 := by
    refine Nat.exists_eq_add_one.mpr (Nat.pos_of_ne_zero fun hzero => ?_)
    rw [hzero] at hrecvs
    exact absurd hrecvs (by simp)
  rw [hn, List.range'_succ] at hrecvs
  obtain ⟨rfl, hrest⟩ := List.cons.inj hrecvs
  have hrequest : ReportsRecv held qp c j w := hrep.request
  obtain ⟨r, hr, -⟩ := hrequest.posted
  obtain ⟨-, htracks⟩ := h.rq.takeReceive hr
  obtain ⟨hnext, hring⟩ := h.holds.next ring.polled
  obtain ⟨wc', hpoll, hstatus, hqpn, hid, hop⟩ :=
    hrequest.pollResource hrep.qpNum h.rq { wc with withImm := false, withInv := false }
  refine ⟨_, _, wc', ⟨ibvPollCq_eq hnext (Or.inr (isResponder_of hrequest)) hrep.found hpoll, rfl,
    rfl, rfl, rfl, ⟨rfl, rfl⟩, hstatus, hqpn, hid⟩,
    fun htold => hrequest.agrees htold hstatus hqpn hid hop, hrequest.imm, ?_,
    hring, h.sq, h.sndDbr, htracks, h.rcvDbr, ?_,
    hsends ▸ h.ascending, hsends ▸ h.sends, ?_, h.retired_le, h.executed_le, ?_, h.received_le⟩
  · change qp.rq.tail + 1 ≠ qp.rq.tail
    grind
  · exact forall₂_extend hreports rfl rfl ⟨[], (List.append_nil _).symm⟩
      ⟨[], (List.append_nil _).symm⟩
  · rw [hrest, show received - (j + 1) = n by omega]
  · omega

/-- With no CQE on its way, the driver finds none. -/
theorem InFlight.poll_nil (h : InFlight held qp ring executed received [] retired taken lo l)
    (wc : WcBuf) : (ibvPollCq ring.cq (some qp) wc).1 = .empty := by
  obtain rfl : l = [] := by simpa using h.reports
  rw [ibvPollCq, mlx5PollOne, h.holds.holds.getNextCqe]
  rfl

end

section

variable {held : ℕ → UInt32} {d d' : State} {xs : List (Origin × IbvWc)}

theorem found_of_forQp {c : Cqe64} (h : ForQp d c)
    (hrsn : d.ring.cq.cqeVersion = false → d.qp.rsn = d.qp.qpNum) :
    findResource d.ring.cq.cqeVersion (some d.qp) c = some d.qp := by
  obtain ⟨hqpn, huidx, -⟩ := h
  cases hver : d.ring.cq.cqeVersion with
  | true =>
    rw [hver, if_pos rfl] at huidx
    simp [findResource, huidx]
  | false =>
    rw [hver, if_neg (by simp)] at huidx
    simp [findResource, huidx, hqpn, hrsn hver]

theorem Moved.qpNum {ctx ctx' : ConnContext} {ops : UInt32} {bindings : List (UInt32 × ℤ)}
    (h : Moved ctx ctx' ops bindings) : ctx'.qpNum = ctx.qpNum := by
  obtain ⟨_, _, _, rfl⟩ := h.eq
  rfl

/-- The context changes, and neither the queues nor what is on its way. -/
theorem Inv.ctx {ctx : ConnContext} (h : Inv held d xs) (hqpn : ctx.qpNum = d.ctx.qpNum) :
    Inv held { d with ctx } xs :=
  ⟨h.wqeCnt, hqpn.trans h.qpNum, h.rsn, h.inFlight⟩

/-- A posting call. -/
theorem Inv.call {call : PostCall} {refused : ℕ → Bool} (h : Inv held d xs)
    (hc : Fitting d (.call call refused)) (hs : Device.call d call refused = some d') :
    ∃ ret sq, call.exec d.conn = .ok (ret, d'.conn) ∧
      d' = { d with ctx := d'.ctx, qp := { d.qp with sq } } ∧ Inv held d' xs := by
  obtain ⟨⟨ret, conn⟩, hx, hpost⟩ := Option.bind_eq_some_iff.mp hs
  have hx := Except.toOption_eq_some.mp hx
  obtain ⟨wrs, heffect⟩ := exec_effect hx
  obtain ⟨new, hlog, hdata⟩ := heffect.log
  -- the driver gets the requests that the library's model of the call has posted
  have hhanded : handed d conn = wrs := by
    rw [handed, hlog, SendQueue.posted, State.conn, List.drop_left, hdata]
  dsimp only at hpost
  rw [hhanded] at hpost
  split at hpost
  · rename_i sq hsend
    obtain rfl := Option.some_inj.mp hpost
    obtain ⟨retired, lo, l, hfly⟩ := h.inFlight
    have hfits : ∀ wr ∈ wrs, d.qp.sq.Fits wr := by
      rw [← hhanded]
      exact hc (ret, conn) (Except.toOption_eq_some.mpr hx)
    obtain ⟨sq', hsend', htracks, hrung, hposts⟩ := hfly.sq.postSend refused hfly.sndDbr hfits
    obtain rfl : sq = sq' := congrArg Prod.fst (hsend.symm.trans hsend')
    have hqp : conn.qp = sq.qp :=
      Option.some_inj.mp (heffect.qp.symm.trans (SendQueue.postSend_qp hsend))
    obtain ⟨added, hadded, -⟩ := hposts.log
    refine ⟨ret, sq, ?_, rfl, h.wqeCnt, (Moved.qpNum heffect.moved).trans h.qpNum, h.rsn,
      retired, lo, l, hfly.post htracks hrung ⟨added, hadded⟩⟩
    rw [hx, State.conn, ← hqp]
  · exact absurd hpost (by simp)

/-- A receive post.  The receive is lost when the queue is full, or when it has too many
elements. -/
theorem Inv.recv (h : Inv held d xs) (r : RecvRequest) :
    ∃ rq rest, d.qp.rq.postRecv [r] = (rq, rest) ∧
      Inv held { d with qp := { d.qp with rq } } xs ∧
      if d.qp.rq.log.length - d.taken < d.qp.rq.maxPost.toNat ∧
          r.sgList.length ≤ d.qp.rq.maxGs then
        rest = [] ∧ rq.log = d.qp.rq.log ++ [r]
      else rest = [r] ∧ rq = d.qp.rq := by
  obtain ⟨retired, lo, l, hfly⟩ := h.inFlight
  obtain ⟨rq, hpost, htracks, hrung, hlog, -, -, hcnt, hsame⟩ :=
    hfly.rq.postRecv [r] hfly.rcvDbr
  refine ⟨rq, _, hpost, ⟨by rw [hcnt]; exact h.wqeCnt, h.qpNum, h.rsn, retired, lo, l,
    hfly.recv htracks hrung ⟨_, hlog⟩⟩, ?_⟩
  split
  · rename_i hroom
    rw [RecvQueue.accept, if_pos hroom] at hlog ⊢
    exact ⟨rfl, hlog⟩
  · rename_i hroom
    rw [RecvQueue.accept, if_neg hroom] at hsame ⊢
    exact ⟨rfl, hsame rfl⟩

/-- What the NIC does when it goes on in the send queue. -/
theorem execute_cases {status : WcStatus} {c : Cqe64} (hs : execute d status c = some d') :
    ∃ r, d.qp.sq.qp.log[d.executed]? = some r ∧
      (status = .success → d.succeeded = d.executed) ∧
      (status = .success ∧ r.data.flags.signaled = false ∧ d' = { d with
          executed := d.executed + 1
          succeeded := d.succeeded + 1 } ∨
        (status = .error ∨ r.data.flags.signaled = true) ∧ ForNext d r.data status c ∧
          ∃ ring, CqRing.put d.ring c = some ring ∧ d' = { d with
            ring
            executed := d.executed + 1
            succeeded := if status = .success then d.succeeded + 1 else d.succeeded }) := by
  rw [execute] at hs
  split at hs
  · exact absurd hs (by simp)
  · obtain ⟨r, hr, hs⟩ := Option.bind_eq_some_iff.mp hs
    refine ⟨r, hr, ?_⟩
    dsimp only at hs
    split at hs
    · exact absurd hs (by simp)
    · rename_i hok
      refine ⟨fun hst => by_contra fun hne => hok ⟨hst, hne⟩, ?_⟩
      split at hs
      · rename_i hquiet
        refine Or.inl ⟨hquiet.1, hquiet.2, ?_⟩
        rw [if_pos hquiet.1] at hs
        exact (Option.some_inj.mp hs).symm
      · rename_i hputs
        split at hs
        · rename_i hfor
          obtain ⟨ring, hput, rfl⟩ := Option.map_eq_some_iff.mp hs
          refine Or.inr ⟨?_, hfor, ring, hput, rfl⟩
          cases status with
          | success => exact Or.inr (by simpa using hputs)
          | error => exact Or.inl rfl
        · exact absurd hs (by simp)

/-- The completion of the request that the NIC executes. -/
def sendWc (d : State) (wr : WorkRequest) (status : WcStatus) : IbvWc :=
  { wrId := wr.wrId, status, recv := false, qpNum := d.ctx.qpNum }

/-- The NIC executes a request, and its completion is on its way if there is one. -/
theorem Inv.execute {status : WcStatus} {c : Cqe64} (h : Inv held d xs)
    (hs : Device.execute d status c = some d') :
    ∃ r, d.qp.sq.qp.log[d.executed]? = some r ∧
      (status = .success → d.succeeded = d.executed) ∧ d'.ctx = d.ctx ∧ d'.qp = d.qp ∧
      d'.executed = d.executed + 1 ∧
      d'.succeeded = (if status = .success then d.succeeded + 1 else d.succeeded) ∧
      d'.received = d.received ∧
      Inv held d' (if status = .success ∧ r.data.flags.signaled = false then xs
        else xs ++ [(.send d.executed, sendWc d r.data status)]) := by
  obtain ⟨r, hr, hsucc, hcases⟩ := execute_cases hs
  obtain ⟨retired, lo, l, hfly⟩ := h.inFlight
  obtain ⟨hlt, -⟩ := List.getElem?_eq_some_iff.mp hr
  refine ⟨r, hr, hsucc, ?_⟩
  rcases hcases with ⟨rfl, hunsignaled, rfl⟩ | ⟨hputs, hfor, ring, hput, rfl⟩
  · refine ⟨rfl, rfl, rfl, rfl, rfl, ?_⟩
    rw [if_pos ⟨rfl, hunsignaled⟩]
    exact ⟨h.wqeCnt, h.qpNum, h.rsn, retired, lo, l, hfly.quiet hlt⟩
  · have hnot : ¬ (status = .success ∧ r.data.flags.signaled = false) := by
      rintro ⟨hst, hunsignaled⟩
      rcases hputs with hst' | hsignaled
      · exact absurd (hst.symm.trans hst') (by simp)
      · exact absurd (hsignaled.symm.trans hunsignaled) (by simp)
    obtain ⟨hqp, hctr, hsop, hop⟩ := hfor
    have hrep : Reports held d.ring.cq.cqeVersion d.qp c (.send d.executed)
        (sendWc d r.data status) := by
      refine ⟨found_of_forQp hqp h.rsn, hqp.1.trans h.qpNum.symm, h.qpNum, hctr,
        ⟨r, hr, rfl, hsop⟩, rfl, ?_⟩
      cases status with
      | success => exact Or.inl ⟨rfl, hop⟩
      | error => exact Or.inr ⟨rfl, hop⟩
    obtain ⟨l', hfly'⟩ := hfly.putSend hlt hput hrep
    obtain ⟨-, -, -, -, -, hver, -⟩ := hfly.holds.put hput
    rw [if_neg hnot]
    exact ⟨rfl, rfl, rfl, rfl, rfl, h.wqeCnt, h.qpNum, fun hfalse => h.rsn (hver ▸ hfalse),
      retired, lo, l', hfly'⟩

/-- The completion of the oldest receive. -/
def recvWc (held : ℕ → UInt32) (d : State) (wrId : UInt64) (status : WcStatus) (c : Cqe64) :
    IbvWc :=
  { wrId, status, recv := true, withImm := hasImm c
    immData := (recvImm c).getD (held d.received), qpNum := d.ctx.qpNum }

/-- A receive completes. -/
theorem Inv.receive {status : WcStatus} {c : Cqe64} (h : Inv held d xs)
    (hs : Device.receive d status c = some d') :
    ∃ r, d.qp.rq.log.drop d.received = r :: d.qp.rq.log.drop (d.received + 1) ∧
      (status = .success → d.succeeded = d.executed) ∧
      (∃ ring, d' = { d with ring, received := d.received + 1 }) ∧
      Inv held d' (xs ++ [(.recv d.received, recvWc held d r.wrId status c)]) := by
  obtain ⟨retired, lo, l, hfly⟩ := h.inFlight
  rw [Device.receive] at hs
  split at hs
  · exact absurd hs (by simp)
  · rename_i htold
    rw [hfly.rq.rung_iff hfly.rcvDbr h.wqeCnt hfly.taken_le hfly.received_le] at htold
    have hlt : d.received < d.qp.rq.log.length := by
      have := hfly.received_le
      omega
    split at hs
    · exact absurd hs (by simp)
    · rename_i hok
      split at hs
      · rename_i hfor
        obtain ⟨ring, hput, rfl⟩ := Option.map_eq_some_iff.mp hs
        obtain ⟨hqp, hkind⟩ := hfor
        have hrep : Reports held d.ring.cq.cqeVersion d.qp c (.recv d.received)
            (recvWc held d d.qp.rq.log[d.received].wrId status c) := by
          refine ⟨found_of_forQp hqp h.rsn, hqp.1.trans h.qpNum.symm, h.qpNum,
            ⟨_, List.getElem?_eq_getElem hlt, rfl⟩, rfl, ?_, ?_⟩
          · intro himm hsend
            change hasImm c = true at himm
            rw [hasImm, hsend] at himm
            exact absurd himm (by decide)
          · cases status with
            | success => exact Or.inl ⟨rfl, hkind, rfl⟩
            | error => exact Or.inr ⟨rfl, hkind⟩
        obtain ⟨l', hfly'⟩ := hfly.putRecv hlt hput hrep
        obtain ⟨-, -, -, -, -, hver, -⟩ := hfly.holds.put hput
        exact ⟨_, List.drop_eq_getElem_cons hlt, fun hst => by_contra fun hne => hok ⟨hst, hne⟩,
          ⟨ring, rfl⟩, h.wqeCnt, h.qpNum, fun hfalse => h.rsn (hver ▸ hfalse), retired, lo, l',
          hfly'⟩
      · exact absurd hs (by simp)

/-- What is on its way after a poll. -/
theorem Inv.polled {qp' : QueuePair} {cq' : Cq} {w : IbvWc} {wc wc' : WcBuf} {ctx : ConnContext}
    {xs' : List (Origin × IbvWc)} {retired taken lo : ℕ} {l : List Cqe64} (h : Inv held d xs)
    (hpolls : Polls d.qp qp' d.ring w wc cq' wc') (hctx : ctx.qpNum = d.ctx.qpNum)
    (hfly : InFlight held qp' { d.ring with cq := cq' } d.executed d.received xs' retired taken
      lo l) :
    Inv held { d with ctx, qp := qp', ring := { d.ring with cq := cq' }, taken } xs' := by
  refine ⟨?_, ?_, ?_, retired, lo, l, hfly⟩
  · rw [hpolls.rq.2]
    exact h.wqeCnt
  · rw [hpolls.qpNum]
    exact hctx.trans h.qpNum
  · intro hver
    rw [hpolls.rsn, hpolls.qpNum]
    exact h.rsn (hpolls.version ▸ hver)

/-- The completion that is polled is the oldest of those on their way. -/
theorem Inv.polls (h : Inv held d xs) (wc : WcBuf) :
    xs = [] ∧ (ibvPollCq d.ring.cq (some d.qp) wc).1 = .empty ∨
    ∃ o w xs' qp' cq' wc', xs = (o, w) :: xs' ∧ Polls d.qp qp' d.ring w wc cq' wc' ∧
      w.qpNum = d.ctx.qpNum ∧
      (Clear d (.poll wc) → (qp'.rq.tail ≠ d.qp.rq.tail → held d.taken = wc.immData) →
        Agrees wc'.read w) ∧
      (Clear d (.poll wc) → (w.recv = true → w.withImm = true) → Agrees wc'.read w) ∧
      ∀ ctx : ConnContext, ctx.qpNum = d.ctx.qpNum →
        Inv held { d with
          ctx
          qp := qp'
          ring := { d.ring with cq := cq' }
          taken := if qp'.rq.tail = d.qp.rq.tail then d.taken else d.taken + 1 } xs' := by
  obtain ⟨retired, lo, l, hfly⟩ := h.inFlight
  cases xs with
  | nil => exact Or.inl ⟨rfl, hfly.poll_nil wc⟩
  | cons x xs =>
    obtain ⟨c, l, hrep, -, rfl⟩ := List.forall₂_cons_right_iff.mp hfly.reports
    obtain ⟨hnext, -⟩ := hfly.holds.next d.ring.polled
    obtain ⟨o, w⟩ := x
    have hnum : w.qpNum = d.ctx.qpNum := hrep.num.trans h.qpNum.symm
    refine Or.inr ⟨o, w, xs, ?_⟩
    cases o with
    | send k =>
      obtain ⟨qp', cq', wc', hpolls, hagrees, htail, hfly', -⟩ := hfly.poll_send wc
      refine ⟨qp', cq', wc', rfl, hpolls, hnum, fun hclear _ => hagrees (hclear c hnext),
        fun hclear _ => hagrees (hclear c hnext), ?_⟩
      intro ctx hctx
      rw [if_pos htail]
      exact h.polled hpolls hctx hfly'
    | recv j =>
      obtain ⟨qp', cq', wc', hpolls, hagrees, himm, htail, hfly'⟩ := hfly.poll_recv wc
      have hrecv : w.recv = true := hrep.request.recv
      refine ⟨qp', cq', wc', rfl, hpolls, hnum, fun _ htold => hagrees fun _ => htold htail,
        fun _ hwith => hagrees fun hsend => absurd hsend (himm (hwith hrecv)), ?_⟩
      intro ctx hctx
      rw [if_neg htail]
      exact h.polled hpolls hctx hfly'

/-- A poll takes the oldest completion, and the library handles what the buffer then holds. -/
theorem Inv.poll {wc : WcBuf} (h : Inv held d xs) (hs : Device.poll d wc = some d') :
    ∃ o w xs' msg, ∃ wc' : WcBuf, xs = (o, w) :: xs' ∧ pollCq wc'.read d.ctx = .ok (d'.ctx, msg) ∧
      (Clear d (.poll wc) → (d'.taken ≠ d.taken → held d.taken = wc.immData) →
        Agrees wc'.read w) ∧ d'.qp.sq.qp = d.qp.sq.qp ∧
      d'.qp.rq.log = d.qp.rq.log ∧ d'.executed = d.executed ∧ d'.succeeded = d.succeeded ∧
      d'.received = d.received ∧ Inv held d' xs' := by
  rw [Device.poll] at hs
  rcases h.polls wc with ⟨-, hempty⟩ |
    ⟨o, w, xs', qp', cq', wc', rfl, hpolls, hnum, hagrees, -, hnext⟩
  · rcases hpoll : ibvPollCq d.ring.cq (some d.qp) wc with ⟨status, rest⟩
    rw [hpoll] at hs hempty
    obtain rfl : status = .empty := hempty
    exact absurd hs (by simp)
  · rw [hpolls.eq] at hs
    dsimp only at hs
    have hfound : wc'.qpNum = d.ctx.qpNum := hpolls.told.2.1.trans hnum
    rw [if_pos hfound] at hs
    obtain ⟨⟨ctx, msg⟩, hx, hd⟩ := Option.bind_eq_some_iff.mp hs
    obtain rfl := Option.some_inj.mp hd
    have hx := Except.toOption_eq_some.mp hx
    have hframe : ctx.qpNum = d.ctx.qpNum := by rw [pollCq_frame hx]
    refine ⟨o, w, xs', msg, wc', rfl, hx, fun hclear htold => hagrees hclear fun htail => ?_,
      hpolls.sq, hpolls.rq.1, rfl, rfl, rfl, hnext ctx hframe⟩
    refine htold ?_
    dsimp only
    rw [if_neg htail]
    exact Nat.succ_ne_self _

/-- **Every step keeps the queues and the ring together**, whatever is polled into. -/
theorem Inv.step {a : Act} (h : Inv held d xs) (hc : Fitting d a)
    (hs : Device.step d a = some d') : ∃ xs', Inv held d' xs' := by
  cases a with
  | call call refused =>
    obtain ⟨-, -, -, -, h'⟩ := h.call hc hs
    exact ⟨xs, h'⟩
  | nextWrId =>
    obtain rfl := Option.some_inj.mp hs
    exact ⟨xs, h.ctx rfl⟩
  | acquire user =>
    obtain ⟨⟨i, ctx⟩, hx, rfl⟩ := Option.map_eq_some_iff.mp hs
    obtain ⟨-, rfl⟩ := rcAcquireBuffer_eq_ok (Except.toOption_eq_some.mp hx)
    exact ⟨xs, h.ctx rfl⟩
  | recv call =>
    obtain ⟨r, -, rfl⟩ := Option.map_eq_some_iff.mp hs
    obtain ⟨rq, rest, hpost, h', -⟩ := h.recv r
    rw [hpost]
    exact ⟨xs, h'⟩
  | execute status c =>
    obtain ⟨r, -, -, -, -, -, -, -, h'⟩ := h.execute hs
    exact ⟨_, h'⟩
  | receive status c =>
    obtain ⟨r, -, -, -, h'⟩ := h.receive hs
    exact ⟨_, h'⟩
  | poll wc =>
    obtain ⟨o, w, xs', msg, wc', -, -, -, -, -, -, -, -, h'⟩ := h.poll hs
    exact ⟨xs', h'⟩

end

/-- The queues and the ring are together after every run. -/
theorem exists_inv {d d' : State} (h : Initial d) {as : List Act}
    (hm : Machine.Meets step Fitting d as) (hr : Machine.run step d as = some d')
    (held : ℕ → UInt32) : ∃ xs, Inv held d' xs :=
  Machine.run_inv_of_meets (I := fun d => ∃ xs, Inv held d xs)
    (fun _ _ _ ⟨_, h⟩ hc hs => h.step hc hs) ⟨[], h.inv held⟩ hm hr

/-! ### Refinement -/

/-- The state of `Execution` that the driver's stands for. -/
def view (d : State) (xs : List (Origin × IbvWc)) : Execution.State where
  conn := d.conn
  recvq := d.qp.rq.log.drop d.received
  executed := d.executed
  succeeded := d.succeeded
  cq := xs.map Prod.snd

section

variable {held : ℕ → UInt32} {d d' : State} {xs : List (Origin × IbvWc)}

theorem run_singleton {s s' : Execution.State} {a : Execution.Act}
    (h : Execution.step s a = some s') : Machine.run Execution.step s [a] = some s' :=
  (Machine.run_cons_eq_some _).mpr ⟨s', h, rfl⟩

/-- A posting call. -/
theorem Inv.simulates_call {call : PostCall} {refused : ℕ → Bool} (h : Inv held d xs)
    (hc : Fitting d (.call call refused)) (hs : Device.call d call refused = some d') :
    Inv held d' xs ∧ Execution.step (view d xs) (.call call) = some (view d' xs) := by
  obtain ⟨ret, sq, hx, hd, h'⟩ := h.call hc hs
  refine ⟨h', ?_⟩
  change (call.exec d.conn).toOption.map _ = _
  rw [hx, view, view, show d'.executed = d.executed by rw [hd],
    show d'.succeeded = d.succeeded by rw [hd], show d'.received = d.received by rw [hd],
    show d'.qp.rq = d.qp.rq by rw [hd]]
  rfl

/-- A receive post, which may be lost. -/
theorem Inv.simulates_recv {call : RecvCall} (h : Inv held d xs)
    (hs : Device.step d (.recv call) = some d') :
    Inv held d' xs ∧
      Machine.run Execution.step (view d xs) (acts held d (.recv call)) = some (view d' xs) := by
  obtain ⟨r, hx, rfl⟩ := Option.map_eq_some_iff.mp hs
  have hx := Except.toOption_eq_some.mp hx
  obtain ⟨rq, rest, hpost, h', hcases⟩ := h.recv r
  obtain ⟨retired, lo, l, hfly⟩ := h.inFlight
  have hkept : kept d call = rest.isEmpty := by
    rw [kept, hx]
    exact congrArg (fun p => p.2.isEmpty) hpost
  rw [acts, hkept, hpost]
  refine ⟨h', ?_⟩
  split at hcases
  · obtain ⟨rfl, hlog⟩ := hcases
    refine run_singleton ?_
    change (call.exec d.ctx).toOption.map _ = _
    rw [hx, view, view]
    dsimp only
    rw [hlog, List.drop_append_of_le_length hfly.received_le]
    rfl
  · obtain ⟨rfl, rfl⟩ := hcases
    rfl

theorem execution_success {s : Execution.State} {r : Ring.Placed WorkRequest}
    (hr : s.log[s.executed]? = some r) (hs : s.succeeded = s.executed) :
    Execution.step s (.execute .success) = some { s with
      executed := s.executed + 1
      succeeded := s.succeeded + 1
      cq := if r.data.flags.signaled then s.cq ++ [Execution.sendCqe s r.data .success]
        else s.cq } := by
  change Execution.execute s .success = _
  unfold Execution.execute
  rw [hr]
  exact if_pos hs

theorem execution_error {s : Execution.State} {r : Ring.Placed WorkRequest}
    (hr : s.log[s.executed]? = some r) :
    Execution.step s (.execute .error) = some { s with
      executed := s.executed + 1
      cq := s.cq ++ [Execution.sendCqe s r.data .error] } := by
  change Execution.execute s .error = _
  unfold Execution.execute
  rw [hr]

/-- The NIC executes a request. -/
theorem Inv.simulates_execute {status : WcStatus} {c : Cqe64} (h : Inv held d xs)
    (hs : Device.execute d status c = some d') :
    ∃ xs', Inv held d' xs' ∧
      Execution.step (view d xs) (.execute status) = some (view d' xs') := by
  obtain ⟨r, hr, hsucc, hctx, hqp, hexec, hsucc', hrecv, h'⟩ := h.execute hs
  refine ⟨_, h', ?_⟩
  have hr' : (view d xs).log[(view d xs).executed]? = some r := hr
  have hview : ∀ ys, view d' ys = { view d xs with
      executed := d.executed + 1
      succeeded := if status = .success then d.succeeded + 1 else d.succeeded
      cq := ys.map Prod.snd } := by
    intro ys
    simp only [view, State.conn, hctx, hqp, hexec, hsucc', hrecv]
  have hcq : (if status = .success ∧ r.data.flags.signaled = false then xs
      else xs ++ [(.send d.executed, sendWc d r.data status)]).map Prod.snd =
      if status = .success ∧ r.data.flags.signaled = false then (view d xs).cq
      else (view d xs).cq ++ [Execution.sendCqe (view d xs) r.data status] := by
    rw [apply_ite (List.map Prod.snd), List.map_append]
    rfl
  rw [hview, hcq]
  cases status with
  | success =>
    rw [execution_success hr' (hsucc rfl)]
    cases r.data.flags.signaled <;> rfl
  | error =>
    rw [execution_error hr']
    rfl

/-- A receive completes. -/
theorem Inv.simulates_receive {status : WcStatus} {c : Cqe64} (h : Inv held d xs)
    (hs : Device.receive d status c = some d') :
    ∃ xs', Inv held d' xs' ∧
      Execution.step (view d xs)
          (.receive status (hasImm c) ((recvImm c).getD (held d.received))) =
        some (view d' xs') := by
  obtain ⟨r, hdrop, hok, ⟨ring, rfl⟩, h'⟩ := h.receive hs
  refine ⟨_, h', ?_⟩
  have hrecvq : (view d xs).recvq = r :: d.qp.rq.log.drop (d.received + 1) := hdrop
  have hok' : ¬ (status = .success ∧ (view d xs).succeeded ≠ (view d xs).executed) :=
    fun hno => hno.2 (hok hno.1)
  change Execution.receive (view d xs) status _ _ = _
  rw [Execution.receive, hrecvq]
  refine (if_neg hok').trans ?_
  rw [view, view, List.map_append]
  rfl

/-- A poll. -/
theorem Inv.simulates_poll {wc : WcBuf} (h : Inv held d xs) (hclear : Clear d (.poll wc))
    (hheld : Foretold held d (.poll wc)) (hs : Device.poll d wc = some d') :
    ∃ xs', Inv held d' xs' ∧ Execution.step (view d xs) .poll = some (view d' xs') := by
  obtain ⟨o, w, xs', msg, wc', rfl, hx, hagrees, hsq, hrq, hexec, hsucc, hrecv, h'⟩ := h.poll hs
  refine ⟨xs', h', ?_⟩
  rw [(hagrees hclear (hheld d' hs)).pollCq] at hx
  have hview : view d' xs' = { view d xs' with conn := ⟨d'.ctx, d.qp.sq.qp⟩ } := by
    simp only [view, State.conn, hsq, hrq, hexec, hsucc, hrecv]
  change (pollCq w d.ctx).toOption.map _ = _
  rw [hx, hview]
  rfl

/-- **Every step of the driver is one of `Execution`**, or a receive lost. -/
theorem Inv.simulates {a : Act} (h : Inv held d xs) (hc : Fitting d a) (hclear : Clear d a)
    (hheld : Foretold held d a) (hs : Device.step d a = some d') :
    ∃ xs', Inv held d' xs' ∧
      Machine.run Execution.step (view d xs) (acts held d a) = some (view d' xs') := by
  cases a with
  | call call refused =>
    obtain ⟨h', hrun⟩ := h.simulates_call hc hs
    exact ⟨xs, h', run_singleton hrun⟩
  | nextWrId =>
    obtain rfl := Option.some_inj.mp hs
    exact ⟨xs, h.ctx rfl, run_singleton rfl⟩
  | acquire user =>
    obtain ⟨⟨i, ctx⟩, hx, rfl⟩ := Option.map_eq_some_iff.mp hs
    obtain ⟨-, rfl⟩ := rcAcquireBuffer_eq_ok (Except.toOption_eq_some.mp hx)
    refine ⟨xs, h.ctx rfl, run_singleton ?_⟩
    change (rcAcquireBuffer d.ctx user).toOption.map _ = _
    rw [hx]
    rfl
  | recv call =>
    obtain ⟨h', hrun⟩ := h.simulates_recv hs
    exact ⟨xs, h', hrun⟩
  | execute status c =>
    obtain ⟨xs', h', hrun⟩ := h.simulates_execute hs
    exact ⟨xs', h', run_singleton hrun⟩
  | receive status c =>
    obtain ⟨xs', h', hrun⟩ := h.simulates_receive hs
    exact ⟨xs', h', run_singleton hrun⟩
  | poll wc =>
    obtain ⟨xs', h', hrun⟩ := h.simulates_poll hclear hheld hs
    exact ⟨xs', h', run_singleton hrun⟩

end

/-! ### The immediates -/

section

variable {d d' : State}

/-- No receive comes back once it has been polled. -/
theorem le_taken {a : Act} (hs : step d a = some d') : d.taken ≤ d'.taken := by
  cases a with
  | call call refused =>
    obtain ⟨r, -, hs⟩ := Option.bind_eq_some_iff.mp hs
    split at hs
    · obtain rfl := Option.some_inj.mp hs
      exact le_rfl
    · exact absurd hs (by simp)
  | nextWrId =>
    obtain rfl := Option.some_inj.mp hs
    exact le_rfl
  | acquire user =>
    obtain ⟨r, -, rfl⟩ := Option.map_eq_some_iff.mp hs
    exact le_rfl
  | recv call =>
    obtain ⟨r, -, rfl⟩ := Option.map_eq_some_iff.mp hs
    exact le_rfl
  | execute status c =>
    obtain ⟨r, -, -, ⟨-, -, rfl⟩ | ⟨-, -, ring, -, rfl⟩⟩ := execute_cases hs
    · exact le_rfl
    · exact le_rfl
  | receive status c =>
    change receive d status c = some d' at hs
    rw [receive] at hs
    split at hs
    · exact absurd hs (by simp)
    · split at hs
      · exact absurd hs (by simp)
      · split at hs
        · obtain ⟨ring, -, rfl⟩ := Option.map_eq_some_iff.mp hs
          exact le_rfl
        · exact absurd hs (by simp)
  | poll wc =>
    change poll d wc = some d' at hs
    rw [poll] at hs
    split at hs
    · exact absurd hs (by simp)
    · split at hs
      · obtain ⟨r, -, hs⟩ := Option.bind_eq_some_iff.mp hs
        obtain ⟨qp, -, rfl⟩ := Option.map_eq_some_iff.mp hs
        dsimp only
        split
        · exact le_rfl
        · exact Nat.le_succ _
      · exact absurd hs (by simp)

/-- A run asks only for the immediates of the receives still to be polled. -/
theorem Foretold.congr {held held' : ℕ → UInt32} {as : List Act}
    (heq : ∀ j ≥ d.taken, held j = held' j) (hm : Machine.Meets step (Foretold held) d as) :
    Machine.Meets step (Foretold held') d as := by
  induction as generalizing d with
  | nil => trivial
  | cons a as ih =>
    obtain ⟨hfirst, hrest⟩ := Machine.meets_cons.mp hm
    refine Machine.meets_cons.mpr ⟨?_, fun d₁ hs =>
      ih (fun j hj => heq j (le_trans (le_taken hs) hj)) (hrest d₁ hs)⟩
    cases a with
    | poll wc => exact fun d₁ hs hne => (heq _ le_rfl).symm.trans (hfirst d₁ hs hne)
    | _ => trivial

/-- The immediates that the buffer holds are those foretold. -/
theorem meets_foretold (d : State) (as : List Act) :
    Machine.Meets step (Foretold (heldImms d as)) d as := by
  induction as generalizing d with
  | nil => trivial
  | cons a as ih =>
    refine Machine.meets_cons.mpr ⟨?_, fun d₁ hs => ?_⟩
    · cases a with
      | poll wc =>
        intro d₁ hs hne
        have hs : step d (.poll wc) = some d₁ := hs
        rw [heldImms, hs]
        change noted d d₁ _ (.poll wc) d.taken = _
        rw [noted, if_neg hne, Function.update_self]
      | _ => trivial
    · refine Foretold.congr (fun j hj => ?_) (ih d₁)
      rw [heldImms, hs]
      cases a with
      | poll wc =>
        change _ = noted d d₁ _ (.poll wc) j
        rw [noted]
        split
        · rfl
        · rename_i hne
          -- the receive polled here is behind those the rest of the run asks for
          have := le_taken hs
          exact (Function.update_of_ne (by omega) _ _).symm
      | _ => rfl

end

/-- Every run of the driver is one of `Execution`. -/
theorem exists_view {d d' : State} (h : Initial d) {as : List Act}
    (hm : Machine.Meets step Fitting d as) (hclear : Machine.Meets step Clear d as)
    (hr : Machine.run step d as = some d') :
    ∃ xs, Inv (heldImms d as) d' xs ∧
      Machine.run Execution.step { conn := d.conn }
          (Machine.translate step (acts (heldImms d as)) d as) =
        some (view d' xs) := by
  set held := heldImms d as
  have hinit : ∃ xs, Inv held d xs ∧
      ({ conn := d.conn } : Execution.State) = view d xs := by
    refine ⟨[], h.inv _, ?_⟩
    rw [view, h.rq.log, h.executed, h.succeeded, List.drop_nil]
    rfl
  obtain ⟨s, hs, xs, hinv, rfl⟩ :=
    Machine.exists_run_of_meets
      (R := fun d s => ∃ xs, Inv held d xs ∧ s = view d xs)
      (fun d a d' s ⟨xs, h, hs⟩ hc hstep => by
        subst hs
        obtain ⟨xs', h', hrun⟩ := h.simulates hc.1 hc.2.1 hc.2.2 hstep
        exact ⟨_, hrun, xs', h', rfl⟩)
      hinit (hm.and (hclear.and (meets_foretold d as))) hr
  exact ⟨xs, hinv, hs⟩

/-- **A connection on the driver's queues is a connection of `Execution`**, over every run in
which the requests fit and the buffer of a poll does not hide a send: the library has the same
context, the NIC is as far, and a poll of the driver gives the oldest of the same completions,
or none where there is none.  A receive that came without an immediate has the one which the
buffer held. -/
theorem run_refines {d d' : State} (h : Initial d) {as : List Act}
    (hm : Machine.Meets step Fitting d as) (hclear : Machine.Meets step Clear d as)
    (hr : Machine.run step d as = some d') :
    ∃ s, Machine.run Execution.step { conn := d.conn }
          (Machine.translate step (acts (heldImms d as)) d as) =
        some s ∧
      s.conn = d'.conn ∧ s.recvq = d'.qp.rq.log.drop d'.received ∧ s.executed = d'.executed ∧
      s.succeeded = d'.succeeded ∧
      ∀ wc : WcBuf,
        s.cq = [] ∧ (ibvPollCq d'.ring.cq (some d'.qp) wc).1 = .empty ∨
        ∃ w ws qp cq wc', s.cq = w :: ws ∧
          ibvPollCq d'.ring.cq (some d'.qp) wc = (.ok, cq, wc', some qp) ∧
          wc'.wrId = w.wrId ∧ wc'.read.status = w.status ∧
          (Clear d' (.poll wc) → (w.recv = true → w.withImm = true) → Agrees wc'.read w) := by
  obtain ⟨xs, hinv, hs⟩ := exists_view h hm hclear hr
  refine ⟨view d' xs, hs, rfl, rfl, rfl, rfl, fun wc => ?_⟩
  rcases hinv.polls wc with ⟨rfl, hempty⟩ |
    ⟨o, w, xs', qp, cq, wc', rfl, hpolls, -, -, hagrees, -⟩
  · exact Or.inl ⟨rfl, hempty⟩
  · exact Or.inr ⟨w, xs'.map Prod.snd, qp, cq, wc', rfl, hpolls.eq, hpolls.told.2.2,
      hpolls.told.1, hagrees⟩

/-- A ring of eight blocks, two receives and four CQEs, on queue pair 7. -/
def device7 : State where
  ctx := { state := .ready, iqp := some ⟨0, 8, 64⟩, qpNum := 7 }
  qp :=
    { qpNum := 7, rsn := 7
      sq := SendQueue.queue8.sq
      rq := { wqeCnt := 2, maxPost := 2, maxGs := 1 } }
  ring := { cq := (createCq false 3).get (by decide) }

theorem device7_initial : Initial device7 where
  sq := SendQueue.queue8_initial
  rq := ⟨⟨1, by decide, rfl⟩, rfl, rfl, rfl, rfl, rfl⟩
  ring := ⟨⟨false, 3, by simp [device7]⟩, rfl, rfl⟩
  qpNum := rfl
  rsn _ := rfl
  executed := rfl
  succeeded := rfl
  received := rfl
  taken := rfl

/-- A write and three receives, of which the last is lost and the first has no immediate. -/
def thirdLost : List Act :=
  [.recv .imm, .call (.noop 1) (fun _ => false), .recv .imm, .recv .imm,
    .receive .success { sopDropQpn := 7, opOwn := 0x20 }, .poll { immData := 9 },
    .execute .success { sopDropQpn := 0x08000007, opOwn := 0 }]

theorem run_refines_lost : ∃ d s, Machine.run step device7 thirdLost = some d ∧
    Machine.run Execution.step { conn := device7.conn }
      [.recv .imm, .call (.noop 1), .recv .imm, .receive .success false 9, .poll,
        .execute .success] = some s ∧
    s.conn = d.conn ∧ d.ctx.lastRcvCompl = ntohl 9 ∧
    s.recvq = d.qp.rq.log.drop d.received ∧ s.recvq.length = 1 ∧ s.cq.map IbvWc.wrId = [1] := by
  have hr : Machine.run step device7 thirdLost = some _ := rfl
  obtain ⟨s, hs, hconn, hrecvq, -⟩ :=
    run_refines device7_initial (show Machine.Meets step Fitting device7 thirdLost by decide)
      (by decide) hr
  have hs' : Machine.run Execution.step { conn := device7.conn }
      [.recv .imm, .call (.noop 1), .recv .imm, .receive .success false 9, .poll,
        .execute .success] = some s := hs
  refine ⟨_, s, hr, hs', hconn, rfl, hrecvq, ?_, ?_⟩
  · rw [hrecvq]
    rfl
  · obtain rfl := Option.some_inj.mp hs'
    rfl

end Device

end Rdma
