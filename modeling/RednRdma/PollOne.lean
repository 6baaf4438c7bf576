/-
Polling in the driver (vendored `libmlx5`, `cq.c`).

`mlx5_poll_one` takes the next CQE, finds the queue pair it is for, and fills in the fields
of the caller's `struct ibv_wc` that the CQE says something about; the others keep what the
last completion left in them.  A CQE it can make nothing of is an error, and has been taken
off the queue all the same.

Scatter of small reads into the CQE, tag matching, time stamps and the extended fields of a
completion are left out.

* `mlx5PollOne`, `ibvPollCq` — the driver's functions, for a CQ of one queue pair;
* `WcBuf.read` — what the library looks at;
* `Reports` — a CQE stands for a request of one of the queues;
* `ReportsSend.pollResource`, `ReportsRecv.pollResource` — what polling such a CQE gives.
-/
import RednRdma.CqRing
import RednRdma.RecvQueue
import RednRdma.Segment

namespace Rdma

/-- `enum ibv_wc_status`, the values the driver gives. -/
inductive WcCode
  | success | locLenErr | locQpOpErr | locProtErr | wrFlushErr | mwBindErr | badRespErr
  | locAccessErr | remInvReqErr | remAccessErr | remOpErr | retryExcErr | rnrRetryExcErr
  | remAbortErr | generalErr
  deriving Repr, DecidableEq

/-- `enum ibv_wc_opcode`, the values the driver gives. -/
inductive WcOpcode
  | send | rdmaWrite | rdmaRead | compSwap | fetchAdd | maskedCompSwap | maskedFetchAdd | tso
  | recv | recvRdmaWithImm
  deriving Repr, DecidableEq

/-- `opcode & IBV_WC_RECV`. -/
def WcOpcode.isRecv : WcOpcode → Bool
  | .recv | .recvRdmaWithImm => true
  | _ => false

/-- `struct ibv_wc`, as the caller's memory. -/
structure WcBuf where
  wrId : UInt64 := 0
  status : WcCode := .success
  opcode : WcOpcode := .send
  /-- `IBV_WC_WITH_IMM` and `IBV_WC_WITH_INV` of `wc_flags`. -/
  withImm : Bool := false
  withInv : Bool := false
  immData : UInt32 := 0
  byteLen : UInt32 := 0
  qpNum : UInt32 := 0
  deriving Repr, DecidableEq

/-- What the library looks at. -/
def WcBuf.read (wc : WcBuf) : IbvWc where
  wrId := wc.wrId
  status := if wc.status = .success then .success else .error
  recv := wc.opcode.isRecv
  withImm := wc.withImm
  immData := wc.immData
  qpNum := wc.qpNum

abbrev MLX5_CQE_REQ : UInt8 := 0
abbrev MLX5_CQE_RESP_WR_IMM : UInt8 := 1
abbrev MLX5_CQE_RESP_SEND : UInt8 := 2
abbrev MLX5_CQE_RESP_SEND_IMM : UInt8 := 3
abbrev MLX5_CQE_RESP_SEND_INV : UInt8 := 4
abbrev MLX5_CQE_NO_PACKET : UInt8 := 6
abbrev MLX5_CQE_REQ_ERR : UInt8 := 13
abbrev MLX5_CQE_RESP_ERR : UInt8 := 14

/-- `is_requestor`. -/
def isRequestor (opcode : UInt8) : Bool := opcode = MLX5_CQE_REQ ∨ opcode = MLX5_CQE_REQ_ERR

/-- `is_responder`. -/
def isResponder (opcode : UInt8) : Bool :=
  opcode = MLX5_CQE_RESP_WR_IMM ∨ opcode = MLX5_CQE_RESP_SEND ∨
    opcode = MLX5_CQE_RESP_SEND_IMM ∨ opcode = MLX5_CQE_RESP_SEND_INV ∨
    opcode = MLX5_CQE_RESP_ERR ∨ opcode = MLX5_CQE_NO_PACKET

/-- The opcode of a completion, by that of the WQE: `none` where the driver has no case for
it.  `MLX5_OPCODE_UMR` is not asked for. -/
def sendOpcode (sop : UInt32) : Option WcOpcode :=
  [(0x08, .rdmaWrite), (0x09, .rdmaWrite), (0x01, .send), (0x0a, .send), (0x0b, .send),
    (0x0e, .tso), (0x10, .rdmaRead), (0x11, .compSwap), (0x12, .fetchAdd),
    (0x14, .maskedCompSwap), (0x15, .maskedFetchAdd)].lookup sop

/-- `handle_good_req`. -/
def handleGoodReq (wc : WcBuf) (cqe64 : Cqe64) : WcBuf :=
  let sop := cqe64.sopDropQpn >>> 24
  { wc with
    opcode := (sendOpcode sop).getD wc.opcode
    withImm := wc.withImm || sop = 0x09 || sop = 0x0b
    byteLen :=
      if sop = 0x10 ∨ sop = 0x14 ∨ sop = 0x15 then cqe64.byteCnt
      else if sop = 0x11 ∨ sop = 0x12 then 8
      else wc.byteLen }

/-- The end of `handle_responder`, on a queue pair with its own receive queue. -/
def handleResponder (wc : WcBuf) (cqe64 : Cqe64) : WcBuf :=
  let wc := { wc with byteLen := cqe64.byteCnt, status := .success }
  if cqe64.opcode = MLX5_CQE_RESP_WR_IMM then
    { wc with opcode := .recvRdmaWithImm, withImm := true, immData := cqe64.immInvalPkey }
  else if cqe64.opcode = MLX5_CQE_RESP_SEND then { wc with opcode := .recv }
  else if cqe64.opcode = MLX5_CQE_RESP_SEND_IMM then
    { wc with opcode := .recv, withImm := true, immData := cqe64.immInvalPkey }
  else { wc with opcode := .recv, withInv := true, immData := ntohl cqe64.immInvalPkey }

/-- What the CQE of a receive that succeeded puts in `imm_data`, if anything: the key that
was invalidated is in the same place of the CQE as an immediate. -/
def recvImm (cqe64 : Cqe64) : Option UInt32 :=
  if cqe64.opcode = MLX5_CQE_RESP_WR_IMM ∨ cqe64.opcode = MLX5_CQE_RESP_SEND_IMM then
    some cqe64.immInvalPkey
  else if cqe64.opcode = MLX5_CQE_RESP_SEND_INV then some (ntohl cqe64.immInvalPkey)
  else none

/-- The opcodes of the CQEs of receives that succeed. -/
def recvOpcodes : List UInt8 :=
  [MLX5_CQE_RESP_WR_IMM, MLX5_CQE_RESP_SEND, MLX5_CQE_RESP_SEND_IMM, MLX5_CQE_RESP_SEND_INV]

theorem handleResponder_eq {cqe64 : Cqe64} (h : cqe64.opcode ∈ recvOpcodes) (wc : WcBuf) :
    (handleResponder wc cqe64).status = .success ∧
      (handleResponder wc cqe64).opcode.isRecv = true ∧
      (handleResponder wc cqe64).immData = (recvImm cqe64).getD wc.immData ∧
      (handleResponder wc cqe64).qpNum = wc.qpNum := by
  simp only [recvOpcodes, List.mem_cons, List.not_mem_nil, or_false] at h
  rcases h with h | h | h | h
  all_goals
    simp only [handleResponder, recvImm, h]
    exact ⟨rfl, rfl, rfl, rfl⟩

/-- Only the CQE of a plain send has no immediate. -/
theorem opcode_of_recvImm {cqe64 : Cqe64} (h : cqe64.opcode ∈ recvOpcodes)
    (hnone : recvImm cqe64 = none) : cqe64.opcode = MLX5_CQE_RESP_SEND := by
  simp only [recvOpcodes, List.mem_cons, List.not_mem_nil, or_false] at h
  rcases h with h | h | h | h
  · simp [recvImm, h] at hnone
  · exact h
  · simp [recvImm, h] at hnone
  · rw [recvImm, h, if_neg (by decide), if_pos rfl] at hnone
    exact absurd hnone (by simp)

/-- `mlx5_handle_error_cqe`. -/
def mlx5HandleErrorCqe (syndrome : UInt8) : WcCode :=
  ([(0x01, .locLenErr), (0x02, .locQpOpErr), (0x04, .locProtErr), (0x05, .wrFlushErr),
    (0x06, .mwBindErr), (0x10, .badRespErr), (0x11, .locAccessErr), (0x12, .remInvReqErr),
    (0x13, .remAccessErr), (0x14, .remOpErr), (0x15, .retryExcErr), (0x16, .rnrRetryExcErr),
    (0x22, .remAbortErr)].lookup syndrome).getD .generalErr

/-- `mlx5_set_bad_wc_opcode`.  A failed receive keeps the opcode that was there: its cases
are those of the receives that succeed. -/
def mlx5SetBadWcOpcode (wc : WcBuf) (cqe64 : Cqe64) (isReq : Bool) : WcBuf :=
  if isReq then { wc with opcode := (sendOpcode (cqe64.sopDropQpn >>> 24)).getD wc.opcode }
  else wc

/-- `struct mlx5_qp`. -/
structure QueuePair where
  qpNum : UInt32
  /-- `rsc.rsn`: the user index, or the number. -/
  rsn : UInt32
  sq : SendQueue
  rq : RecvQueue

/-- What `mlx5_poll_one` returns. -/
inductive PollStatus
  | ok | empty | pollErr
  deriving Repr, DecidableEq

/-- The queue pair a CQE is for: `mlx5_find_uidx`, or `mlx5_find_rsc`.  Without shared
receive queues, `mlx5_find_srq` finds nothing. -/
def findResource (cqeVersion : Bool) (rsc : Option QueuePair) (cqe64 : Cqe64) :
    Option QueuePair :=
  let srqnUidx := cqe64.srqnUidx &&& 0xffffff
  if cqeVersion then rsc.filter fun qp => qp.rsn = srqnUidx
  else if isResponder cqe64.opcode ∧ srqnUidx ≠ 0 then none
  else rsc.filter fun qp => qp.rsn = cqe64.sopDropQpn &&& 0xffffff

/-- `mlx5_poll_one`, behind the lookup. -/
def pollResource (wc : WcBuf) (cqe64 : Cqe64) (qp : QueuePair) :
    PollStatus × WcBuf × QueuePair :=
  let wc := { wc with qpNum := cqe64.sopDropQpn &&& 0xffffff }
  if cqe64.opcode = MLX5_CQE_REQ then
    let (wrId, sq) := qp.sq.takeCompletion cqe64.wqeCounter
    (.ok, { handleGoodReq wc cqe64 with wrId, status := .success }, { qp with sq })
  else if cqe64.opcode = MLX5_CQE_REQ_ERR then
    let (wrId, sq) := qp.sq.takeCompletion cqe64.wqeCounter
    let wc := { wc with status := mlx5HandleErrorCqe cqe64.syndrome }
    (.ok, { mlx5SetBadWcOpcode wc cqe64 true with wrId }, { qp with sq })
  else if cqe64.opcode = MLX5_CQE_RESP_ERR then
    let (wrId, rq) := qp.rq.takeReceive
    let wc := { wc with status := mlx5HandleErrorCqe cqe64.syndrome }
    (.ok, { mlx5SetBadWcOpcode wc cqe64 false with wrId }, { qp with rq })
  else if cqe64.opcode = MLX5_CQE_NO_PACKET then (.pollErr, wc, qp)
  else
    let (wrId, rq) := qp.rq.takeReceive
    (.ok, { handleResponder wc cqe64 with wrId }, { qp with rq })

/-- `mlx5_poll_one`, on a CQ whose context knows `rsc`. -/
def mlx5PollOne (cq : Cq) (rsc : Option QueuePair) (wc : WcBuf) :
    PollStatus × Cq × WcBuf × Option QueuePair :=
  match cq.getNextCqe with
  | none => (.empty, cq, wc, rsc)
  | some cqe64 =>
    let cq := { cq with consIndex := cq.consIndex + 1 }
    let wc := { wc with withImm := false, withInv := false }
    if isRequestor cqe64.opcode ∨ isResponder cqe64.opcode then
      match findResource cq.cqeVersion rsc cqe64 with
      | none => (.pollErr, cq, wc, rsc)
      | some qp =>
        let (status, wc, qp) := pollResource wc cqe64 qp
        (status, cq, wc, some qp)
    else (.pollErr, cq, wc, rsc)

/-- `ibv_poll_cq(cq, 1, wc)`: what the caller's loop goes on for is `npolled`, or the
error. -/
def ibvPollCq (cq : Cq) (rsc : Option QueuePair) (wc : WcBuf) :
    PollStatus × Cq × WcBuf × Option QueuePair :=
  let (status, cq, wc, rsc) := mlx5PollOne cq rsc wc
  (status, cq.updateConsIndex, wc, rsc)

/-! ### The completion of a request -/

/-- What the library does with a completion depends on its status, its queue pair, its id,
whether it is a receive, and then on the immediate. -/
structure Agrees (wc w : IbvWc) : Prop where
  status : wc.status = w.status
  qpNum : wc.qpNum = w.qpNum
  wrId : wc.wrId = w.wrId
  recv : w.status = .success → wc.recv = w.recv
  immData : w.status = .success → w.recv = true → wc.immData = w.immData

theorem Agrees.pollCq {wc w : IbvWc} (h : Agrees wc w) (ctx : ConnContext) :
    pollCq wc ctx = pollCq w ctx := by
  rw [Rdma.pollCq, Rdma.pollCq, h.status]
  cases hs : w.status with
  | error => rfl
  | success =>
    have hreport : wc.report = w.report := by
      rw [IbvWc.report, IbvWc.report, h.wrId, h.recv hs]
    have hrecv := h.recv hs
    simp only [hreport, onCompletion, hrecv]
    by_cases hr : w.recv = true
    · simp only [h.immData hs hr]
    · simp only [if_neg hr]

/-- The request a CQE is for: the `k`-th posted on the send queue, or the `j`-th receive. -/
inductive Origin
  | send (k : ℕ)
  | recv (j : ℕ)
  deriving Repr, DecidableEq

/-- The CQE of a request that was posted, and what the library is to be told of it. -/
structure ReportsSend (qp : QueuePair) (c : Cqe64) (k : ℕ) (w : IbvWc) : Prop where
  counter : c.wqeCounter = qp.sq.counter k
  posted : ∃ p, qp.sq.qp.log[k]? = some p ∧ w.wrId = p.data.wrId ∧
    c.sopDropQpn >>> 24 = UInt32.ofNat (mlx5IbOpcode p.data.opcode)
  recv : w.recv = false
  outcome : w.status = .success ∧ c.opcode = MLX5_CQE_REQ ∨
    w.status = .error ∧ c.opcode = MLX5_CQE_REQ_ERR

/-- The CQE of a receive.  The library is told an immediate all the same when the CQE has
none: what the buffer holds when the receive is polled, here `held`. -/
structure ReportsRecv (held : ℕ → UInt32) (qp : QueuePair) (c : Cqe64) (j : ℕ) (w : IbvWc) :
    Prop where
  posted : ∃ r, qp.rq.log[j]? = some r ∧ w.wrId = r.wrId
  recv : w.recv = true
  imm : w.withImm = true → c.opcode ≠ MLX5_CQE_RESP_SEND
  outcome : w.status = .success ∧ c.opcode ∈ recvOpcodes ∧
      w.immData = (recvImm c).getD (held j) ∨
    w.status = .error ∧ c.opcode = MLX5_CQE_RESP_ERR

/-- The CQE is for the queue pair and the request, and has what the library is to be told
of it. -/
structure Reports (held : ℕ → UInt32) (cqeVersion : Bool) (qp : QueuePair) (c : Cqe64)
    (o : Origin) (w : IbvWc) : Prop where
  found : findResource cqeVersion (some qp) c = some qp
  qpNum : c.sopDropQpn &&& 0xffffff = w.qpNum
  num : w.qpNum = qp.qpNum
  request : match o with
    | .send k => ReportsSend qp c k w
    | .recv j => ReportsRecv held qp c j w

theorem lookup_cases {α β : Type} [BEq α] [LawfulBEq α] {l : List (α × β)} {a : α} {b : β}
    {P : β → Prop} (hl : ∀ x ∈ l, P x.2) (h : l.lookup a = some b) : P b := by
  obtain ⟨l₁, l₂, rfl, -⟩ := List.lookup_eq_some_iff.mp h
  exact hl (a, b) (by simp)

theorem sendOpcode_not_recv {sop : UInt32} {op : WcOpcode} (h : sendOpcode sop = some op) :
    op.isRecv = false :=
  lookup_cases (P := fun op => op.isRecv = false) (by decide) h

theorem mlx5HandleErrorCqe_ne_success (syndrome : UInt8) :
    mlx5HandleErrorCqe syndrome ≠ .success := by
  rw [mlx5HandleErrorCqe]
  cases h : List.lookup syndrome _ with
  | none => simp
  | some code => exact lookup_cases (P := fun code => code ≠ .success) (by decide) h

section

variable {held : ℕ → UInt32} {cqeVersion : Bool} {qp : QueuePair} {c : Cqe64} {w : IbvWc}

/-- A queue pair is found by its number or user index alone. -/
theorem findResource_congr {qp' : QueuePair} (hrsn : qp'.rsn = qp.rsn)
    (h : findResource cqeVersion (some qp) c = some qp) :
    findResource cqeVersion (some qp') c = some qp' := by
  unfold findResource at h ⊢
  dsimp only at h ⊢
  split at h
  · rename_i hver
    rw [if_pos hver]
    simp only [Option.filter_some, hrsn] at h ⊢
    split at h
    · rename_i hfound
      rw [if_pos hfound]
    · exact absurd h (by simp)
  · rename_i hver
    rw [if_neg hver]
    split at h
    · exact absurd h (by simp)
    · rename_i hsrq
      rw [if_neg hsrq]
      simp only [Option.filter_some, hrsn] at h ⊢
      split at h
      · rename_i hfound
        rw [if_pos hfound]
      · exact absurd h (by simp)

/-! The branches of `pollResource`. -/

theorem pollResource_req (h : c.opcode = MLX5_CQE_REQ) (wc : WcBuf) :
    pollResource wc c qp =
      (.ok, { handleGoodReq { wc with qpNum := c.sopDropQpn &&& 0xffffff } c with
          wrId := (qp.sq.takeCompletion c.wqeCounter).1, status := .success },
        { qp with sq := (qp.sq.takeCompletion c.wqeCounter).2 }) := by
  rw [pollResource, if_pos h]

theorem pollResource_reqErr (h : c.opcode = MLX5_CQE_REQ_ERR) (wc : WcBuf) :
    pollResource wc c qp =
      (.ok, { mlx5SetBadWcOpcode { wc with
            qpNum := c.sopDropQpn &&& 0xffffff
            status := mlx5HandleErrorCqe c.syndrome } c true with
          wrId := (qp.sq.takeCompletion c.wqeCounter).1 },
        { qp with sq := (qp.sq.takeCompletion c.wqeCounter).2 }) := by
  have hne : c.opcode ≠ MLX5_CQE_REQ := by
    rw [h]
    decide
  rw [pollResource, if_neg hne, if_pos h]

theorem pollResource_respErr (h : c.opcode = MLX5_CQE_RESP_ERR) (wc : WcBuf) :
    pollResource wc c qp =
      (.ok, { wc with
          qpNum := c.sopDropQpn &&& 0xffffff
          status := mlx5HandleErrorCqe c.syndrome
          wrId := qp.rq.takeReceive.1 }, { qp with rq := qp.rq.takeReceive.2 }) := by
  have hreq : c.opcode ≠ MLX5_CQE_REQ := by
    rw [h]
    decide
  have hreqErr : c.opcode ≠ MLX5_CQE_REQ_ERR := by
    rw [h]
    decide
  rw [pollResource, if_neg hreq, if_neg hreqErr, if_pos h]
  rfl

/-- The CQE is that of a receive that succeeded. -/
theorem pollResource_recv (h : c.opcode ∈ recvOpcodes) (wc : WcBuf) :
    pollResource wc c qp =
      (.ok, { handleResponder { wc with qpNum := c.sopDropQpn &&& 0xffffff } c with
          wrId := qp.rq.takeReceive.1 }, { qp with rq := qp.rq.takeReceive.2 }) := by
  have hother : c.opcode ≠ MLX5_CQE_REQ ∧ c.opcode ≠ MLX5_CQE_REQ_ERR ∧
      c.opcode ≠ MLX5_CQE_RESP_ERR ∧ c.opcode ≠ MLX5_CQE_NO_PACKET := by
    simp only [recvOpcodes, List.mem_cons, List.not_mem_nil, or_false] at h
    rcases h with h | h | h | h <;> rw [h] <;> decide
  rw [pollResource, if_neg hother.1, if_neg hother.2.1, if_neg hother.2.2.1,
    if_neg hother.2.2.2]

/-- The CQE of a request that has not been polled is polled as its completion.  One that
succeeded and for whose opcode the driver has no case leaves the opcode of the buffer. -/
theorem ReportsSend.pollResource {retired k : ℕ} (h : ReportsSend qp c k w)
    (hqpn : c.sopDropQpn &&& 0xffffff = w.qpNum) (ht : qp.sq.Tracks retired 0)
    (hk : retired ≤ k) (wc : WcBuf) :
    ∃ wc', Rdma.pollResource wc c qp =
        (.ok, wc', { qp with sq := (qp.sq.takeCompletion (qp.sq.counter k)).2 }) ∧
      wc'.read.status = w.status ∧ wc'.read.qpNum = w.qpNum ∧ wc'.read.wrId = w.wrId ∧
      wc'.opcode = (sendOpcode (c.sopDropQpn >>> 24)).getD wc.opcode ∧
      wc'.immData = wc.immData := by
  obtain ⟨p, hp, hid, -⟩ := h.posted
  obtain ⟨hwr, -⟩ := ht.takeCompletion hk hp
  rw [← h.counter] at hwr ⊢
  rcases h.outcome with ⟨hst, hop⟩ | ⟨hst, hop⟩
  · refine ⟨_, pollResource_req hop wc, ?_, hqpn, hwr.trans hid.symm, rfl, rfl⟩
    rw [hst]
    rfl
  · refine ⟨_, pollResource_reqErr hop wc, ?_, hqpn, hwr.trans hid.symm, rfl, rfl⟩
    rw [hst]
    exact if_neg (mlx5HandleErrorCqe_ne_success c.syndrome)

/-- The completion of a send does not look like a receive for what the buffer held. -/
def SendTold (c : Cqe64) (wc : WcBuf) : Prop :=
  c.opcode = MLX5_CQE_REQ → sendOpcode (c.sopDropQpn >>> 24) = none → wc.opcode.isRecv = false

instance (c : Cqe64) (wc : WcBuf) : Decidable (SendTold c wc) :=
  inferInstanceAs (Decidable (_ → _ → _))

theorem ReportsSend.agrees {k : ℕ} {wc wc' : WcBuf} (h : ReportsSend qp c k w)
    (htold : SendTold c wc) (hstatus : wc'.read.status = w.status) (hqpn : wc'.read.qpNum = w.qpNum)
    (hid : wc'.read.wrId = w.wrId)
    (hop : wc'.opcode = (sendOpcode (c.sopDropQpn >>> 24)).getD wc.opcode) :
    Agrees wc'.read w := by
  refine ⟨hstatus, hqpn, hid, ?_, ?_⟩
  · intro hs
    have hreq : c.opcode = MLX5_CQE_REQ := by
      rcases h.outcome with ⟨-, hreq⟩ | ⟨hst, -⟩
      · exact hreq
      · exact absurd (hs.symm.trans hst) (by simp)
    rw [h.recv, WcBuf.read, hop]
    cases hsop : sendOpcode (c.sopDropQpn >>> 24) with
    | none => exact htold hreq hsop
    | some op => exact sendOpcode_not_recv hsop
  · intro _ hr
    rw [h.recv] at hr
    exact absurd hr (by simp)

/-- The CQE of the oldest receive is polled as its completion.  One that succeeded without an
immediate leaves that of the buffer. -/
theorem ReportsRecv.pollResource {taken : ℕ} (h : ReportsRecv held qp c taken w)
    (hqpn : c.sopDropQpn &&& 0xffffff = w.qpNum) (ht : qp.rq.Tracks taken 0) (wc : WcBuf) :
    ∃ wc', Rdma.pollResource wc c qp = (.ok, wc', { qp with rq := qp.rq.takeReceive.2 }) ∧
      wc'.read.status = w.status ∧ wc'.read.qpNum = w.qpNum ∧ wc'.read.wrId = w.wrId ∧
      (w.status = .success →
        wc'.opcode.isRecv = true ∧ wc'.immData = (recvImm c).getD wc.immData) := by
  obtain ⟨r, hr, hid⟩ := h.posted
  obtain ⟨hwr, -⟩ := ht.takeReceive hr
  rcases h.outcome with ⟨hst, hop, -⟩ | ⟨hst, hop⟩
  · obtain ⟨hsucc, hrecv, himm, hnum⟩ :=
      handleResponder_eq hop { wc with qpNum := c.sopDropQpn &&& 0xffffff }
    refine ⟨_, pollResource_recv hop wc, ?_, hnum.trans hqpn, hwr.trans hid.symm,
      fun _ => ⟨hrecv, himm⟩⟩
    rw [hst, WcBuf.read]
    exact if_pos hsucc
  · refine ⟨_, pollResource_respErr hop wc, ?_, hqpn, hwr.trans hid.symm,
      fun hsucc => absurd (hsucc.symm.trans hst) (by simp)⟩
    rw [hst]
    exact if_neg (mlx5HandleErrorCqe_ne_success c.syndrome)

/-- The buffer holds what was foretold, when the receive `j` has no immediate. -/
def RecvTold (held : ℕ → UInt32) (j : ℕ) (c : Cqe64) (wc : WcBuf) : Prop :=
  c.opcode = MLX5_CQE_RESP_SEND → held j = wc.immData

instance (held : ℕ → UInt32) (j : ℕ) (c : Cqe64) (wc : WcBuf) :
    Decidable (RecvTold held j c wc) :=
  inferInstanceAs (Decidable (_ → _))

theorem ReportsRecv.agrees {j : ℕ} {wc wc' : WcBuf} (h : ReportsRecv held qp c j w)
    (htold : RecvTold held j c wc) (hstatus : wc'.read.status = w.status)
    (hqpn : wc'.read.qpNum = w.qpNum) (hid : wc'.read.wrId = w.wrId)
    (hop : w.status = .success →
      wc'.opcode.isRecv = true ∧ wc'.immData = (recvImm c).getD wc.immData) :
    Agrees wc'.read w := by
  refine ⟨hstatus, hqpn, hid, fun hs => (hop hs).1.trans h.recv.symm, fun hs _ => ?_⟩
  change wc'.immData = _
  rw [(hop hs).2]
  rcases h.outcome with ⟨-, hkind, himm⟩ | ⟨hst, -⟩
  · rw [himm]
    cases hc : recvImm c with
    | none => exact (htold (opcode_of_recvImm hkind hc)).symm
    | some imm => rfl
  · exact absurd (hs.symm.trans hst) (by simp)

/-- `ibv_poll_cq` takes the CQE off the queue and looks up its queue pair. -/
theorem ibvPollCq_eq {cq : Cq} (hnext : cq.getNextCqe = some c)
    (hkind : isRequestor c.opcode = true ∨ isResponder c.opcode = true)
    (hfound : findResource cq.cqeVersion (some qp) c = some qp) {wc wc' : WcBuf}
    {qp' : QueuePair}
    (hpoll : pollResource { wc with withImm := false, withInv := false } c qp = (.ok, wc', qp')) :
    ibvPollCq cq (some qp) wc =
      (.ok, { cq with consIndex := cq.consIndex + 1 : Cq }.updateConsIndex, wc', some qp') := by
  rw [ibvPollCq, mlx5PollOne, hnext]
  simp only [if_pos hkind, hfound, hpoll]

end

end Rdma
