/-
The wrapper calls, asynchronous and synchronous (`verbs.h`, `verbs.c`).

`IBV_WRAPPER_FUNC(x)` makes a pair of calls for each operation.  `IBV_WRAPPER_x_SYNC` waits
for the batch it posts, `IBV_WRAPPER_x_ASYNC` is declared to return the id to wait for; but
its body ends without a `return`, and the caller gets what the function it called happened
to leave in the return register.

* `LiveConn` — a connection with what is left of its send queue;
* `postable_iff` — when a batch is posted at all;
* `async_await_iff` — awaiting what the asynchronous call returned is the synchronous
  call exactly when that happens to be the id of the last request;
* `lost_id` — a batch whose id is lost.
-/
import RednRdma.Batch
import RednRdma.Completion
import RednRdma.SendQueue

namespace Rdma

/-! ### The room in the send queue -/

/-- A connection, and how many requests its send queue takes until `mlx5_wq_overflow` finds
it full: `max_post - (head - tail)`. -/
structure LiveConn where
  conn : Conn
  room : ℕ

namespace LiveConn

/-- `submit`, on a queue that may be full: the driver returns `ENOMEM` for the first request
that finds no room, which is the end of it as with any other error. -/
def submit (c : LiveConn) (reason : String) (wrs : List WorkRequest) : Except Stop LiveConn := do
  let conn ← Rdma.submit c.conn reason wrs
  dieIf (c.room < wrs.length) reason
  return { conn, room := c.room - wrs.length }

/-- `send_rdma_operation`. -/
def sendRdmaOperation (c : LiveConn) (chain : List RdmaMeta) (localId remoteId : ℤ)
    (opcode : WrOpcode) : Except Stop (UInt32 × LiveConn) := do
  let (localMr, remoteMr) ← Batch.regions c.conn.ctx localId remoteId opcode
  let wrs ← chain.mapM (rdmaRequest localMr remoteMr opcode)
  let (wrs, ctx) := takeIds c.conn.ctx wrs
  let last ← deref wrs.getLast?
  let c ← submit { c with conn := { c.conn with ctx := countOps ctx wrs.length } }
    "failed to post rdma operation" wrs
  return (last.wrId.toUInt32, c)

theorem submit_eq_ok_iff {c c' : LiveConn} {reason : String} {wrs : List WorkRequest} :
    c.submit reason wrs = .ok c' ↔ Rdma.submit c.conn reason wrs = .ok c'.conn ∧
      wrs.length ≤ c.room ∧ c'.room = c.room - wrs.length := by
  rw [submit]
  constructor
  · intro h
    obtain ⟨conn, hconn, h⟩ := Except.bind_eq_ok.mp h
    obtain ⟨_, hroom, h⟩ := Except.bind_eq_ok.mp h
    obtain rfl := Except.pure_eq_ok.mp h
    rw [dieIf_eq_ok, decide_eq_false_iff_not, Nat.not_lt] at hroom
    exact ⟨hconn, hroom, rfl⟩
  · rintro ⟨hconn, hroom, hleft⟩
    refine Except.bind_eq_ok.mpr ⟨c'.conn, hconn, ?_⟩
    rw [decide_eq_false (Nat.not_lt.mpr hroom), ← hleft]
    rfl

/-- The call posts what it would on a queue with room for it, if there is. -/
theorem sendRdmaOperation_eq_ok_iff {c c' : LiveConn} {chain : List RdmaMeta}
    {localId remoteId : ℤ} {opcode : WrOpcode} {wrId : UInt32} :
    c.sendRdmaOperation chain localId remoteId opcode = .ok (wrId, c') ↔
      Rdma.sendRdmaOperation c.conn chain localId remoteId opcode = .ok (wrId, c'.conn) ∧
        chain.length ≤ c.room ∧ c'.room = c.room - chain.length := by
  rw [sendRdmaOperation, Batch.sendRdmaOperation_eq]
  constructor
  · intro h
    obtain ⟨mrs, hmrs, h⟩ := Except.bind_eq_ok.mp h
    obtain ⟨wrs, hwrs, h⟩ := Except.bind_eq_ok.mp h
    obtain ⟨last, hlast, h⟩ := Except.bind_eq_ok.mp h
    obtain ⟨c₁, hsubmit, h⟩ := Except.bind_eq_ok.mp h
    obtain ⟨rfl, rfl⟩ := Prod.mk.inj (Except.pure_eq_ok.mp h)
    obtain ⟨hconn, hroom, hleft⟩ := submit_eq_ok_iff.mp hsubmit
    rw [takeIds_length, (Except.mapM_eq_ok hwrs).1] at hroom hleft
    refine ⟨?_, hroom, hleft⟩
    simp only [hmrs, hwrs, hlast, hconn, bind, Except.bind]
    rfl
  · rintro ⟨h, hroom, hleft⟩
    obtain ⟨mrs, hmrs, h⟩ := Except.bind_eq_ok.mp h
    obtain ⟨wrs, hwrs, h⟩ := Except.bind_eq_ok.mp h
    obtain ⟨last, hlast, h⟩ := Except.bind_eq_ok.mp h
    obtain ⟨conn, hconn, h⟩ := Except.bind_eq_ok.mp h
    obtain ⟨rfl, rfl⟩ := Prod.mk.inj (Except.pure_eq_ok.mp h)
    have hlen : (takeIds c.conn.ctx wrs).1.length = chain.length := by
      rw [takeIds_length, (Except.mapM_eq_ok hwrs).1]
    rw [← hlen] at hroom hleft
    have hsubmit := (submit_eq_ok_iff (c := { c with conn := { c.conn with
      ctx := countOps (takeIds c.conn.ctx wrs).2 (takeIds c.conn.ctx wrs).1.length } })).mpr
      ⟨hconn, hroom, hleft⟩
    simp only [hmrs, hwrs, hlast, hsubmit, bind, Except.bind]
    rfl

end LiveConn

/-- All of a list is accepted when each of the requests is taken and there is room. -/
theorem SendQueue.length_le_accept_iff {cap : ℕ} {takes : WorkRequest → Bool} (waiting nreq : ℕ)
    (wrs : List WorkRequest) :
    wrs.length ≤ (accept cap takes (fun _ => false) waiting nreq wrs).length ↔
      (∀ wr ∈ wrs, takes wr = true) ∧ wrs.length ≤ cap - waiting := by
  induction wrs generalizing waiting nreq with
  | nil => simp
  | cons wr wrs ih =>
    have hrest := ih (waiting + 1) (nreq + 1)
    rw [accept, List.forall_mem_cons, List.length_cons]
    split
    · rename_i hok
      rw [List.length_cons, Nat.add_le_add_iff_right, hrest, and_assoc,
        and_iff_right hok.2.2]
      refine and_congr_right fun _ => ?_
      omega
    · rename_i hno
      constructor
      · intro hle
        simp at hle
      · rintro ⟨⟨htakes, -⟩, hlen⟩
        exact absurd ⟨by omega, rfl, htakes⟩ hno

/-- The driver's loop gets to the end of a list exactly when it takes each of the requests and
`max_post` less what has not been polled is room for all of them. -/
theorem SendQueue.Tracks.postSend_eq_nil_iff {q : SendQueue} {retired : ℕ}
    {wrs : List WorkRequest} (h : q.Tracks retired 0) (hfits : ∀ wr ∈ wrs, q.Fits wr) :
    (q.postSend (fun _ => false) wrs).2 = [] ↔
      q.qp.postList wrs ≠ none ∧ wrs.length ≤ q.maxPost.toNat - (q.posted - retired) := by
  obtain ⟨q', hloop, -⟩ := h.postLoop (fun _ => false) hfits
  -- what the loop returns is what it has not accepted
  have hbad : (q.postSend (fun _ => false) wrs).2 =
      wrs.drop (accept q.maxPost.toNat q.takes (fun _ => false) (q.posted - retired) 0
        wrs).length := by
    rw [SendQueue.postSend, hloop]
    dsimp only
    split <;> rfl
  rw [hbad, List.drop_eq_nil_iff, length_le_accept_iff, DriverQp.postList_ne_none_iff]
  simp only [takes, Option.isSome_iff_ne_none]

/-! ### When a batch is posted -/

/-- The regions are ready and registered, the connection has its queue with room for the
batch, and the driver takes the opcode and as many SGEs as each element has. -/
structure Postable (c : LiveConn) (opcode : WrOpcode) (chain : List RdmaMeta)
    (localId remoteId : ℤ) : Prop where
  remoteId_le : remoteId ≤ MAX_MR
  localReady : readAt c.conn.ctx.localMrReady localId = .ok true
  remoteReady : opOneSided opcode → readAt c.conn.ctx.remoteMrReady remoteId = .ok true
  localMr : ∃ mr, readAt c.conn.ctx.localMr localId = .ok mr ∧
    ∀ m ∈ chain, m.sgeEntries ≠ [] → mr ≠ none
  remoteMr : opOneSided opcode → ∃ mr, readAt c.conn.ctx.remoteMr remoteId = .ok (some mr)
  chain_ne_nil : chain ≠ []
  queue : c.conn.ctx.iqp ≠ none
  room : chain.length ≤ c.room
  supported : driverHeader opcode ≠ none
  fits : ∀ m ∈ chain, m.sgeEntries.length ≤ c.conn.qp.maxGs

theorem exists_withLkey_iff {mr : Option IbvMr} {sges : List Sge} :
    (∃ sges', withLkey mr sges = .ok sges') ↔ (sges ≠ [] → mr ≠ none) := by
  cases sges with
  | nil => simp [withLkey]
  | cons sge sges =>
    cases mr with
    | none => simp [withLkey, deref, bind, Except.bind]
    | some mr => simp [withLkey, deref, bind, Except.bind, pure, Except.pure]

theorem exists_rdmaTarget_iff {opcode : WrOpcode} {mr : Option MrContext} {m : RdmaMeta} :
    (∃ target, rdmaTarget opcode mr m = .ok target) ↔ (opOneSided opcode → mr ≠ none) := by
  by_cases hop : opOneSided opcode = true
  · cases mr with
    | none => simp [rdmaTarget, hop, deref, bind, Except.bind]
    | some mr => simp [rdmaTarget, hop, deref, bind, Except.bind, pure, Except.pure]
  · simp [rdmaTarget, hop, pure, Except.pure]

theorem exists_rdmaRequest_iff {opcode : WrOpcode} {localMr : Option IbvMr}
    {remoteMr : Option MrContext} {m : RdmaMeta} :
    (∃ req, rdmaRequest localMr remoteMr opcode m = .ok req) ↔
      (m.sgeEntries ≠ [] → localMr ≠ none) ∧ (opOneSided opcode → remoteMr ≠ none) := by
  rw [← exists_withLkey_iff, ← exists_rdmaTarget_iff (m := m), rdmaRequest]
  constructor
  · rintro ⟨req, h⟩
    obtain ⟨sgList, hsg, h⟩ := Except.bind_eq_ok.mp h
    obtain ⟨target, htarget, -⟩ := Except.bind_eq_ok.mp h
    exact ⟨⟨sgList, hsg⟩, target, htarget⟩
  · rintro ⟨⟨sgList, hsg⟩, target, htarget⟩
    rw [hsg, htarget]
    exact ⟨_, rfl⟩

theorem length_withLkey {mr : Option IbvMr} {sges sges' : List Sge}
    (h : withLkey mr sges = .ok sges') : sges'.length = sges.length := by
  cases sges with
  | nil =>
    obtain rfl := Except.ok.inj h
    rfl
  | cons sge sges =>
    obtain ⟨mr, -, h⟩ := Except.bind_eq_ok.mp h
    rw [Except.pure_eq_ok] at h
    rw [← h, List.length_map]

/-- What the driver takes of the requests. -/
theorem wqeSize_rdmaRequest {q : DriverQp} {opcode : WrOpcode} {localMr : Option IbvMr}
    {remoteMr : Option MrContext} {m : RdmaMeta} {req : WorkRequest}
    (h : rdmaRequest localMr remoteMr opcode m = .ok req) :
    q.wqeSize req ≠ none ↔ driverHeader opcode ≠ none ∧ m.sgeEntries.length ≤ q.maxGs := by
  obtain ⟨sgList, target, hsg, -, rfl⟩ := Batch.rdmaRequest_eq_ok h
  rw [← length_withLkey hsg, ← not_lt]
  simp only [DriverQp.wqeSize, DriverQp.dataUnits]
  by_cases hgt : q.maxGs < sgList.length
  · simp [hgt]
  · cases driverHeader opcode with
    | none => simp [hgt]
    | some units => simp [hgt]

theorem wqeSize_requests {q : DriverQp} {opcode : WrOpcode} {localMr : Option IbvMr}
    {remoteMr : Option MrContext} {chain : List RdmaMeta} {reqs : List WorkRequest}
    (h : List.Forall₂ (fun m req => rdmaRequest localMr remoteMr opcode m = .ok req)
      chain reqs) :
    (∀ req ∈ reqs, q.wqeSize req ≠ none) ↔
      ∀ m ∈ chain, driverHeader opcode ≠ none ∧ m.sgeEntries.length ≤ q.maxGs := by
  induction h with
  | nil => simp
  | cons hreq _ ih =>
    rw [List.forall_mem_cons, List.forall_mem_cons, ih, wqeSize_rdmaRequest hreq]

/-- The ids do not matter to the driver. -/
theorem postList_takeIds {q : DriverQp} {ctx : ConnContext} {reqs : List WorkRequest} :
    q.postList (takeIds ctx reqs).1 ≠ none ↔ ∀ req ∈ reqs, q.wqeSize req ≠ none := by
  rw [DriverQp.postList_ne_none_iff]
  induction reqs generalizing ctx with
  | nil => simp [takeIds]
  | cons req reqs ih =>
    rw [takeIds, nextWrId_send, List.forall_mem_cons, List.forall_mem_cons, ih]
    rfl

section

variable {c : LiveConn} {opcode : WrOpcode} {chain : List RdmaMeta} {localId remoteId : ℤ}

/-- A batch that is posted could be. -/
theorem Postable.of_ok {ret : UInt32 × LiveConn}
    (h : c.sendRdmaOperation chain localId remoteId opcode = .ok ret) :
    Postable c opcode chain localId remoteId := by
  obtain ⟨h, hroom, -⟩ := LiveConn.sendRdmaOperation_eq_ok_iff.mp h
  rw [Batch.sendRdmaOperation_eq] at h
  obtain ⟨⟨lmr, rmr⟩, hregions, h⟩ := Except.bind_eq_ok.mp h
  obtain ⟨reqs, hreqs, h⟩ := Except.bind_eq_ok.mp h
  obtain ⟨last, hlast, h⟩ := Except.bind_eq_ok.mp h
  obtain ⟨c', hsubmit, -⟩ := Except.bind_eq_ok.mp h
  obtain ⟨hle, hl, hr, hlmr, hrmr⟩ := Batch.regions_eq_ok_iff.mp hregions
  obtain ⟨hiqp, -, hpost⟩ := exists_submit_iff.mp ⟨c', hsubmit⟩
  have hmade := fun m hm =>
    exists_rdmaRequest_iff.mp (Except.exists_mapM_iff.mp ⟨reqs, hreqs⟩ m hm)
  have hne : chain ≠ [] := by
    rintro rfl
    obtain rfl : [] = reqs := Except.ok.inj hreqs
    exact absurd (deref_eq_ok.mp hlast) (by simp [takeIds])
  obtain ⟨m, hm⟩ := List.exists_mem_of_ne_nil chain hne
  have htaken := (wqeSize_requests (Except.forall₂_of_mapM hreqs)).mp (postList_takeIds.mp hpost)
  refine ⟨hle, hl, hr, ⟨lmr, hlmr, fun m hm => (hmade m hm).1⟩, ?_, hne, ?_, hroom,
    (htaken m hm).1, fun m hm => (htaken m hm).2⟩
  · intro hop
    obtain ⟨mr, rfl⟩ := Option.ne_none_iff_exists'.mp ((hmade m hm).2 hop)
    rw [remoteMrFor, if_pos hop] at hrmr
    exact ⟨mr, hrmr⟩
  · rwa [takeIds_snd] at hiqp

/-- The region of the other side, which only a one-sided operation reads. -/
theorem Postable.exists_remoteMr (h : Postable c opcode chain localId remoteId) :
    ∃ rmr, remoteMrFor c.conn.ctx opcode remoteId = .ok rmr ∧ (opOneSided opcode → rmr ≠ none) := by
  by_cases hop : opOneSided opcode = true
  · obtain ⟨mr, hmr⟩ := h.remoteMr hop
    exact ⟨some mr, by rw [remoteMrFor, if_pos hop, hmr], by simp⟩
  · exact ⟨none, by rw [remoteMrFor, if_neg hop]; rfl, fun hop' => absurd hop' hop⟩

/-- A batch that can be posted is. -/
theorem Postable.exists_ok (h : Postable c opcode chain localId remoteId) :
    ∃ ret, c.sendRdmaOperation chain localId remoteId opcode = .ok ret := by
  obtain ⟨lmr, hlmr, hsges⟩ := h.localMr
  obtain ⟨rmr, hrmr, htarget⟩ := h.exists_remoteMr
  have hregions := Batch.regions_eq_ok_iff.mpr
    ⟨h.remoteId_le, h.localReady, h.remoteReady, hlmr, hrmr⟩
  obtain ⟨reqs, hreqs⟩ := Except.exists_mapM_iff.mpr fun m hm =>
    exists_rdmaRequest_iff.mpr ⟨hsges m hm, htarget⟩
  have hmade := Except.forall₂_of_mapM hreqs
  have hne : reqs ≠ [] := by
    rintro rfl
    exact h.chain_ne_nil (List.forall₂_nil_right_iff.mp hmade)
  obtain ⟨last, hlast, -⟩ := Batch.getLast?_takeIds c.conn.ctx hne
  obtain ⟨c', hsubmit⟩ := Batch.exists_submit_takeIds hne h.queue <| postList_takeIds.mpr <|
    (wqeSize_requests hmade).mpr fun m hm => ⟨h.supported, h.fits m hm⟩
  refine ⟨(last.wrId.toUInt32, { conn := c', room := c.room - chain.length }), ?_⟩
  rw [LiveConn.sendRdmaOperation_eq_ok_iff, Batch.sendRdmaOperation_eq]
  refine ⟨?_, h.room, rfl⟩
  simp only [hregions, hreqs, hlast, takeIds_length, hsubmit, bind, Except.bind, deref, pure,
    Except.pure]

/-- `send_rdma_operation` returns exactly when the batch can be posted. -/
theorem postable_iff :
    (∃ ret, c.sendRdmaOperation chain localId remoteId opcode = .ok ret) ↔
      Postable c opcode chain localId remoteId :=
  ⟨fun ⟨_, h⟩ => .of_ok h, Postable.exists_ok⟩

end

/-- The id returned is that of the last request. -/
theorem ret_sendRdmaOperation {c c' : LiveConn} {chain : List RdmaMeta} {localId remoteId : ℤ}
    {opcode : WrOpcode} {ret : UInt32}
    (h : c.sendRdmaOperation chain localId remoteId opcode = .ok (ret, c')) :
    ret = c.conn.ctx.lastSend + UInt32.ofNat chain.length := by
  obtain ⟨wrs, hposted, hlen, -⟩ :=
    sendRdmaOperation_posted (LiveConn.sendRdmaOperation_eq_ok_iff.mp h).1
  obtain ⟨wr, hwr, hid⟩ := hposted.ret ret rfl
  rw [List.getLast?_eq_getElem?] at hwr
  have hpos : 0 < wrs.length := by
    have := (List.getElem?_eq_some_iff.mp hwr).1
    omega
  rw [← hid, (hposted.ids rfl).1 _ _ hwr, UInt32.toUInt32_toUInt64, ← hlen,
    show wrs.length - 1 + 1 = wrs.length by omega]

/-! ### The calls -/

/-- A call that has posted and goes on to `spin_till_completion` with `wrId`. -/
structure Waiting where
  conn : LiveConn
  wrId : UInt32

/-- `IBV_WRAPPER_OP_ASYNC`. -/
def ibvWrapperOpAsync (c : LiveConn) (chain : List RdmaMeta) (localId remoteId : ℤ)
    (opcode : WrOpcode) : Except Stop (UInt32 × LiveConn) := do
  let (wrId, c) ← c.sendRdmaOperation chain localId remoteId opcode
  return (wrId, c)

/-- `IBV_WRAPPER_OP_SYNC`. -/
def ibvWrapperOpSync (c : LiveConn) (chain : List RdmaMeta) (localId remoteId : ℤ)
    (opcode : WrOpcode) : Except Stop Waiting := do
  let (wrId, conn) ← c.sendRdmaOperation chain localId remoteId opcode
  return { conn, wrId }

/-- `IBV_WRAPPER_x_ASYNC`.  Nothing is returned: the caller reads `leftover`, whatever the
return register holds. -/
def ibvWrapperAsync (leftover : UInt32) (op : WrapperOp) (c : LiveConn) (chain : List RdmaMeta)
    (localId remoteId : ℤ) : Except Stop (UInt32 × LiveConn) := do
  let (_, c) ← ibvWrapperOpAsync c chain localId remoteId op.opcode
  return (leftover, c)

/-- `IBV_WRAPPER_x_SYNC`. -/
def ibvWrapperSync (op : WrapperOp) (c : LiveConn) (chain : List RdmaMeta) (localId remoteId : ℤ) :
    Except Stop Waiting :=
  ibvWrapperOpSync c chain localId remoteId op.opcode

/-- `IBV_AWAIT_WORK_COMPLETION`. -/
def ibvAwaitWorkCompletion (c : LiveConn) (wrId : UInt32) : Waiting := { conn := c, wrId }

/-- The asynchronous call, then the wait for the id it returned. -/
def asyncThenAwait (leftover : UInt32) (op : WrapperOp) (c : LiveConn) (chain : List RdmaMeta)
    (localId remoteId : ℤ) : Except Stop Waiting := do
  let (wrId, c) ← ibvWrapperAsync leftover op c chain localId remoteId
  return ibvAwaitWorkCompletion c wrId

/-- The two are the same exactly where the batch cannot be posted or the register happens to hold
the id of the last request. -/
theorem async_await_iff (leftover : UInt32) (op : WrapperOp) (c : LiveConn)
    (chain : List RdmaMeta) (localId remoteId : ℤ) :
    asyncThenAwait leftover op c chain localId remoteId =
        ibvWrapperSync op c chain localId remoteId ↔
      (Postable c op.opcode chain localId remoteId →
        leftover = c.conn.ctx.lastSend + UInt32.ofNat chain.length) := by
  rw [← postable_iff, asyncThenAwait, ibvWrapperAsync, ibvWrapperOpAsync, ibvWrapperSync,
    ibvWrapperOpSync]
  cases h : c.sendRdmaOperation chain localId remoteId op.opcode with
  | error e => simp [bind, Except.bind]
  | ok r =>
    obtain ⟨wrId, c'⟩ := r
    simp [bind, Except.bind, pure, Except.pure, ibvAwaitWorkCompletion, ret_sendRdmaOperation h]

/-- One message of 8 bytes on a queue with room for one, and the register zero: id 1 is posted,
and id 0 is waited for, which is no wait at all. -/
theorem lost_id :
    asyncThenAwait 0 .send ⟨conn64, 1⟩ [meta8] 0 0 ≠
      ibvWrapperSync .send ⟨conn64, 1⟩ [meta8] 0 0 ∧
    ∃ c, ibvWrapperSync .send ⟨conn64, 1⟩ [meta8] 0 0 = .ok { conn := c, wrId := 1 } ∧
      asyncThenAwait 0 .send ⟨conn64, 1⟩ [meta8] 0 0 = .ok { conn := c, wrId := 0 } ∧
      SpinWaits c.conn.ctx 1 ∧ ¬ SpinWaits c.conn.ctx 0 := by
  refine ⟨?_, _, rfl, rfl, by decide, by decide⟩
  intro h
  have hid := congrArg (fun r => r.toOption.map Waiting.wrId) h
  exact absurd hid (by decide)

end Rdma
