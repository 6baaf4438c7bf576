/-
Response ids (`agent.c`, `verbs.c`, `connection.c`).

An application waits for a response on `last_rcv_compl`, which `on_completion` sets
to the immediate of the receive completion it handles.  A message of `send_message`,
or of `IBV_SEND_ASYNC` without an immediate, completes a receive as well.

* `response_ids_iff` — `last_rcv_compl` follows the immediates, and nothing else is
  passed to the application as a response, exactly in the runs where every
  receive completion carries an immediate;
* `message_overwrites_response` — a plain message hides a response.
-/
import RednRdma.Polling
import RednRdma.Lib.Machine

namespace Rdma

abbrev MAX_PENDING : UInt32 := 500

/-- The loop condition of `spin_till_response` and `block_till_response`. -/
def ResponseWaits (ctx : ConnContext) (seqn : UInt32) : Prop :=
  ctx.lastRcvCompl < seqn ∨ ctx.lastRcvCompl - seqn > MAX_PENDING

instance (ctx : ConnContext) (seqn : UInt32) : Decidable (ResponseWaits ctx seqn) :=
  inferInstanceAs (Decidable (_ ∨ _))

namespace Responses

/-- A connection and what its application has been told.  `latest` and `strayed` are
not state of the program: they record what happened. -/
structure State where
  ctx : ConnContext
  /-- The messages `app_recv_event` was called with, oldest first. -/
  delivered : List AppContext := []
  /-- The immediate of the last completion that carried one. -/
  latest : Option UInt32 := none
  /-- A receive completion without an immediate has moved `last_rcv_compl`, or was
  passed to the application. -/
  strayed : Bool := false

/-- `poll_cq` handles one CQE. -/
def step (s : State) (wc : IbvWc) : Option State :=
  match pollCq wc s.ctx with
  | .error _ => none
  | .ok (ctx, msg) =>
    some {
      ctx
      delivered := s.delivered ++ msg.toList
      latest := if wc.status = .success ∧ wc.recv ∧ wc.withImm then some wc.immData else s.latest
      strayed := s.strayed || decide (¬ wc.withImm ∧
        (ctx.lastRcvCompl ≠ s.ctx.lastRcvCompl ∨ msg ≠ none)) }

/-- A connection that is ready and has received nothing. -/
structure Initial (s : State) : Prop where
  ready : s.ctx.state = .ready
  lastRcvCompl : s.ctx.lastRcvCompl = 0
  latest : s.latest = none
  strayed : s.strayed = false

/-- `last_rcv_compl` is 0 or the last immediate, in host order, and no other
completion has moved it or was passed on. -/
def FromImmediates (s : State) : Prop :=
  (s.ctx.lastRcvCompl = 0 ∨ ∃ imm ∈ s.latest, s.ctx.lastRcvCompl = ntohl imm) ∧
    s.strayed = false

instance (s : State) : Decidable (FromImmediates s) := by
  rw [FromImmediates]
  infer_instance

/-- A receive that completes does so with an immediate. -/
def CarriesImm (_ : State) (wc : IbvWc) : Prop :=
  wc.status = .success → wc.recv = true → wc.withImm = true

instance (s : State) (wc : IbvWc) : Decidable (CarriesImm s wc) :=
  inferInstanceAs (Decidable (_ → _ → _))

/-- What handling a CQE does. -/
theorem step_cases {s s' : State} {wc : IbvWc} (hs : step s wc = some s') :
    (s'.ctx.state = s.ctx.state ∧ s'.ctx.lastRcvCompl = s.ctx.lastRcvCompl ∧
      s'.latest = s.latest ∧ s'.strayed = s.strayed ∧
      (wc.status = .success → wc.recv = false)) ∨
    (wc.status = .success ∧ wc.recv = true ∧ s'.ctx.state = s.ctx.state ∧
      s'.ctx.lastRcvCompl = ntohl wc.immData ∧
      s'.latest = (if wc.withImm then some wc.immData else s.latest) ∧
      s'.strayed = (s.strayed || !wc.withImm)) := by
  rw [step] at hs
  split at hs
  · exact absurd hs (by simp)
  · rename_i ctx msg hpoll
    obtain rfl := Option.some_inj.mp hs
    rcases pollCq_eq_ok hpoll with ⟨hst, rfl, rfl⟩ | ⟨hst, hsend, rfl, rfl⟩ |
      ⟨hst, hrecv, -, rfl, rfl⟩
    · exact Or.inl ⟨rfl, rfl, by simp [hst], by simp, by simp [hst]⟩
    · exact Or.inl ⟨rfl, rfl, by simp [hsend], by simp, fun _ => hsend⟩
    · refine Or.inr ⟨hst, hrecv, rfl, rfl, ?_, ?_⟩
      · simp [hst, hrecv]
      · cases wc.withImm <;> simp

theorem step_keeps {s s' : State} {wc : IbvWc} (h : FromImmediates s) (hc : CarriesImm s wc)
    (hs : step s wc = some s') : FromImmediates s' := by
  rcases step_cases hs with ⟨-, hlast, hlatest, hstray, -⟩ |
    ⟨hst, hrecv, -, hlast, hlatest, hstray⟩
  · rw [FromImmediates, hlast, hlatest, hstray]
    exact h
  · have himm : wc.withImm = true := hc hst hrecv
    rw [FromImmediates, hlast, hlatest, hstray, himm]
    exact ⟨Or.inr ⟨wc.immData, rfl, rfl⟩, by simp [h.2]⟩

theorem step_strays {s s' : State} {wc : IbvWc} (hc : ¬ CarriesImm s wc)
    (hs : step s wc = some s') : ¬ FromImmediates s' := by
  obtain ⟨hst, hrecv, himm⟩ : wc.status = .success ∧ wc.recv = true ∧ wc.withImm = false := by
    simpa [CarriesImm] using hc
  rcases step_cases hs with ⟨-, -, -, -, hsend⟩ | ⟨-, -, -, -, -, hstray⟩
  · exact absurd (hsend hst) (by simp [hrecv])
  · intro h
    rw [himm] at hstray
    exact absurd (hstray.symm.trans h.2) (by simp)

/-- **Response ids come only from immediates** throughout a run exactly when every
receive completion of the run carries an immediate. -/
theorem response_ids_iff {s s' : State} {wcs : List IbvWc} (h : Initial s)
    (hr : Machine.run step s wcs = some s') :
    Machine.Along step FromImmediates s wcs ↔ Machine.Meets step CarriesImm s wcs := by
  refine Machine.along_iff_meets (I := FromImmediates) (fun _ hi => hi)
    (fun _ _ _ hi hc hs => step_keeps hi hc hs) (fun _ _ _ _ hc hs => step_strays hc hs) ?_ hr
  exact ⟨Or.inl h.lastRcvCompl, h.strayed⟩

/-- A connection that is ready. -/
def readyConn : State := { ctx := { state := .ready } }

theorem readyConn_initial : Initial readyConn := ⟨rfl, rfl, rfl, rfl⟩

/-- A response with the id 7. -/
def response7 : IbvWc := { wrId := 0, recv := true, withImm := true, immData := htonl 7 }

/-- A message of `send_message`. -/
def plainMessage : IbvWc := { wrId := 0, recv := true, immData := 0 }

/-- A response, between two sends. -/
theorem response_ids_between_sends :
    Machine.Along step FromImmediates readyConn
      [{ wrId := 1, recv := false }, response7, { wrId := 2, recv := false }] := by
  obtain ⟨s, hr⟩ : ∃ s, Machine.run step readyConn
      [{ wrId := 1, recv := false }, response7, { wrId := 2, recv := false }] = some s :=
    ⟨_, rfl⟩
  exact (response_ids_iff readyConn_initial hr).mpr (by decide)

/-- The response arrives, then a message without an immediate: the waiter for the
response is blocked again, and the application is told of a response 0. -/
theorem message_overwrites_response : Initial readyConn ∧ ∃ s s',
    Machine.run step readyConn [response7] = some s ∧ step s plainMessage = some s' ∧
      ¬ ResponseWaits s.ctx 7 ∧ ResponseWaits s'.ctx 7 ∧
      s'.delivered = [{ sockfd := 0, id := 7 }, { sockfd := 0, id := 0 }] ∧
      ¬ FromImmediates s' :=
  ⟨⟨rfl, rfl, rfl, rfl⟩, _, _, rfl, rfl, by decide, by decide, by decide, by decide⟩

end Responses

end Rdma
