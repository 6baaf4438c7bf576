/-
What a posting call leaves in the context.

`Posted` says how a call moves the send queue and the ids.  `Effect` says the rest:
which field of the context a call writes at all, by how much `n_posted_ops` grows,
and which of the requests it posts are signaled.

* `exec_effect` — every call that returns has its `Effect`.
-/
import RednRdma.PostCall

namespace Rdma

namespace PostCall

/-- The call adds the requests it posts to `n_posted_ops`. -/
def counted : PostCall → Bool
  | wait .. | waitTill .. | waitExplicit .. | trigger .. | triggerExplicit .. | setTrigger .. =>
    false
  | _ => true

/-- The bindings the call adds to `buffer_bindings`. -/
def binds (ctx : ConnContext) : PostCall → List (UInt32 × ℤ)
  | message _ buffer => [(ctx.lastSend + 1, buffer)]
  | _ => []

/-- Which of the requests of the call are signaled. -/
def Signals : PostCall → List WorkRequest → Prop
  | noop signaled, wrs => ∀ wr ∈ wrs, wr.flags.signaled = decide (signaled ≠ 0)
  | post ws, wrs => wrs = ws
  | wait .., wrs | waitTill .., wrs | waitExplicit .., wrs | trigger .., wrs
  | triggerExplicit .., wrs | setTrigger .., wrs => ∀ wr ∈ wrs, wr.flags.signaled = false
  | _, wrs => ∀ wr ∈ wrs, wr.flags.signaled = true

end PostCall

/-- The fields a post writes. -/
structure Moved (ctx ctx' : ConnContext) (ops : UInt32) (bindings : List (UInt32 × ℤ)) : Prop where
  eq : ∃ lastSend scurPost sqWrid, ctx' =
    { ctx with
      lastSend, scurPost, sqWrid
      nPostedOps := ctx.nPostedOps + ops
      bufferBindings := bindings ++ ctx.bufferBindings }

/-- What a call that handed `wrs` to the driver did to the context. -/
structure Effect (call : PostCall) (c c' : Conn) (wrs : List WorkRequest) : Prop where
  qp : c.qp.postList wrs = some c'.qp
  moved : Moved c.ctx c'.ctx (if call.counted then UInt32.ofNat wrs.length else 0)
    (call.binds c.ctx)
  signals : call.Signals wrs

section

variable {ctx ctx' : ConnContext} {ops : UInt32} {bindings : List (UInt32 × ℤ)}

theorem Moved.nPostedOps (h : Moved ctx ctx' ops bindings) :
    ctx'.nPostedOps = ctx.nPostedOps + ops := by
  obtain ⟨_, _, _, rfl⟩ := h.eq
  rfl

theorem Moved.bufferBindings (h : Moved ctx ctx' ops bindings) :
    ctx'.bufferBindings = bindings ++ ctx.bufferBindings := by
  obtain ⟨_, _, _, rfl⟩ := h.eq
  rfl

theorem Moved.lastSendCompl (h : Moved ctx ctx' ops bindings) :
    ctx'.lastSendCompl = ctx.lastSendCompl := by
  obtain ⟨_, _, _, rfl⟩ := h.eq
  rfl

theorem Moved.sendIdx (h : Moved ctx ctx' ops bindings) : ctx'.sendIdx = ctx.sendIdx := by
  obtain ⟨_, _, _, rfl⟩ := h.eq
  rfl

theorem Moved.state (h : Moved ctx ctx' ops bindings) : ctx'.state = ctx.state := by
  obtain ⟨_, _, _, rfl⟩ := h.eq
  rfl

/-- The shadow step comes last, and adds nothing. -/
theorem Moved.submit {c c' : Conn} {reason : String} {wrs : List WorkRequest}
    (h : Moved c.ctx ctx ops bindings) (hs : submit { c with ctx } reason wrs = .ok c') :
    Moved c.ctx c'.ctx ops bindings := by
  obtain ⟨lastSend, scurPost, sqWrid, rfl⟩ := h.eq
  obtain ⟨hup, -⟩ := submit_eq_ok hs
  obtain ⟨iqp, wr, -, -, hctx⟩ := updateScurPost_eq_ok hup
  exact ⟨_, _, _, hctx⟩

theorem Moved.refl (ctx : ConnContext) : Moved ctx ctx 0 [] :=
  ⟨ctx.lastSend, ctx.scurPost, ctx.sqWrid, by simp⟩

theorem Moved.takeIds (ctx : ConnContext) (wrs : List WorkRequest) :
    Moved ctx (takeIds ctx wrs).2 0 [] := by
  rw [takeIds_snd]
  exact ⟨ctx.lastSend + UInt32.ofNat wrs.length, ctx.scurPost, ctx.sqWrid, by simp⟩

theorem Moved.countOps (h : Moved ctx ctx' ops bindings) (n : ℕ) :
    Moved ctx (countOps ctx' n) (ops + UInt32.ofNat n) bindings := by
  obtain ⟨lastSend, scurPost, sqWrid, rfl⟩ := h.eq
  exact ⟨lastSend, scurPost, sqWrid, by simp [Rdma.countOps, add_assoc]⟩

theorem Moved.bumpSend (h : Moved ctx ctx' ops bindings) :
    Moved ctx (bumpSend ctx') ops bindings := by
  obtain ⟨_, _, _, rfl⟩ := h.eq
  exact ⟨_, _, _, rfl⟩

end

/-- The send queue grows by what the call posts. -/
theorem Effect.log {call : PostCall} {c c' : Conn} {wrs : List WorkRequest}
    (h : Effect call c c' wrs) :
    ∃ new, c'.qp.log = c.qp.log ++ new ∧ new.map Ring.Placed.data = wrs :=
  DriverQp.postList_log h.qp

theorem Effect.grow {call : PostCall} {c c' : Conn} {wrs : List WorkRequest}
    (h : Effect call c c' wrs) :
    ∃ new, c'.qp.log = c.qp.log ++ new ∧ new.map Ring.Placed.data = wrs ∧
      c'.qp.log.length - c.qp.log.length = new.length := by
  obtain ⟨new, hlog, hdata⟩ := h.log
  refine ⟨new, hlog, hdata, ?_⟩
  rw [hlog, List.length_append]
  exact Nat.add_sub_cancel_left _ _

/-! ### The calls -/

theorem postNext_effect {c c' : Conn} {counted : Bool} {reason : String} {sr : WorkRequest}
    {ret : UInt32} (h : postNext c counted reason sr = .ok (ret, c')) :
    ∃ wr, c.qp.postList [wr] = some c'.qp ∧ wr.flags = sr.flags ∧
      Moved c.ctx c'.ctx (if counted then UInt32.ofNat 1 else 0) [] := by
  obtain ⟨-, hsubmit⟩ := postNext_eq_ok h
  refine ⟨_, (submit_eq_ok hsubmit).2, rfl, ?_⟩
  cases counted with
  | false => exact (Moved.refl _).bumpSend.submit hsubmit
  | true => exact ((Moved.refl _).bumpSend.countOps 1).submit hsubmit

theorem sendRdmaOperation_effect {c c' : Conn} {chain : List RdmaMeta} {l r : ℤ}
    {opcode : WrOpcode} {ret : UInt32}
    (h : sendRdmaOperation c chain l r opcode = .ok (ret, c')) :
    ∃ wrs, Effect (.rdma chain l r opcode) c c' wrs := by
  obtain ⟨localMr, remoteMr, reqs, last, hreqs, -, -, hsubmit⟩ := sendRdmaOperation_eq_ok h
  obtain ⟨-, hmem⟩ := Except.mapM_eq_ok hreqs
  refine ⟨(takeIds c.ctx reqs).1, (submit_eq_ok hsubmit).2, ?_,
    takeIds_forall_flags (p := fun flags => flags.signaled = true) ?_⟩
  · have hmoved :=
      ((Moved.takeIds c.ctx reqs).countOps (takeIds c.ctx reqs).1.length).submit hsubmit
    rwa [zero_add] at hmoved
  · intro wr hwr
    obtain ⟨m, -, hm⟩ := hmem wr hwr
    rw [rdmaRequest_flags hm]

theorem ibvSendAsync_effect {c c' : Conn} {src size : UInt64} {imm : UInt32} {l : ℤ}
    {ret : UInt32} (h : ibvSendAsync c src size imm l = .ok (ret, c')) :
    ∃ wrs, Effect (.send src size imm l) c c' wrs := by
  obtain ⟨sr, -, hflags, -, hsubmit⟩ := ibvSendAsync_eq_ok h
  refine ⟨[sr], (submit_eq_ok hsubmit).2, ?_, ?_⟩
  · have hmoved := ((Moved.refl c.ctx).countOps 1).submit hsubmit
    rwa [zero_add] at hmoved
  · intro wr hwr
    rw [List.mem_singleton.mp hwr, hflags]

theorem ibvPostAsync_effect {c c' : Conn} {wrs : List WorkRequest} {ret : UInt32}
    (h : ibvPostAsync c wrs = .ok (ret, c')) : Effect (.post wrs) c c' wrs := by
  obtain ⟨last, -, -, hsubmit⟩ := ibvPostAsync_eq_ok h
  have hmoved := ((Moved.refl c.ctx).countOps wrs.length).submit hsubmit
  rw [zero_add] at hmoved
  exact ⟨(submit_eq_ok hsubmit).2, hmoved, rfl⟩

theorem sendMessage_effect {msgSize : ℕ} {c c' : Conn} {buffer : ℤ} {ret : UInt32}
    (h : sendMessage msgSize c buffer = .ok (ret, c')) :
    ∃ wrs, Effect (.message msgSize buffer) c c' wrs := by
  obtain ⟨sr, addr, c₁, -, hflags, -, rfl, hsubmit⟩ := sendMessage_eq_ok h
  have hbind : Moved c.ctx (rcBindBuffer (bumpSend c.ctx) buffer (c.ctx.lastSend + 1)) 0
      [(c.ctx.lastSend + 1, buffer)] :=
    ⟨c.ctx.lastSend + 1, c.ctx.scurPost, c.ctx.sqWrid, by simp [rcBindBuffer, bumpSend]⟩
  refine ⟨_, (submit_eq_ok hsubmit).2, ?_, ?_⟩
  · -- the message is counted after it was posted
    have hmoved := (hbind.submit hsubmit).countOps 1
    rwa [zero_add] at hmoved
  · intro wr hwr
    rw [List.mem_singleton.mp hwr]
    exact congrArg SendFlags.signaled hflags

/-- A call that numbers and posts one request. -/
theorem Effect.of_postNext {call : PostCall} {c c' : Conn} {counted : Bool} {reason : String}
    {sr : WorkRequest} {ret : UInt32} (h : postNext c counted reason sr = .ok (ret, c'))
    (hcounted : call.counted = counted) (hbinds : call.binds c.ctx = [])
    (hsignals : ∀ wr : WorkRequest, wr.flags = sr.flags → call.Signals [wr]) :
    ∃ wrs, Effect call c c' wrs := by
  obtain ⟨wr, hqp, hflags, hmoved⟩ := postNext_effect h
  refine ⟨[wr], hqp, ?_, hsignals wr hflags⟩
  rw [hcounted, hbinds]
  exact hmoved

theorem ibvSetTrigger_effect {c c' : Conn} {ctx : ConnContext} {nops : ℤ} {nwait : UInt32}
    (h : ibvSetTrigger c ctx nops nwait = .ok c') :
    ∃ wrs, Effect (.setTrigger ctx nops nwait) c c' wrs := by
  obtain ⟨hctx, hqp⟩ := ibvSetTrigger_eq_ok h
  have hunsignaled : ∀ wr ∈ triggerChain ctx nops.toNat nwait, wr.flags.signaled = false := by
    intro wr hwr
    rw [triggerChain] at hwr
    rcases List.mem_cons.mp hwr with rfl | hwr
    · rfl
    · obtain ⟨l, hl, hwr⟩ := List.mem_flatten.mp hwr
      rw [(List.mem_replicate.mp hl).2] at hwr
      rcases List.mem_pair.mp hwr with rfl | rfl
      · rfl
      · rfl
  refine ⟨_, hqp, ?_, takeIds_forall_flags (p := fun flags => flags.signaled = false) hunsignaled⟩
  rw [hctx]
  exact Moved.takeIds c.ctx _

/-- **Every posting call that returns** has its effect on the context. -/
theorem exec_effect {call : PostCall} {c c' : Conn} {ret : Option UInt32}
    (h : call.exec c = .ok (ret, c')) : ∃ wrs, Effect call c c' wrs := by
  cases call with
  | rdma chain l r op =>
    obtain ⟨_, -, hx⟩ := map_some_eq_ok h
    exact sendRdmaOperation_effect hx
  | send src size imm l =>
    obtain ⟨_, -, hx⟩ := map_some_eq_ok h
    exact ibvSendAsync_effect hx
  | post wrs =>
    obtain ⟨_, -, hx⟩ := map_some_eq_ok h
    exact ⟨wrs, ibvPostAsync_effect hx⟩
  | cas src dst cmp swap lk rk f =>
    obtain ⟨_, -, hx⟩ := map_some_eq_ok h
    exact Effect.of_postNext hx rfl rfl fun wr hf => by simp [PostCall.Signals, hf, casRequest]
  | fetchAdd src dst sz cmp lk rk =>
    obtain ⟨_, -, hx⟩ := map_some_eq_ok h
    exact Effect.of_postNext hx rfl rfl fun wr hf => by simp [PostCall.Signals, hf]
  | convertEndian src dst sz lk rk =>
    obtain ⟨_, -, hx⟩ := map_some_eq_ok h
    obtain ⟨sr, hflags, hpost⟩ := ibvConvertEndianAsync_eq_ok hx
    exact Effect.of_postNext hpost rfl rfl fun wr hf => by simp [PostCall.Signals, hf, hflags]
  | noop signaled =>
    obtain ⟨_, -, hx⟩ := map_some_eq_ok h
    exact Effect.of_postNext hx rfl rfl fun wr hf => by simp [PostCall.Signals, hf]
  | calcOp m l r =>
    obtain ⟨_, -, hx⟩ := map_some_eq_ok h
    obtain ⟨sr, hflags, hpost⟩ := ibvCalcOpAsync_eq_ok hx
    exact Effect.of_postNext hpost rfl rfl fun wr hf => by simp [PostCall.Signals, hf, hflags]
  | message msgSize b =>
    obtain ⟨_, -, hx⟩ := map_some_eq_ok h
    exact sendMessage_effect hx
  | wait ctx =>
    obtain ⟨_, -, hx⟩ := map_some_eq_ok h
    exact Effect.of_postNext hx rfl rfl fun wr hf => by simp [PostCall.Signals, hf]
  | waitTill ctx n =>
    obtain ⟨_, -, hx⟩ := map_some_eq_ok h
    exact Effect.of_postNext hx rfl rfl fun wr hf => by simp [PostCall.Signals, hf]
  | waitExplicit ctx n =>
    obtain ⟨_, -, hx⟩ := map_some_eq_ok h
    exact Effect.of_postNext hx rfl rfl fun wr hf => by simp [PostCall.Signals, hf]
  | trigger ctx n =>
    obtain ⟨_, -, hx⟩ := map_some_eq_ok h
    exact Effect.of_postNext hx rfl rfl fun wr hf => by simp [PostCall.Signals, hf]
  | triggerExplicit ctx n =>
    obtain ⟨_, -, hx⟩ := map_some_eq_ok h
    obtain ⟨sr, hflags, hpost⟩ := ibvTriggerExplicit_eq_ok hx
    exact Effect.of_postNext hpost rfl rfl fun wr hf => by simp [PostCall.Signals, hf, hflags]
  | setTrigger ctx nops nwait =>
    obtain ⟨-, hx⟩ := map_none_eq_ok h
    exact ibvSetTrigger_effect hx

end Rdma
