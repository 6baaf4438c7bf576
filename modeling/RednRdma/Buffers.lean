/-
Send buffers (`connection.c`, `verbs.c`, `messaging.c`).

A buffer is acquired, bound to the id of the message sent from it, and free again when
that message has completed.  `_rc_acquire_buffer` counts through the buffers without a
look at the bindings, and no completion handler calls `rc_release_buffer`.

* `Owners` — the messages that have not completed, and whether one of them lost its
  buffer;
* `buffers_owned_iff` — the runs in which buffers are owned as they should be;
* `buffer_reacquired`, `binding_left` — the shortest runs in which they are not.
-/
import RednRdma.Execution
import RednRdma.Lib.History
import Mathlib.Data.List.Count

namespace Rdma

theorem readAt_eq_ok {n : ℕ} {α : Type} {t : Fin n → α} {i : ℤ} {a : α}
    (h : readAt t i = .ok a) : 0 ≤ i ∧ i.toNat < n := by
  rw [readAt] at h
  split at h
  · assumption
  · exact absurd h (by simp)

/-- The call is `send_message`. -/
def PostCall.isMessage : PostCall → Bool
  | message .. => true
  | _ => false

/-- A message is one request, sent from the one buffer there is. -/
theorem message_eq_ok {c c' : Conn} {msgSize : ℕ} {buffer : ℤ} {ret : Option UInt32}
    (h : (PostCall.message msgSize buffer).exec c = .ok (ret, c')) :
    buffer = 0 ∧ c'.qp.log.length = c.qp.log.length + 1 := by
  constructor
  · obtain ⟨_, -, hx⟩ := map_some_eq_ok h
    obtain ⟨sr, addr, c₁, haddr, -⟩ := sendMessage_eq_ok hx
    obtain ⟨hpos, hlt⟩ := readAt_eq_ok haddr
    have hlt : buffer.toNat < 1 := hlt
    omega
  · obtain ⟨wrs, hp, wr, rfl, -⟩ := exec_posted h
    obtain ⟨new, hlog, hdata⟩ := DriverQp.postList_log hp.qp
    have hlen : new.length = 1 := by rw [← List.length_map Ring.Placed.data, hdata]; rfl
    rw [hlog, List.length_append, hlen]

namespace Buffers

open Execution

/-- Who owns what.  Requests are executed and polled in order, so that the messages
complete in the order they were sent in. -/
structure Owners where
  /-- For each request posted, whether it is a message. -/
  messages : List Bool := []
  /-- For each CQE not polled yet, whether it is that of a message. -/
  tags : List Bool := []
  /-- The bindings of the messages sent and not known to have completed. -/
  inFlight : List (UInt32 × ℤ) := []
  /-- A buffer was acquired that was bound to such a message. -/
  clash : Bool := false

/-- The buffer is bound to a message that has not completed. -/
def boundInFlight (s : State) (o : Owners) (i : ℤ) : Bool :=
  s.conn.ctx.bufferBindings.any fun e => e.2 = i ∧ e ∈ o.inFlight

/-- Bring the owners up to date after a step. -/
def note (o : Owners) (s : State) : Act → State → Owners
  | .call call, s' =>
    { o with
      messages := o.messages ++ List.replicate (s'.log.length - s.log.length) call.isMessage
      inFlight := o.inFlight ++ call.binds s.conn.ctx }
  | .acquire user, _ =>
    { o with
      clash := o.clash ||
        (rcAcquireBuffer s.conn.ctx user).toOption.any fun r => boundInFlight s o r.1 }
  | .execute _, s' =>
    if puts s s' then { o with tags := o.tags ++ [o.messages.getD s.executed false] } else o
  | .receive .., _ => { o with tags := o.tags ++ [false] }
  | .poll, _ =>
    { o with
      tags := o.tags.tail
      inFlight := if o.tags.headD false then o.inFlight.tail else o.inFlight }
  | _, _ => o

/-- A connection with the owners of its buffers. -/
abbrev owned : State × Owners → Act → Option (State × Owners) := Machine.noting step note

/-- The owners record what a connection does and have no part in it. -/
theorem exists_run_owned_iff {s s' : State} {as : List Act} :
    (∃ o, Machine.run owned (s, {}) as = some (s', o)) ↔ Machine.run step s as = some s' :=
  Machine.exists_run_noting_iff _

/-- No buffer was acquired that a message still needed, and with no message outstanding
nothing is bound. -/
def Owned (x : State × Owners) : Prop :=
  x.2.clash = false ∧ (x.2.inFlight = [] → x.1.conn.ctx.bufferBindings = [])

instance (x : State × Owners) : Decidable (Owned x) := inferInstanceAs (Decidable (_ ∧ _))

/-- A buffer is acquired only with no message outstanding, and a message completes only
with another one outstanding behind it. -/
def Spaced (x : State × Owners) : Act → Prop
  | .acquire _ => x.2.inFlight = []
  | .poll => x.2.tags.headD false = true → 2 ≤ x.2.inFlight.length
  | _ => True

instance (x : State × Owners) (a : Act) : Decidable (Spaced x a) := by
  unfold Spaced
  split <;> infer_instance

/-! ### The invariant -/

/-- What is in flight is what was sent and neither executed nor polled, and is bound. -/
structure Inv (s : State) (o : Owners) : Prop where
  length : o.messages.length = s.log.length
  executed_le : s.executed ≤ s.log.length
  tags : o.tags.length = s.cq.length
  signaled : ∀ (j : ℕ) (r : Ring.Placed WorkRequest), o.messages[j]? = some true →
    s.log[j]? = some r → r.data.flags.signaled = true
  count : o.inFlight.length = (o.messages.drop s.executed).count true + o.tags.count true
  bound : ∀ e ∈ o.inFlight, e ∈ s.conn.ctx.bufferBindings ∧ e.2 = 0
  owned : Owned (s, o)

theorem Inv.initial {s : State} (h : Initial s) : Inv s {} where
  length := by simp [h.log]
  executed_le := by simp [h.executed]
  tags := by simp [h.cq]
  signaled := by simp
  count := by simp
  bound := by simp
  owned := ⟨rfl, fun _ => h.bufferBindings⟩

theorem count_drop (l : List Bool) (n : ℕ) :
    (l.drop n).count true = (l.getD n false).toNat + (l.drop (n + 1)).count true := by
  induction l generalizing n with
  | nil => simp
  | cons b l ih =>
    cases n with
    | zero => cases b <;> simp [add_comm]
    | succ n => simpa using ih n

/-- With nothing in flight no buffer is bound to a message that has not completed, and
with something in flight the one that is acquired next is. -/
theorem Inv.boundInFlight_iff {s : State} {o : Owners} (h : Inv s o) :
    boundInFlight s o 0 = true ↔ o.inFlight ≠ [] := by
  rw [boundInFlight, List.any_eq_true]
  constructor
  · rintro ⟨e, -, he⟩
    exact List.ne_nil_of_mem (of_decide_eq_true he).2
  · intro hne
    obtain ⟨e, he⟩ := List.exists_mem_of_ne_nil _ hne
    exact ⟨e, (h.bound e he).1, decide_eq_true ⟨(h.bound e he).2, he⟩⟩

theorem Inv.call {s : State} {o : Owners} {call : PostCall} {conn : Conn}
    {ret : Option UInt32} {wrs : List WorkRequest} (h : Inv s o)
    (hx : call.exec s.conn = .ok (ret, conn)) (he : Effect call s.conn conn wrs) :
    Inv { s with conn } (note o s (.call call) { s with conn }) := by
  obtain ⟨new, hlog, hdata, hgrow⟩ := he.grow
  have hnote : note o s (.call call) { s with conn } = { o with
      messages := o.messages ++ List.replicate new.length call.isMessage
      inFlight := o.inFlight ++ call.binds s.conn.ctx } := by
    rw [← hgrow]
    rfl
  -- a message is one request, and the only call that binds
  have hone : (call.binds s.conn.ctx).length =
        (List.replicate new.length call.isMessage).count true ∧
      ∀ e ∈ call.binds s.conn.ctx, e.2 = 0 := by
    cases call with
    | message msgSize buffer =>
      obtain ⟨rfl, hlen⟩ := message_eq_ok hx
      have hnew : new.length = 1 := by omega
      simp [hnew, PostCall.binds, PostCall.isMessage]
    | rdma | send | post | cas | fetchAdd | convertEndian | noop | calcOp | wait | waitTill
    | waitExplicit | trigger | triggerExplicit | setTrigger =>
      simp [PostCall.binds, PostCall.isMessage, List.count_replicate]
  rw [hnote]
  refine ⟨?_, ?_, h.tags, ?_, ?_, ?_, h.owned.1, ?_⟩
  · show (o.messages ++ List.replicate new.length call.isMessage).length = conn.qp.log.length
    rw [hlog, List.length_append, List.length_append, List.length_replicate, h.length]
    rfl
  · show s.executed ≤ conn.qp.log.length
    rw [hlog, List.length_append]
    exact h.executed_le.trans (Nat.le_add_right _ _)
  · intro j r hj hr
    change conn.qp.log[j]? = some r at hr
    rw [hlog] at hr
    rcases label_cases h.length hj hr with ⟨hj, hr⟩ | ⟨hmsg, hmem⟩
    · exact h.signaled j r hj hr
    · cases call with
      | message msgSize buffer => exact he.signals _ (hdata ▸ List.mem_map_of_mem hmem)
      | rdma | send | post | cas | fetchAdd | convertEndian | noop | calcOp | wait | waitTill
      | waitExplicit | trigger | triggerExplicit | setTrigger =>
        exact absurd hmsg (by simp [PostCall.isMessage])
  · show (o.inFlight ++ _).length =
      ((o.messages ++ List.replicate _ _).drop s.executed).count true + _
    rw [List.length_append, h.count, hone.1,
      List.drop_append_of_le_length (h.length ▸ h.executed_le), List.count_append]
    exact Nat.add_right_comm _ _ _
  · intro e hmem
    show e ∈ conn.ctx.bufferBindings ∧ e.2 = 0
    rw [he.moved.bufferBindings]
    rcases List.mem_append.mp hmem with hmem | hmem
    · exact ⟨List.mem_append_right _ (h.bound e hmem).1, (h.bound e hmem).2⟩
    · exact ⟨List.mem_append_left _ hmem, hone.2 e hmem⟩
  · intro hnil
    obtain ⟨hold, hnew⟩ := List.append_eq_nil_iff.mp hnil
    show conn.ctx.bufferBindings = []
    rw [he.moved.bufferBindings, hnew, List.nil_append]
    exact h.owned.2 hold

/-- A step that touches neither queue nor bindings. -/
theorem Inv.frame {s s' : State} {o : Owners} (h : Inv s o) (hlog : s'.log = s.log)
    (hexec : s'.executed = s.executed) (hcq : s'.cq = s.cq)
    (hbind : s'.conn.ctx.bufferBindings = s.conn.ctx.bufferBindings) : Inv s' o := by
  refine ⟨hlog ▸ h.length, by rw [hlog, hexec]; exact h.executed_le, hcq ▸ h.tags,
    hlog ▸ h.signaled, hexec ▸ h.count, hbind ▸ h.bound, h.owned.1, ?_⟩
  intro hnil
  exact hbind.trans (h.owned.2 hnil)

theorem Inv.execute {s s' : State} {o : Owners} {status : WcStatus} (h : Inv s o)
    (hs : Execution.step s (.execute status) = some s') :
    Inv s' (note o s (.execute status) s') := by
  obtain ⟨r, hr, hcase⟩ := step_execute_cases hs
  have hlt : s.executed < s.log.length := (List.getElem?_eq_some_iff.mp hr).1
  have hdrop := count_drop o.messages s.executed
  have hcount := h.count
  show Inv s' (if puts s s' then _ else o)
  -- a request that puts no CQE is no message
  have hquiet : r.data.flags.signaled = false → o.messages.getD s.executed false = false := by
    intro hsig
    cases hm : o.messages[s.executed]? with
    | none => simp [hm]
    | some b =>
      cases b with
      | false => simp [hm]
      | true => exact absurd (h.signaled _ r hm hr) (by simp [hsig])
  have hkey : ∀ (succeeded : ℕ) (wc : IbvWc), Inv
      { s with executed := s.executed + 1, succeeded, cq := s.cq ++ [wc] }
      { o with tags := o.tags ++ [o.messages.getD s.executed false] } := by
    intro succeeded wc
    refine ⟨h.length, hlt, ?_, h.signaled, ?_, h.bound, h.owned⟩
    · show (o.tags ++ [_]).length = (s.cq ++ [wc]).length
      rw [List.length_append, List.length_append, h.tags]
      rfl
    · show o.inFlight.length =
        (o.messages.drop (s.executed + 1)).count true + (o.tags ++ [_]).count true
      rw [List.count_append]
      cases hm : o.messages.getD s.executed false with
      | false =>
        rw [hm] at hdrop
        simp at hdrop ⊢
        omega
      | true =>
        rw [hm] at hdrop
        simp at hdrop ⊢
        omega
  rcases hcase with ⟨rfl, -, hs'⟩ | ⟨rfl, rfl⟩
  · by_cases hsig : r.data.flags.signaled = true
    · rw [if_pos hsig] at hs'
      subst hs'
      rw [if_pos (by simp [puts])]
      exact hkey _ _
    · have hm := hquiet (Bool.eq_false_iff.mpr hsig)
      rw [if_neg hsig] at hs'
      subst hs'
      rw [if_neg (by simp [puts])]
      refine ⟨h.length, hlt, h.tags, h.signaled, ?_, h.bound, h.owned⟩
      show o.inFlight.length = (o.messages.drop (s.executed + 1)).count true + _
      rw [hm, Bool.toNat_false] at hdrop
      omega
  · rw [if_pos (by simp [puts])]
    exact hkey _ _

theorem Inv.receive {s s' : State} {o : Owners} {status : WcStatus} {withImm : Bool}
    {immData : UInt32} (h : Inv s o)
    (hs : Execution.step s (.receive status withImm immData) = some s') :
    Inv s' (note o s (.receive status withImm immData) s') := by
  obtain ⟨r, recvq, wc, -, -, rfl⟩ := step_receive_eq_some hs
  refine ⟨h.length, h.executed_le, ?_, h.signaled, ?_, h.bound, h.owned⟩
  · show (o.tags ++ [false]).length = (s.cq ++ [wc]).length
    rw [List.length_append, List.length_append, h.tags]
    rfl
  · show o.inFlight.length = _ + (o.tags ++ [false]).count true
    rw [List.count_append]
    exact h.count

/-- The poller takes a CQE, and with that of a message the message is done. -/
theorem step_poll_noted {s s' : State} {o : Owners} (h : Inv s o)
    (hs : Execution.step s .poll = some s') :
    s'.log = s.log ∧ s'.executed = s.executed ∧ s'.cq = s.cq.tail ∧
      s'.conn.ctx.bufferBindings = s.conn.ctx.bufferBindings ∧
      ∃ tag tags, o.tags = tag :: tags ∧ note o s .poll s' =
        { o with tags, inFlight := if tag then o.inFlight.tail else o.inFlight } := by
  obtain ⟨wc, cq, ctx, msg, hcq, hpoll, rfl⟩ := step_poll_eq_some hs
  have hbind : ctx.bufferBindings = s.conn.ctx.bufferBindings := by
    rw [pollCq_frame hpoll]
  refine ⟨rfl, rfl, by rw [hcq]; rfl, hbind, ?_⟩
  cases htags : o.tags with
  | nil =>
    have hlen := h.tags
    rw [htags, hcq] at hlen
    exact absurd hlen (by simp)
  | cons tag tags => exact ⟨tag, tags, rfl, by simp [note, htags]⟩

theorem Inv.poll {s s' : State} {o : Owners} (h : Inv s o) (hc : Spaced (s, o) .poll)
    (hs : Execution.step s .poll = some s') : Inv s' (note o s .poll s') := by
  obtain ⟨hlog, hexec, hcq, hbind, tag, tags, htags, hnote⟩ := step_poll_noted h hs
  have hlen : tags.length = s'.cq.length := by
    rw [hcq, List.length_tail, ← h.tags, htags]
    rfl
  have hcount := h.count
  rw [htags, List.count_cons] at hcount
  have hmore : tag = true → 2 ≤ o.inFlight.length := by
    intro htag
    have hhead := hc
    simp only [Spaced, htags, List.headD_cons] at hhead
    exact hhead htag
  rw [hnote]
  refine ⟨hlog ▸ h.length, by rw [hlog, hexec]; exact h.executed_le, hlen, hlog ▸ h.signaled,
    ?_, ?_, h.owned.1, ?_⟩
  · show (if tag = true then o.inFlight.tail else o.inFlight).length =
      (o.messages.drop s'.executed).count true + tags.count true
    rw [hexec]
    cases tag with
    | false =>
      simp at hcount ⊢
      omega
    | true =>
      simp at hcount ⊢
      omega
  · intro e he
    rw [hbind]
    refine h.bound e ?_
    change e ∈ (if tag = true then o.inFlight.tail else o.inFlight) at he
    split at he
    · exact List.mem_of_mem_tail he
    · exact he
  · intro hnil
    change (if tag = true then o.inFlight.tail else o.inFlight) = [] at hnil
    show s'.conn.ctx.bufferBindings = []
    rw [hbind]
    split at hnil
    · -- another message is outstanding behind the one that completed
      rename_i htag
      have htail := congrArg List.length hnil
      rw [List.length_tail, List.length_nil] at htail
      have := hmore htag
      omega
    · exact h.owned.2 hnil

/-! ### What the steps do to the owners -/

theorem Inv.noted {s s' : State} {o : Owners} {a : Act} (h : Inv s o) (hc : Spaced (s, o) a)
    (hs : Execution.step s a = some s') : Inv s' (note o s a s') := by
  cases a with
  | call call =>
    obtain ⟨ret, conn, wrs, hx, he, rfl⟩ := step_call_eq_some hs
    exact h.call hx he
  | nextWrId =>
    obtain rfl := Option.some_inj.mp hs
    exact h.frame rfl rfl rfl rfl
  | acquire user =>
    obtain ⟨hacq, rfl⟩ := step_acquire_eq_some hs
    have hfree : boundInFlight s o 0 = false := by
      rw [Bool.eq_false_iff, ne_eq, h.boundInFlight_iff]
      exact not_not_intro hc
    show Inv _ { o with clash := o.clash || _ }
    rw [Except.toOption_eq_some.mpr hacq, Option.any_some, hfree, Bool.or_false]
    exact h.frame rfl rfl rfl rfl
  | recv call =>
    obtain ⟨r, rfl⟩ := step_recv_eq_some hs
    exact h.frame rfl rfl rfl rfl
  | execute status => exact h.execute hs
  | receive status withImm immData => exact h.receive hs
  | poll => exact h.poll hc hs

/-- Outside these bounds the step itself does the damage. -/
theorem not_owned_of_step {s s' : State} {o : Owners} {a : Act} (h : Inv s o)
    (hc : ¬ Spaced (s, o) a) (hs : step s a = some s') : ¬ Owned (s', note o s a s') := by
  cases a with
  | acquire user =>
    obtain ⟨hacq, -⟩ := step_acquire_eq_some hs
    have hclash : (note o s (.acquire user) s').clash = true := by
      show (o.clash || _) = true
      rw [Except.toOption_eq_some.mpr hacq, Option.any_some, h.boundInFlight_iff.mpr hc,
        Bool.or_true]
    rintro ⟨hno, -⟩
    exact absurd (hclash.symm.trans hno) (by simp)
  | poll =>
    obtain ⟨-, -, -, hbind, tag, tags, htags, hnote⟩ := step_poll_noted h hs
    obtain ⟨htag, hfew⟩ : tag = true ∧ o.inFlight.length < 2 := by
      simpa [Spaced, htags] using hc
    have hcount := h.count
    rw [htags, List.count_cons, if_pos (by simp [htag])] at hcount
    rintro ⟨-, hnone⟩
    -- the last message has completed, and its binding is still there
    have hnil : (note o s .poll s').inFlight = [] := by
      rw [hnote]
      show (if tag = true then o.inFlight.tail else o.inFlight) = []
      rw [if_pos htag, ← List.length_eq_zero_iff, List.length_tail]
      omega
    have hempty := hbind.symm.trans (hnone hnil)
    obtain ⟨e, he⟩ : ∃ e, e ∈ o.inFlight :=
      List.exists_mem_of_ne_nil _ (List.ne_nil_of_length_pos (by omega))
    exact absurd (h.bound e he).1 (by rw [hempty]; simp)
  | call | nextWrId | recv | execute | receive => exact absurd trivial hc

/-- **Send buffers are not reused in flight**, and are unbound with nothing in flight,
throughout a run exactly when each acquire finds no message outstanding and each message
that completes leaves another one outstanding. -/
theorem buffers_owned_iff {s₀ s : State} {o : Owners} {as : List Act} (h : Initial s₀)
    (hr : Machine.run owned (s₀, {}) as = some (s, o)) :
    Machine.Along owned Owned (s₀, {}) as ↔ Machine.Meets owned Spaced (s₀, {}) as := by
  refine Machine.along_iff_meets (I := fun x => Inv x.1 x.2) (fun _ hi => hi.owned)
    ?_ ?_ (Inv.initial h) hr
  · intro x a x' hi hc hs
    obtain ⟨hstep, ho⟩ := Machine.noting_eq_some.mp hs
    rw [ho]
    exact hi.noted hc hstep
  · rintro x a ⟨s', o'⟩ hi hc hs
    obtain ⟨hstep, ho⟩ := Machine.noting_eq_some.mp hs
    rw [show o' = note x.2 x.1 a s' from ho]
    exact not_owned_of_step hi hc hstep

/-- A connection with its message buffer set up. -/
def ready : State where
  conn :=
    { conn64 with ctx :=
      { conn64.ctx with
        msgSend := fun _ => 0x2000
        msgSendMr := fun _ =>
          some { addr := 0x2000, length := 56, lkey := 5, rkey := 6, pd := 0 } } }

theorem ready_initial : Initial ready := ⟨rfl, rfl, rfl, rfl, rfl, rfl, rfl, rfl, rfl⟩

/-- A buffer is acquired and a message sent from it. -/
theorem buffers_owned_once :
    Machine.Along owned Owned (ready, {}) [.acquire true, .call (.message 8 0)] := by
  obtain ⟨s, o, hr⟩ : ∃ s o,
      Machine.run owned (ready, {}) [.acquire true, .call (.message 8 0)] = some (s, o) :=
    ⟨_, _, rfl⟩
  exact (buffers_owned_iff ready_initial hr).mpr (by decide)

/-- The buffer of a message that has not been executed is handed out again. -/
theorem buffer_reacquired : Initial ready ∧ ∃ s o,
    Machine.run owned (ready, {}) [.acquire true, .call (.message 8 0), .acquire true] =
      some (s, o) ∧ s.executed = 0 ∧ o.clash = true ∧ ¬ Owned (s, o) :=
  ⟨ready_initial, _, _, rfl, by decide, by decide, by decide⟩

/-- The binding of a message stays after its completion was handled. -/
theorem binding_left : ∃ s o,
    Machine.run owned (ready, {}) [.acquire true, .call (.message 8 0), .execute .success, .poll] =
      some (s, o) ∧ o.inFlight = [] ∧ s.conn.ctx.bufferBindings = [(1, 0)] :=
  ⟨_, _, rfl, by decide, by decide⟩

end Buffers

end Rdma
