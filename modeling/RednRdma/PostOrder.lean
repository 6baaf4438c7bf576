/-
The order of the send queue (`verbs.c`).

A posting call first takes the ids of its requests from the atomic counter
`last_send` and then hands the requests to the driver.  `send_rdma_operation` holds
`wr_lock` around both; the other calls hold nothing.

* `step` — the calls of any number of callers, one atomic step at a time;
* `exec_alone` — a call that nobody interferes with is the run of its steps;
* `post_order_iff` — the queue is in the order of the ids while every caller hands over
  in turn, and a run that leaves no id behind in that order had no other step;
* `locked_in_turn` — callers of `send_rdma_operation` alone are always in turn;
* `noop_overtakes_cas` — two callers that are not.
-/
import RednRdma.PostEffect
import RednRdma.Lib.Tickets
import RednRdma.Lib.Machine

namespace Rdma

namespace PostOrder

/-- What a call is about to post. -/
inductive Posting
  /-- The batch of `send_rdma_operation`. -/
  | chain (wrs : List WorkRequest)
  /-- The request of `IBV_CAS_ASYNC`, `IBV_FETCH_ADD_ASYNC`, `IBV_CONVERT_ENDIAN_ASYNC` or
  `IBV_NOOP_ASYNC`. -/
  | single (wr : WorkRequest)
  /-- The request of `send_message`, from a send buffer. -/
  | message (wr : WorkRequest) (buffer : ℤ)

/-- The requests of the posting, without their ids. -/
def Posting.wrs : Posting → List WorkRequest
  | chain wrs => wrs
  | single wr | message wr _ => [wr]

/-- `wr_lock` is held while the requests are numbered and posted. -/
def Posting.locked : Posting → Bool
  | chain _ => true
  | single _ | message .. => false

/-- `rc_bind_buffer`, for a message. -/
def Posting.bind (ctx : ConnContext) (wrs : List WorkRequest) : Posting → ConnContext
  | message _ buffer =>
    match wrs with
    | wr :: _ => rcBindBuffer ctx buffer wr.wrId.toUInt32
    | [] => ctx
  | _ => ctx

/-- Where a caller is. -/
inductive Pc
  | idle
  /-- The requests still to be numbered, and those that have their ids. -/
  | numbering (p : Posting) (todo done : List WorkRequest)
  /-- The requests are posted, and `wr_lock` is still held. -/
  | posted

/-- The requests a caller has numbered and not handed over. -/
def Pc.held : Pc → List WorkRequest
  | numbering _ _ done => done
  | _ => []

structure State (ι : Type) where
  conn : Conn
  /-- Who holds `wr_lock`. -/
  lock : Option ι := none
  pc : ι → Pc := fun _ => .idle

inductive Act (ι : Type)
  /-- A call starts; `send_rdma_operation` gets `wr_lock`. -/
  | enter (i : ι) (p : Posting)
  /-- `next_wr_id(ctx, 1)` for the next request. -/
  | take (i : ι)
  /-- `ibv_post_send_wrapper` for all the requests. -/
  | hand (i : ι)
  /-- `send_rdma_operation` gives `wr_lock` back. -/
  | unlock (i : ι)

variable {ι : Type} [DecidableEq ι]

/-- One atomic step.  Runs give out fewer than `2^31` ids. -/
def step (s : State ι) : Act ι → Option (State ι)
  | .enter i p =>
    match s.pc i with
    | .idle =>
      if p.wrs = [] then none
      else if p.locked then
        match s.lock with
        | none =>
          some { s with lock := some i, pc := Function.update s.pc i (.numbering p p.wrs []) }
        | some _ => none
      else some { s with pc := Function.update s.pc i (.numbering p p.wrs []) }
    | _ => none
  | .take i =>
    match s.pc i with
    | .numbering p (wr :: todo) done =>
      if s.conn.ctx.lastSend.toNat + 1 < 2 ^ 31 then
        let (wrId, ctx) := nextWrId s.conn.ctx 1
        some { s with
          conn := { s.conn with ctx }
          pc := Function.update s.pc i
            (.numbering p todo (done ++ [{ wr with wrId := wrId.toUInt64 }])) }
      else none
    | _ => none
  | .hand i =>
    match s.pc i with
    | .numbering p [] done =>
      (submit { s.conn with ctx := countOps (p.bind s.conn.ctx done) done.length }
        "failed to post rdma operation" done).toOption.map fun conn =>
          { s with conn, pc := Function.update s.pc i (if p.locked then .posted else .idle) }
    | _ => none
  | .unlock i =>
    match s.pc i with
    | .posted => some { s with lock := none, pc := Function.update s.pc i .idle }
    | _ => none

/-- No call is under way and nothing has been posted or numbered. -/
structure Initial (s : State ι) : Prop where
  log : s.conn.qp.log = []
  lastSend : s.conn.ctx.lastSend = 0
  lock : s.lock = none
  pc : ∀ i, s.pc i = .idle

/-- The number of a request's id. -/
def number (wr : WorkRequest) : ℕ := wr.wrId.toNat

/-- The ids as tickets. -/
def tickets (s : State ι) : Tickets.State ι where
  last := s.conn.ctx.lastSend.toNat
  held i := (s.pc i).held.map number
  out := s.conn.qp.log.map fun r => number r.data

/-- The requests are in the queue in strictly increasing order of their ids. -/
def Ordered (s : State ι) : Prop := (s.conn.qp.log.map fun r => number r.data).Pairwise (· < ·)

/-- Every call has returned. -/
def Quiescent (s : State ι) : Prop := ∀ i, s.pc i = .idle

/-- A caller hands over only what is smaller than any id another one holds. -/
def InTurn (s : State ι) : Act ι → Prop
  | .hand i => ∀ j, j ≠ i → ∀ w ∈ (s.pc j).held, ∀ v ∈ (s.pc i).held, number v < number w
  | _ => True

/-! ### The steps on the tickets -/

theorem held_update (f : ι → Pc) (i : ι) (pc : Pc) :
    (fun j => (Function.update f i pc j).held.map number) =
      Function.update (fun j => (f j).held.map number) i (pc.held.map number) := by
  funext j
  by_cases hj : j = i
  · subst hj
    simp
  · simp [hj]

/-- A step that changes what nobody holds. -/
theorem tickets_update {s : State ι} {i : ι} {pc : Pc} {lock : Option ι}
    (hold : (s.pc i).held = []) (hnew : pc.held = []) :
    tickets { s with lock, pc := Function.update s.pc i pc } = tickets s := by
  show Tickets.State.mk _ _ _ = _
  rw [held_update, hnew]
  congr 1
  exact Function.update_eq_self_iff.mpr (by rw [hold])

/-- What a step does to the tickets. -/
def onTickets (t : Tickets.State ι) : Act ι → Tickets.State ι
  | .take i => Tickets.take t i
  | .hand i => Tickets.deliver t i
  | _ => t

theorem step_enter_eq_some {s s' : State ι} {i : ι} {p : Posting}
    (hs : step s (.enter i p) = some s') :
    s.pc i = .idle ∧ (p.locked = true → s.lock = none) ∧ p.wrs ≠ [] ∧
      s' = { s with
        lock := if p.locked then some i else s.lock
        pc := Function.update s.pc i (.numbering p p.wrs []) } := by
  simp only [step] at hs
  split at hs
  · rename_i hpc
    split at hs
    · exact absurd hs (by simp)
    · rename_i hne
      split at hs
      · rename_i hlocked
        split at hs
        · rename_i hlock
          obtain rfl := Option.some_inj.mp hs
          exact ⟨hpc, fun _ => hlock, hne, by rw [if_pos hlocked]⟩
        · exact absurd hs (by simp)
      · rename_i hfree
        obtain rfl := Option.some_inj.mp hs
        exact ⟨hpc, fun hl => absurd hl hfree, hne, by rw [if_neg hfree]⟩
  · exact absurd hs (by simp)

theorem step_take_eq_some {s s' : State ι} {i : ι} (hs : step s (.take i) = some s') :
    ∃ p wr todo done, s.pc i = .numbering p (wr :: todo) done ∧
      s.conn.ctx.lastSend.toNat + 1 < 2 ^ 31 ∧
      s' = { s with
        conn := { s.conn with ctx := bumpSend s.conn.ctx }
        pc := Function.update s.pc i (.numbering p todo
          (done ++ [{ wr with wrId := (s.conn.ctx.lastSend + 1).toUInt64 }])) } := by
  simp only [step] at hs
  split at hs
  · rename_i p wr todo done hpc
    split at hs
    · rename_i hlt
      obtain rfl := Option.some_inj.mp hs
      exact ⟨p, wr, todo, done, hpc, hlt, rfl⟩
    · exact absurd hs (by simp)
  · exact absurd hs (by simp)

theorem step_hand_eq_some {s s' : State ι} {i : ι} (hs : step s (.hand i) = some s') :
    ∃ p done conn, s.pc i = .numbering p [] done ∧
      submit { s.conn with ctx := countOps (p.bind s.conn.ctx done) done.length }
        "failed to post rdma operation" done = .ok conn ∧
      s' = { s with conn, pc := Function.update s.pc i (if p.locked then .posted else .idle) } := by
  simp only [step] at hs
  split at hs
  · rename_i p done hpc
    obtain ⟨conn, hconn, rfl⟩ := Option.map_eq_some_iff.mp hs
    exact ⟨p, done, conn, hpc, Except.toOption_eq_some.mp hconn, rfl⟩
  · exact absurd hs (by simp)

theorem step_unlock_eq_some {s s' : State ι} {i : ι} (hs : step s (.unlock i) = some s') :
    s.pc i = .posted ∧ s' = { s with lock := none, pc := Function.update s.pc i .idle } := by
  simp only [step] at hs
  split at hs
  · rename_i hpc
    obtain rfl := Option.some_inj.mp hs
    exact ⟨hpc, rfl⟩
  · exact absurd hs (by simp)

theorem bind_lastSend (p : Posting) (ctx : ConnContext) (wrs : List WorkRequest) :
    (p.bind ctx wrs).lastSend = ctx.lastSend := by
  cases p with
  | chain | single => rfl
  | message => cases wrs <;> rfl

/-- **The calls are tickets** taken and handed in. -/
theorem tickets_step {s s' : State ι} {a : Act ι} (hs : step s a = some s') :
    tickets s' = onTickets (tickets s) a := by
  cases a with
  | enter i p =>
    obtain ⟨hpc, -, -, rfl⟩ := step_enter_eq_some hs
    exact tickets_update (by rw [hpc]; rfl) rfl
  | take i =>
    obtain ⟨p, wr, todo, done, hpc, hlt, rfl⟩ := step_take_eq_some hs
    have hlast : (s.conn.ctx.lastSend + 1).toNat = s.conn.ctx.lastSend.toNat + 1 := by
      rw [UInt32.toNat_add]
      exact Nat.mod_eq_of_lt (by show _ + 1 < _; omega)
    have hid : number { wr with wrId := (s.conn.ctx.lastSend + 1).toUInt64 } =
        s.conn.ctx.lastSend.toNat + 1 := (UInt32.toNat_toUInt64 _).trans hlast
    have hheld : (tickets s).held i = done.map number := by
      show (s.pc i).held.map number = _
      rw [hpc]
      rfl
    show Tickets.State.mk _ _ _ =
      Tickets.State.mk _ (Function.update _ i ((tickets s).held i ++ [_])) _
    rw [held_update, hheld]
    show Tickets.State.mk (s.conn.ctx.lastSend + 1).toNat
      (Function.update _ i ((done ++ [_]).map number)) _ = _
    rw [List.map_append, List.map_singleton, hid, hlast]
    rfl
  | hand i =>
    obtain ⟨p, done, conn, hpc, hsub, rfl⟩ := step_hand_eq_some hs
    obtain ⟨hup, hqp⟩ := submit_eq_ok hsub
    obtain ⟨new, hlog, hdata⟩ := DriverQp.postList_log hqp
    obtain ⟨iqp, wr, -, -, hctx⟩ := updateScurPost_eq_ok hup
    have hlast : conn.ctx.lastSend = s.conn.ctx.lastSend := by
      rw [hctx]
      exact bind_lastSend p s.conn.ctx done
    have hheld : (s.pc i).held = done := by rw [hpc]; rfl
    show Tickets.State.mk _ _ _ = Tickets.State.mk _ _ _
    rw [held_update, hlast]
    congr 1
    · congr 1
      cases p.locked <;> rfl
    · show conn.qp.log.map _ = s.conn.qp.log.map _ ++ (s.pc i).held.map number
      rw [hlog, List.map_append, hheld, ← hdata, List.map_map]
      rfl
  | unlock i =>
    obtain ⟨hpc, rfl⟩ := step_unlock_eq_some hs
    exact tickets_update (by rw [hpc]; rfl) rfl

/-! ### Whole runs -/

omit [DecidableEq ι] in
theorem inTurn_iff {s : State ι} {i : ι} :
    InTurn s (.hand i) ↔ Tickets.InTurn (tickets s) i := by
  simp only [InTurn, Tickets.InTurn, tickets, List.forall_mem_map]

omit [DecidableEq ι] in
theorem Initial.inv {s : State ι} (h : Initial s) : Tickets.Inv (tickets s) := by
  have hheld : ∀ i, (tickets s).held i = [] := by
    intro i
    show (s.pc i).held.map number = []
    rw [h.pc i]
    rfl
  have hout : (tickets s).out = [] := by
    show s.conn.qp.log.map _ = []
    rw [h.log]
    rfl
  exact {
    ordered := by simp [Tickets.Ordered, hout]
    out_le := by simp [hout]
    held_le := by simp [hheld]
    held_sorted := by simp [hheld]
    disjoint := by simp [hheld]
    ahead := by simp [hout] }

theorem inv_step {s s' : State ι} {a : Act ι} (h : Tickets.Inv (tickets s)) (hc : InTurn s a)
    (hs : step s a = some s') : Tickets.Inv (tickets s') := by
  rw [tickets_step hs]
  cases a with
  | take i => exact h.take i
  | hand i => exact h.deliver (inTurn_iff.mp hc)
  | enter | unlock => exact h

/-- Some id is, or will be, in the queue behind a larger one. -/
def Late (s : State ι) : Prop := Tickets.Overtaken (tickets s) ∨ ¬ Tickets.Ordered (tickets s)

theorem late_step {s s' : State ι} {a : Act ι} (h : Late s) (hs : step s a = some s') :
    Late s' := by
  rw [Late, tickets_step hs]
  cases a with
  | take i =>
    rcases h with hover | hord
    · exact Or.inl (hover.take i)
    · exact Or.inr hord
  | hand i =>
    rcases h with hover | hord
    · exact hover.deliver i
    · exact Or.inr fun hnew => hord hnew.of_deliver
  | enter | unlock => exact h

theorem late_of_not_inTurn {s s' : State ι} {a : Act ι} (h : Tickets.Inv (tickets s))
    (hc : ¬ InTurn s a) (hs : step s a = some s') : Late s' := by
  cases a with
  | hand i =>
    refine Or.inl ?_
    rw [tickets_step hs]
    exact Tickets.overtaken_of_not_inTurn h fun hturn => hc (inTurn_iff.mpr hturn)
  | enter | take | unlock => exact absurd trivial hc

omit [DecidableEq ι] in
theorem Quiescent.settled {s : State ι} (h : Quiescent s) : Tickets.Settled (tickets s) := by
  intro i
  show (s.pc i).held.map number = []
  rw [h i]
  rfl

/-- **Posting order is id order** in every state of a run in which each caller hands over
only while nobody else holds a smaller id.  If every call of the run has returned, the
queue is in order only if all steps were such. -/
theorem post_order_iff {s₀ s : State ι} {as : List (Act ι)} (h : Initial s₀)
    (hr : Machine.run step s₀ as = some s) :
    (Machine.Meets step InTurn s₀ as → Machine.Along step Ordered s₀ as) ∧
    (Quiescent s → (Ordered s ↔ Machine.Meets step InTurn s₀ as)) := by
  refine ⟨fun hm => Machine.along_of_meets (I := fun t => Tickets.Inv (tickets t))
    (fun _ _ _ hi hc hs => inv_step hi hc hs) (fun _ hi => hi.ordered) h.inv hm,
    fun hq => ⟨fun hord => ?_, fun hm => ?_⟩⟩
  · have hcases : Machine.Meets step InTurn s₀ as ∨ Late s :=
      Machine.meets_or_marked (I := fun t => Tickets.Inv (tickets t))
        (fun _ _ _ hi hc hs => inv_step hi hc hs)
        (fun _ _ _ hi hc hs => late_of_not_inTurn hi hc hs)
        (fun _ _ _ hl hs => late_step hl hs) h.inv hr
    rcases hcases with hm | hover | hnot
    · exact hm
    · exact absurd hover (Tickets.not_overtaken_of_settled hq.settled)
    · exact absurd hord hnot
  · have hinv : Tickets.Inv (tickets s) :=
      Machine.run_inv_of_meets (I := fun t => Tickets.Inv (tickets t))
        (fun _ _ _ hi hc hs => inv_step hi hc hs) h.inv hm hr
    exact hinv.ordered

/-! ### Under the lock -/

/-- The act starts no call but `send_rdma_operation`. -/
def Locks (_ : State ι) : Act ι → Prop
  | .enter _ p => p.locked = true
  | _ => True

/-- Whoever is in a call holds the lock. -/
def Exclusive (s : State ι) : Prop :=
  ∀ i, s.pc i ≠ .idle → s.lock = some i ∧ ∀ p todo done, s.pc i = .numbering p todo done →
    p.locked = true

theorem Exclusive.update {s s' : State ι} {i : ι} {pc : Pc} (h : Exclusive s)
    (hi : s.pc i ≠ .idle) (hlock : s'.lock = s.lock) (hpc : s'.pc = Function.update s.pc i pc)
    (hnew : ∀ p todo done, pc = .numbering p todo done → p.locked = true) : Exclusive s' := by
  intro j hj
  rw [hlock]
  rw [hpc] at hj ⊢
  by_cases hij : j = i
  · subst hij
    rw [Function.update_self]
    exact ⟨(h j hi).1, hnew⟩
  · rw [Function.update_of_ne hij] at hj ⊢
    exact h j hj

theorem Exclusive.step {s s' : State ι} {a : Act ι} (h : Exclusive s) (hl : Locks s a)
    (hs : PostOrder.step s a = some s') : Exclusive s' := by
  cases a with
  | enter i p =>
    obtain ⟨hpc, hlock, -, rfl⟩ := step_enter_eq_some hs
    have hlocked : p.locked = true := hl
    intro j hj
    by_cases hij : j = i
    · subst hij
      refine ⟨by simp [hlocked], ?_⟩
      intro p' todo done hp
      obtain ⟨rfl, -, -⟩ := Pc.numbering.inj ((Function.update_self ..).symm.trans hp)
      exact hlocked
    · have hidle : s.pc j ≠ .idle := by
        intro hidle
        exact hj ((Function.update_of_ne hij ..).trans hidle)
      have hheld := (h j hidle).1
      rw [hlock hlocked] at hheld
      exact absurd hheld (by simp)
  | take i =>
    obtain ⟨p, wr, todo, done, hpc, -, rfl⟩ := step_take_eq_some hs
    have hidle : s.pc i ≠ .idle := by rw [hpc]; simp
    refine h.update hidle rfl rfl ?_
    rintro p' todo' done' hp
    obtain ⟨rfl, -, -⟩ := Pc.numbering.inj hp
    exact (h i hidle).2 _ _ _ hpc
  | hand i =>
    obtain ⟨p, done, conn, hpc, -, rfl⟩ := step_hand_eq_some hs
    have hidle : s.pc i ≠ .idle := by rw [hpc]; simp
    refine h.update hidle rfl rfl ?_
    rintro p' todo' done' hp
    rw [if_pos ((h i hidle).2 _ _ _ hpc)] at hp
    exact absurd hp (by simp)
  | unlock i =>
    obtain ⟨hpc, rfl⟩ := step_unlock_eq_some hs
    have hmine := (h i (by rw [hpc]; simp)).1
    intro j hj
    by_cases hij : j = i
    · subst hij
      exact absurd (Function.update_self ..) hj
    · have hidle : s.pc j ≠ .idle := by
        intro hidle
        exact hj ((Function.update_of_ne hij ..).trans hidle)
      have hother := (h j hidle).1
      rw [hmine, Option.some_inj] at hother
      exact absurd hother.symm hij

/-- Callers that all hold `wr_lock` around numbering and posting are in turn. -/
theorem locked_in_turn {s : State ι} {as : List (Act ι)} (h : Initial s)
    (hl : Machine.Meets step Locks s as) : Machine.Meets step InTurn s as := by
  refine Machine.meets_of_inv (I := Exclusive) ?_ (fun _ _ _ hi hl hs => hi.step hl hs) ?_ hl
  · intro s a hi _
    cases a with
    | hand i =>
      intro j hj w hw v hv
      -- whoever holds an id is in a call, and only one is
      have hpc : ∀ k (u : WorkRequest), u ∈ (s.pc k).held → s.pc k ≠ .idle := by
        intro k u hu hidle
        rw [hidle] at hu
        exact absurd hu (by simp [Pc.held])
      have hlocki := (hi i (hpc i v hv)).1
      have hlockj := (hi j (hpc j w hw)).1
      rw [hlocki, Option.some_inj] at hlockj
      exact absurd hlockj.symm hj
    | enter | take | unlock => exact trivial
  · intro i hpc
    exact absurd (h.pc i) hpc

/-! ### A call that runs alone -/

/-- The steps of a posting, in a row. -/
def alone (i : ι) (p : Posting) : List (Act ι) :=
  .enter i p :: (List.replicate p.wrs.length (.take i) ++
    .hand i :: if p.locked then [.unlock i] else [])

/-- Taking the ids one by one is `takeIds`. -/
theorem run_takes {s : State ι} {i : ι} {p : Posting} {wrs done : List WorkRequest}
    (hpc : s.pc i = .numbering p wrs done)
    (hlt : s.conn.ctx.lastSend.toNat + wrs.length < 2 ^ 31) :
    Machine.run step s (List.replicate wrs.length (.take i)) = some { s with
      conn := { s.conn with ctx := (takeIds s.conn.ctx wrs).2 }
      pc := Function.update s.pc i (.numbering p [] (done ++ (takeIds s.conn.ctx wrs).1)) } := by
  induction wrs generalizing s done with
  | nil =>
    rw [List.length_nil, List.replicate_zero, Machine.run_nil, takeIds, List.append_nil,
      Function.update_eq_self_iff.mpr hpc.symm]
  | cons wr wrs ih =>
    rw [List.length_cons] at hlt
    have hlast : (s.conn.ctx.lastSend + 1).toNat = s.conn.ctx.lastSend.toNat + 1 := by
      rw [UInt32.toNat_add]
      exact Nat.mod_eq_of_lt (by show _ + 1 < _; omega)
    have hstep : step s (.take i) = some { s with
        conn := { s.conn with ctx := bumpSend s.conn.ctx }
        pc := Function.update s.pc i (.numbering p wrs
          (done ++ [{ wr with wrId := (s.conn.ctx.lastSend + 1).toUInt64 }])) } := by
      simp only [step, hpc]
      rw [if_pos (by omega)]
      rfl
    refine (Machine.run_cons_eq_some step).mpr ⟨_, hstep, ?_⟩
    rw [ih (Function.update_self ..) (by show (s.conn.ctx.lastSend + 1).toNat + _ < _; omega)]
    rw [takeIds, nextWrId_send, Function.update_idem, List.append_assoc]
    rfl

theorem run_alone {s : State ι} {i : ι} {p : Posting} {conn : Conn} {done : List WorkRequest}
    {ctx : ConnContext} (hpc : s.pc i = .idle) (hlock : s.lock = none) (hne : p.wrs ≠ [])
    (hlt : s.conn.ctx.lastSend.toNat + p.wrs.length < 2 ^ 31)
    (htake : takeIds s.conn.ctx p.wrs = (done, ctx))
    (hsub : submit { ctx := countOps (p.bind ctx done) done.length, qp := s.conn.qp }
      "failed to post rdma operation" done = .ok conn) :
    Machine.run step s (alone i p) = some { s with conn } := by
  have henter : step s (.enter i p) = some { s with
      lock := if p.locked then some i else none
      pc := Function.update s.pc i (.numbering p p.wrs []) } := by
    simp only [step, hpc, hlock, if_neg hne]
    cases p.locked <;> simp
  have hhand : step
      { s with
        conn := { s.conn with ctx }
        lock := if p.locked then some i else none
        pc := Function.update s.pc i (.numbering p [] done) } (.hand i) =
      some { s with
        conn, lock := if p.locked then some i else none
        pc := Function.update s.pc i (if p.locked then .posted else .idle) } := by
    simp only [step, Function.update_self]
    rw [show submit _ _ done = .ok conn from hsub]
    simp only [Except.toOption, Option.map_some, Function.update_idem]
  refine (Machine.run_cons_eq_some step).mpr ⟨_, henter, ?_⟩
  refine (Machine.run_append_eq_some step).mpr
    ⟨_, run_takes (Function.update_self ..) hlt, ?_⟩
  rw [htake, Function.update_idem, List.nil_append]
  refine (Machine.run_cons_eq_some step).mpr ⟨_, hhand, ?_⟩
  have hback : Function.update s.pc i .idle = s.pc := Function.update_eq_self_iff.mpr hpc.symm
  cases p.locked with
  | false =>
    show some _ = some _
    rw [if_neg (by simp), if_neg (by simp), hback, ← hlock]
  | true =>
    refine (Machine.run_cons_eq_some step).mpr ⟨{ s with conn }, ?_, rfl⟩
    simp only [step, if_true, Function.update_self, Function.update_idem, hback, ← hlock]

/-- Whether a message is counted before it is posted or after it makes no difference. -/
theorem submit_countOps {c : Conn} {c' : Conn} {reason : String} {wrs : List WorkRequest} {n : ℕ}
    (h : submit c reason wrs = .ok c') :
    submit { c with ctx := countOps c.ctx n } reason wrs =
      .ok { c' with ctx := countOps c'.ctx n } := by
  obtain ⟨hup, hqp⟩ := submit_eq_ok h
  obtain ⟨iqp, wr, hiqp, hwr, hctx⟩ := updateScurPost_eq_ok hup
  have hiqp' : (countOps c.ctx n).iqp = some iqp := hiqp
  simp only [submit, ibvPostSendWrapper, updateScurPost, hiqp', hwr, deref, hqp, bind,
    Except.bind, pure, Except.pure, Option.map_some, hctx]
  rw [← hiqp]
  rfl

theorem run_message {s : State ι} {i : ι} {wr : WorkRequest} {buffer : ℤ} {c : Conn}
    (hpc : s.pc i = .idle) (hlock : s.lock = none) (hlt : s.conn.ctx.lastSend.toNat + 1 < 2 ^ 31)
    (hsub : submit
      { ctx := rcBindBuffer (bumpSend s.conn.ctx) buffer (s.conn.ctx.lastSend + 1)
        qp := s.conn.qp }
      "failed to post rdma operation"
      [{ wr with wrId := (s.conn.ctx.lastSend + 1).toUInt64 }] = .ok c) :
    Machine.run step s (alone i (.message wr buffer)) =
      some { s with conn := { c with ctx := countOps c.ctx 1 } } := by
  have hbind : (Posting.message wr buffer).bind (bumpSend s.conn.ctx)
      [{ wr with wrId := (s.conn.ctx.lastSend + 1).toUInt64 }] =
        rcBindBuffer (bumpSend s.conn.ctx) buffer (s.conn.ctx.lastSend + 1) := by
    show rcBindBuffer _ buffer (s.conn.ctx.lastSend + 1).toUInt64.toUInt32 = _
    rw [UInt32.toUInt32_toUInt64]
  refine run_alone hpc hlock (List.cons_ne_nil _ _) hlt rfl ?_
  rw [hbind]
  have hcount := submit_countOps (n := 1) hsub
  exact hcount

/-- **Every call** that numbers and counts what it posts is the run of its steps, when
nobody else is in a call. -/
theorem exec_alone {s : State ι} {i : ι} {call : PostCall} {ret : Option UInt32} {conn : Conn}
    (hidle : s.pc i = .idle) (hlock : s.lock = none) (hnum : call.numbered = true)
    (hcount : call.counted = true) (hx : call.exec s.conn = .ok (ret, conn)) :
    ∃ p : Posting, (p.locked = true ↔ ∃ chain l r op, call = .rdma chain l r op) ∧
      (s.conn.ctx.lastSend.toNat + p.wrs.length < 2 ^ 31 →
        Machine.run step s (alone i p) = some { s with conn }) := by
  -- a call that numbers and posts a single request
  have hsingle : ∀ {sr : WorkRequest} {r : UInt32},
      postNext s.conn true "failed to post rdma operation" sr = .ok (r, conn) →
      s.conn.ctx.lastSend.toNat + 1 < 2 ^ 31 →
        Machine.run step s (alone i (.single sr)) = some { s with conn } := by
    intro sr r hp hlt
    exact run_alone hidle hlock (List.cons_ne_nil _ _) hlt rfl (postNext_eq_ok hp).2
  have hnot : ∀ sr : WorkRequest, (∀ chain l r op, call ≠ .rdma chain l r op) →
      ((Posting.single sr).locked = true ↔ ∃ chain l r op, call = .rdma chain l r op) := by
    intro sr hcall
    refine iff_of_false (by simp [Posting.locked]) ?_
    rintro ⟨chain, l, r, op, rfl⟩
    exact hcall chain l r op rfl
  cases call with
  | rdma chain l r op =>
    obtain ⟨_, -, h⟩ := map_some_eq_ok hx
    obtain ⟨localMr, remoteMr, reqs, last, -, hlast, -, hsubmit⟩ := sendRdmaOperation_eq_ok h
    refine ⟨.chain reqs, iff_of_true rfl ⟨_, _, _, _, rfl⟩,
      fun hlt => run_alone hidle hlock ?_ hlt rfl hsubmit⟩
    rintro rfl
    exact absurd hlast (by simp [takeIds])
  | message msgSize buffer =>
    obtain ⟨_, -, h⟩ := map_some_eq_ok hx
    obtain ⟨sr, addr, c₁, -, -, -, rfl, hsubmit⟩ := sendMessage_eq_ok h
    refine ⟨.message sr buffer, ?_, fun hlt => run_message hidle hlock hlt hsubmit⟩
    refine iff_of_false (by simp [Posting.locked]) ?_
    rintro ⟨chain, l, r, op, heq⟩
    exact absurd heq (by simp)
  | cas src dst cmp swap lk rk f =>
    obtain ⟨_, -, h⟩ := map_some_eq_ok hx
    exact ⟨.single _, hnot _ (by simp), hsingle h⟩
  | fetchAdd src dst sz cmp lk rk =>
    obtain ⟨_, -, h⟩ := map_some_eq_ok hx
    exact ⟨.single _, hnot _ (by simp), hsingle h⟩
  | convertEndian src dst sz lk rk =>
    obtain ⟨_, -, h⟩ := map_some_eq_ok hx
    obtain ⟨sr, -, hpost⟩ := ibvConvertEndianAsync_eq_ok h
    exact ⟨.single sr, hnot _ (by simp), hsingle hpost⟩
  | noop signaled =>
    obtain ⟨_, -, h⟩ := map_some_eq_ok hx
    exact ⟨.single _, hnot _ (by simp), hsingle h⟩
  | calcOp m l r =>
    obtain ⟨_, -, h⟩ := map_some_eq_ok hx
    obtain ⟨sr, -, hpost⟩ := ibvCalcOpAsync_eq_ok h
    exact ⟨.single sr, hnot _ (by simp), hsingle hpost⟩
  | send | post => exact absurd hnum (by simp [PostCall.numbered])
  | wait | waitTill | waitExplicit | trigger | triggerExplicit | setTrigger =>
    exact absurd hcount (by simp [PostCall.counted])

/-! ### Two callers -/

/-- Two callers of a connection nothing was posted on. -/
def twoCallers : State (Fin 2) := { conn := conn64 }

theorem twoCallers_initial : Initial twoCallers := ⟨rfl, rfl, rfl, fun _ => rfl⟩

instance (s : State (Fin 2)) : Decidable (Ordered s) :=
  inferInstanceAs (Decidable (List.Pairwise _ _))

/-- A signaled NOOP. -/
def noop : Posting := .single { opcode := .rdmaWrite, flags := { signaled := true } }

/-- A CAS. -/
def cas : Posting := .single (casRequest 0x1000 0x2000 0 1 7 8 0)

/-- One after the other. -/
theorem post_order_in_turn :
    Machine.Along step Ordered twoCallers (alone 0 cas ++ alone 1 noop) := by
  obtain ⟨s, hr, hord, h0, h1⟩ : ∃ s,
      Machine.run step twoCallers (alone 0 cas ++ alone 1 noop) = some s ∧ Ordered s ∧
        s.pc 0 = .idle ∧ s.pc 1 = .idle := ⟨_, rfl, by decide, rfl, rfl⟩
  have hq : Quiescent s := by
    intro i
    rcases Fin.exists_fin_two.mp ⟨i, rfl⟩ with rfl | rfl
    · exact h0
    · exact h1
  have hiff := post_order_iff twoCallers_initial hr
  exact hiff.1 ((hiff.2 hq).mp hord)

/-- The CAS takes its id first and is posted last. -/
theorem noop_overtakes_cas : Initial twoCallers ∧ ∃ s,
    Machine.run step twoCallers
      [.enter 0 cas, .take 0, .enter 1 noop, .take 1, .hand 1, .hand 0] = some s ∧
      (s.conn.qp.log.map fun r => number r.data) = [2, 1] ∧ ¬ Ordered s :=
  ⟨twoCallers_initial, _, rfl, by decide, by decide⟩

end PostOrder

end Rdma
