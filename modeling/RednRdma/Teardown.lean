/-
A peer disconnects while completions are polled (`connection.c`, `agent.c`).

The event thread handles `DISCONNECTED`: it calls the application, stores the state
`TERMINATED`, turns polling off, cancels the poller, takes the connection's record out
of the two tables and destroys the queue pair.  The poller of the connection goes on
meanwhile.  It looks its connection up for every CQE, twice for a successful one, and
the cancellation reaches it at its next call of `ibv_get_cq_event` only.

Destroying the queue pair leaves its CQEs where they are: `mlx5dv_init_obj` has marked
the CQ as the library's own, and `__mlx5_cq_clean` keeps away from it.  A CQE polled
after that is an error to `ibv_poll_cq`, which `poll_cq` takes for a completion.

* `step` — the two threads and the NIC, one access to what they share at a time;
* `teardown_alone` — the event thread on its own does what `rcDisconnect` does;
* `alive_iff` — the poller stays alive exactly in the runs where its lookups come before
  the record is taken out, and its check of a received message before `TERMINATED`;
* `dies_in_lookup`, `dies_in_check`, `dies_on_left_over` — the other runs.
-/
import RednRdma.Records

namespace Rdma

namespace Teardown

open Multimap

/-- Where the event thread is: what it does next. -/
inductive EventPc
  /-- `s_on_disconnect_cb`. -/
  | callback
  /-- `ctx->state = RC_CONNECTION_TERMINATED`. -/
  | terminate
  /-- `ctx->poll_enable = 0`. -/
  | pollOff
  /-- `pthread_cancel(ctx->cq_poller_thread)`. -/
  | cancel
  /-- `HASH_FIND` in `id_by_qp`. -/
  | find
  /-- `HASH_DELETE` from `id_by_qp`. -/
  | deleteQp (r : IdRecord)
  /-- `HASH_DELETE` from `id_by_addr`. -/
  | deleteAddr (r : IdRecord)
  /-- The bindings of the connection are freed. -/
  | clear
  /-- `rdma_destroy_qp`. -/
  | destroy
  /-- `rdma_disconnect`. -/
  | disconnect
  | done
  deriving DecidableEq

/-- `rc_set_state` has not stored `TERMINATED`. -/
def EventPc.beforeTerminate : EventPc → Bool
  | callback | terminate => true
  | _ => false

/-- The record is still in `id_by_qp`. -/
def EventPc.beforeDelete : EventPc → Bool
  | callback | terminate | pollOff | cancel | find | deleteQp _ => true
  | _ => false

/-- Where the poller is. -/
inductive PollerPc
  /-- `while(ctx->poll_enable)`. -/
  | check
  /-- `ibv_get_cq_event`, where a cancellation takes effect. -/
  | get
  /-- `ibv_ack_cq_events`, `ibv_req_notify_cq`. -/
  | arm
  /-- `ibv_poll_cq`. -/
  | take
  /-- `update_completions`. -/
  | update (wc : IbvWc)
  /-- `on_completion`, up to its lookup. -/
  | complete (wc : IbvWc)
  /-- `rc_ready` for a received message. -/
  | ready (wc : IbvWc)
  /-- The lookup in the error branch of `poll_cq`. -/
  | failed (wc : IbvWc)
  | ended
  /-- `rc_die`. -/
  | died (reason : String)
  deriving DecidableEq

/-- The CQE that is being handled. -/
def PollerPc.wc? : PollerPc → Option IbvWc
  | update wc | complete wc | ready wc | failed wc => some wc
  | _ => none

structure State where
  /-- The handle of the connection. -/
  id : ℕ
  ctx : ConnContext
  tables : Context
  event : EventPc := .callback
  poller : PollerPc := .check
  canceled : Bool := false
  /-- The queue pair exists. -/
  qp : Bool := true
  armed : Bool := true
  /-- The events queued on the completion channel. -/
  events : ℕ := 0
  /-- The CQEs not polled yet, oldest first. -/
  cq : List IbvWc := []
  /-- The poller's `struct ibv_wc`: the last completion it took, or whatever was in that
  memory. -/
  wc : IbvWc

inductive Act
  /-- The event thread goes on. -/
  | event
  /-- The poller goes on. -/
  | poll
  /-- A completion arrives. -/
  | arrive (wc : IbvWc)

section

variable (L : Lookup UInt32 IdRecord)

/-- A step of the event thread. -/
def eventStep (s : State) : Option State :=
  match s.event with
  | .callback => some { s with event := .terminate }
  | .terminate => some { s with event := .pollOff, ctx := { s.ctx with state := .terminated } }
  | .pollOff => some { s with event := .cancel, ctx := { s.ctx with pollEnable := 0 } }
  | .cancel => some { s with event := .find, canceled := true }
  | .find => (L.find s.tables.idByQp s.ctx.qpNum).map fun r => { s with event := .deleteQp r }
  | .deleteQp r =>
    some { s with
      event := .deleteAddr r
      tables := { s.tables with idByQp := s.tables.idByQp.erase (r.qpNum, r) } }
  | .deleteAddr r =>
    some { s with
      event := .clear
      tables := { s.tables with idByAddr := s.tables.idByAddr.erase (r.addr, r) } }
  | .clear => some { s with event := .destroy, ctx := { s.ctx with bufferBindings := [] } }
  -- the CQ is DV_OWNED, so that its CQEs stay
  | .destroy => some { s with event := .disconnect, qp := false }
  | .disconnect => some { s with event := .done }
  | .done => none

/-- What the poller stores goes to the connection it found. -/
def credit (s : State) (r : IdRecord) (f : ConnContext → ConnContext) : ConnContext :=
  if r.id = s.id then f s.ctx else s.ctx

/-- What `ibv_poll_cq` leaves in the caller's struct for a CQE.  That of a queue pair the
driver does not know any more is `CQ_POLL_ERR`, which clears `wc_flags` only. -/
def filled (s : State) (wc : IbvWc) : IbvWc := if s.qp then wc else { s.wc with withImm := false }

/-- A step of the poller. -/
def pollStep (s : State) : Option State :=
  match s.poller with
  | .check => some { s with poller := if s.ctx.pollEnable ≠ 0 then .get else .ended }
  | .get =>
    if s.canceled then some { s with poller := .ended }
    else match s.events with
      | 0 => none
      | events + 1 => some { s with poller := .arm, events }
  | .arm => some { s with poller := .take, armed := true }
  | .take =>
    match s.cq with
    | [] => some { s with poller := .check }
    | cqe :: cq =>
      -- an error of `ibv_poll_cq` is not 0 either, and the loop body runs
      let wc := filled s cqe
      match wc.status with
      | .success => some { s with poller := .update wc, cq, wc }
      | .error => some { s with poller := .failed wc, cq, wc }
  | .update wc =>
    match L.find s.tables.idByQp wc.qpNum with
    | some r =>
      some { s with poller := .complete wc, ctx := credit s r (updateCompletions wc.report) }
    | none => some { s with poller := .died "hash lookup failed; id doesn't exist" }
  | .complete wc =>
    match L.find s.tables.idByQp wc.qpNum with
    | some _ => some { s with poller := if wc.recv then .ready wc else .take }
    | none => some { s with poller := .died "hash lookup failed; id doesn't exist" }
  | .ready wc =>
    if s.ctx.state = .ready then
      some { s with poller := .take, ctx := updatePending s.ctx (ntohl wc.immData) }
    else some { s with poller := .died "invalid message\n" }
  | .failed wc =>
    match L.find s.tables.idByQp wc.qpNum with
    | some _ => some { s with poller := .take }
    | none => some { s with poller := .died "hash lookup failed; id doesn't exist" }
  | .ended | .died _ => none

/-- A completion of the queue pair, while it exists. -/
def arrive (s : State) (wc : IbvWc) : Option State :=
  if s.qp ∧ wc.qpNum = s.ctx.qpNum then
    some { s with
      cq := s.cq ++ [wc]
      events := if s.armed then s.events + 1 else s.events
      armed := false }
  else none

def step (s : State) : Act → Option State
  | .event => eventStep L s
  | .poll => pollStep L s
  | .arrive wc => arrive s wc

end

/-- If a completion names any of the connections, it is that of `r`. -/
def NamesOnly (recs : List IdRecord) (r : IdRecord) (wc : IbvWc) : Prop :=
  ∀ r' ∈ recs, r'.qpNum = wc.qpNum → r' = r

/-- A connection that is ready, with its record in both tables and its queue pair number
live once, and `DISCONNECTED` about to be handled. -/
structure Initial (s : State) (recs : List IdRecord) (r : IdRecord) : Prop where
  ready : s.ctx.state = .ready
  byQp : s.tables.idByQp = keyed IdRecord.qpNum recs
  byAddr : s.tables.idByAddr = keyed IdRecord.addr recs
  qpNums : (recs.map IdRecord.qpNum).Nodup
  mem : r ∈ recs
  own : r.id = s.id ∧ r.qpNum = s.ctx.qpNum
  event : s.event = .callback
  poller : s.poller = .check
  cq : ∀ wc ∈ s.cq, wc.qpNum = s.ctx.qpNum
  qp : s.qp = true
  wc : NamesOnly recs r s.wc

/-- No step of the polling path has reached `rc_die`. -/
def Alive (s : State) : Prop := ∀ reason, s.poller ≠ .died reason

/-- The poller looks a connection up before `rc_disconnect` has taken the record out, and
checks a received message before `rc_set_state` has stored `TERMINATED`. -/
def InTime (s : State) : Act → Prop
  | .poll =>
    match s.poller with
    | .update _ | .complete _ | .failed _ => s.event.beforeDelete = true
    | .ready _ => s.event.beforeTerminate = true
    | _ => True
  | _ => True

instance (s : State) (a : Act) : Decidable (InTime s a) := by
  unfold InTime
  split
  · split <;> infer_instance
  · infer_instance

/-! ### The invariant -/

/-- The record and the state are as the event thread has left them. -/
structure Inv (recs : List IdRecord) (r : IdRecord) (s : State) : Prop where
  own : r.id = s.id ∧ r.qpNum = s.ctx.qpNum
  byQp : s.tables.idByQp =
    keyed IdRecord.qpNum (if s.event.beforeDelete then recs else recs.erase r)
  found : ∀ r', s.event = .deleteQp r' → r' = r
  state : s.ctx.state = if s.event.beforeTerminate then .ready else .terminated
  cq : ∀ wc ∈ s.cq, wc.qpNum = s.ctx.qpNum
  qp : s.event.beforeDelete = true → s.qp = true
  wc : NamesOnly recs r s.wc
  handled : ∀ wc ∈ s.poller.wc?, NamesOnly recs r wc ∧
    (s.event.beforeDelete = true → wc.qpNum = s.ctx.qpNum)
  alive : Alive s

section

variable {L : Lookup UInt32 IdRecord} {recs : List IdRecord} {r : IdRecord} {s s' : State}

theorem Initial.inv (h : Initial s recs r) : Inv recs r s where
  own := h.own
  byQp := by
    rw [h.event]
    exact h.byQp
  found := by
    intro r' hr'
    rw [h.event] at hr'
    exact absurd hr' (by simp)
  state := by
    rw [h.event]
    exact h.ready
  cq := h.cq
  qp := fun _ => h.qp
  wc := h.wc
  handled := by simp [h.poller, PollerPc.wc?]
  alive := by
    intro reason
    rw [h.poller]
    simp

/-- The record is found until it is taken out. -/
theorem Inv.find (h : Inv recs r s) (hn : (recs.map IdRecord.qpNum).Nodup) (hr : r ∈ recs)
    (hb : s.event.beforeDelete = true) : L.find s.tables.idByQp s.ctx.qpNum = some r := by
  rw [h.byQp, if_pos hb, ← h.own.2]
  exact Lookup.find_keyed hn hr

/-- And nothing is found from then on. -/
theorem Inv.find_none (h : Inv recs r s) (hn : (recs.map IdRecord.qpNum).Nodup) {wc : IbvWc}
    (hwc : NamesOnly recs r wc) (hb : ¬ s.event.beforeDelete = true) :
    L.find s.tables.idByQp wc.qpNum = none := by
  cases hfind : L.find s.tables.idByQp wc.qpNum with
  | none => rfl
  | some r' =>
    rw [h.byQp, if_neg hb] at hfind
    obtain ⟨hmem, hkey⟩ := Lookup.of_find_keyed hfind
    have heq : r' = r := hwc r' (List.mem_of_mem_erase hmem) hkey
    rw [heq] at hmem
    exact absurd hmem (List.Nodup.not_mem_erase (List.Nodup.of_map _ hn))

/-- A completion of the connection names no other one. -/
theorem Inv.namesOnly (h : Inv recs r s) (hn : (recs.map IdRecord.qpNum).Nodup) (hr : r ∈ recs)
    {wc : IbvWc} (hwc : wc.qpNum = s.ctx.qpNum) : NamesOnly recs r wc := fun _ hmem hkey =>
  List.inj_on_of_nodup_map hn hmem hr (hkey.trans (hwc.trans h.own.2.symm))

theorem Inv.event (h : Inv recs r s) (hn : (recs.map IdRecord.qpNum).Nodup) (hr : r ∈ recs)
    (hs : eventStep L s = some s') : Inv recs r s' := by
  have hbyQp := h.byQp
  have hstate := h.state
  have hqp := h.qp
  have hhandled := h.handled
  rw [eventStep] at hs
  cases hpc : s.event with
  | find =>
    rw [hpc] at hs hbyQp hstate hqp hhandled
    obtain ⟨r', hr', rfl⟩ := Option.map_eq_some_iff.mp hs
    have hown : L.find s.tables.idByQp s.ctx.qpNum = some r := h.find hn hr (by rw [hpc]; rfl)
    obtain rfl : r = r' := Option.some_inj.mp (hown.symm.trans hr')
    refine ⟨h.own, hbyQp, ?_, hstate, h.cq, hqp, h.wc, hhandled, h.alive⟩
    intro r'' heq
    exact (EventPc.deleteQp.inj heq).symm
  | deleteQp r' =>
    rw [hpc] at hs hbyQp hstate
    obtain rfl := h.found r' hpc
    obtain rfl := Option.some_inj.mp hs
    refine ⟨h.own, ?_, by simp, hstate, h.cq, fun hb => absurd hb (by simp [EventPc.beforeDelete]),
      h.wc, ?_, h.alive⟩
    · show s.tables.idByQp.erase (r'.qpNum, r') = _
      rw [hbyQp]
      exact erase_keyed r'
    · intro wc hwc
      exact ⟨(hhandled wc hwc).1, fun hb => absurd hb (by simp [EventPc.beforeDelete])⟩
  | destroy =>
    rw [hpc] at hs hbyQp hstate hhandled
    obtain rfl := Option.some_inj.mp hs
    exact ⟨h.own, hbyQp, by simp, hstate, h.cq,
      fun hb => absurd hb (by simp [EventPc.beforeDelete]), h.wc, hhandled, h.alive⟩
  | done =>
    rw [hpc] at hs
    exact absurd hs (by simp)
  | terminate =>
    rw [hpc] at hs hbyQp hqp hhandled
    obtain rfl := Option.some_inj.mp hs
    exact ⟨h.own, hbyQp, by simp, rfl, h.cq, hqp, h.wc, hhandled, h.alive⟩
  | callback | pollOff | cancel | deleteAddr r' | clear | disconnect =>
    rw [hpc] at hs hbyQp hstate hqp hhandled
    obtain rfl := Option.some_inj.mp hs
    exact ⟨h.own, hbyQp, by simp, hstate, h.cq, hqp, h.wc, hhandled, h.alive⟩

/-- A step of the poller that leaves everything the event thread works on alone. -/
theorem Inv.poller (h : Inv recs r s) {ctx : ConnContext} {poller : PollerPc} {armed : Bool}
    {events : ℕ} {cq : List IbvWc} {wc : IbvWc} (hstate : ctx.state = s.ctx.state)
    (hqp : ctx.qpNum = s.ctx.qpNum) (hcq : ∀ wc ∈ cq, wc ∈ s.cq) (hwc : NamesOnly recs r wc)
    (hhandled : ∀ wc ∈ poller.wc?, NamesOnly recs r wc ∧
      (s.event.beforeDelete = true → wc.qpNum = s.ctx.qpNum))
    (halive : ∀ reason, poller ≠ .died reason) :
    Inv recs r { s with ctx, poller, armed, events, cq, wc } := by
  refine ⟨⟨h.own.1, h.own.2.trans hqp.symm⟩, h.byQp, h.found, hstate.trans h.state, ?_, h.qp,
    hwc, ?_, halive⟩
  · intro wc hmem
    exact (h.cq wc (hcq wc hmem)).trans hqp.symm
  · intro wc hmem
    exact ⟨(hhandled wc hmem).1, fun hb => ((hhandled wc hmem).2 hb).trans hqp.symm⟩

/-- What `ibv_poll_cq` leaves for the next CQE. -/
theorem Inv.filled (h : Inv recs r s) (hn : (recs.map IdRecord.qpNum).Nodup) (hr : r ∈ recs)
    {cqe : IbvWc} (hcqe : cqe ∈ s.cq) : NamesOnly recs r (Teardown.filled s cqe) ∧
      (s.event.beforeDelete = true → (Teardown.filled s cqe).qpNum = s.ctx.qpNum) := by
  rw [Teardown.filled]
  split
  · exact ⟨h.namesOnly hn hr (h.cq cqe hcqe), fun _ => h.cq cqe hcqe⟩
  · -- the queue pair is gone, and so is the record
    rename_i hgone
    exact ⟨h.wc, fun hb => absurd (h.qp hb) hgone⟩

theorem credit_state (f : ConnContext → ConnContext) (hf : ∀ ctx, (f ctx).state = ctx.state) :
    (credit s r f).state = s.ctx.state := by
  rw [credit]
  split
  · exact hf s.ctx
  · rfl

theorem credit_qpNum (f : ConnContext → ConnContext) (hf : ∀ ctx, (f ctx).qpNum = ctx.qpNum) :
    (credit s r f).qpNum = s.ctx.qpNum := by
  rw [credit]
  split
  · exact hf s.ctx
  · rfl

theorem updateCompletions_state (wc : Wc) (ctx : ConnContext) :
    (updateCompletions wc ctx).state = ctx.state := by
  rw [updateCompletions]
  split <;> rfl

theorem updateCompletions_qpNum (wc : Wc) (ctx : ConnContext) :
    (updateCompletions wc ctx).qpNum = ctx.qpNum := by
  rw [updateCompletions]
  split <;> rfl

/-- A lookup of the poller in time finds the record. -/
theorem Inv.find_handled (h : Inv recs r s) (hn : (recs.map IdRecord.qpNum).Nodup) (hr : r ∈ recs)
    {wc : IbvWc} (hwc : wc ∈ s.poller.wc?) (hb : s.event.beforeDelete = true) :
    L.find s.tables.idByQp wc.qpNum = some r := by
  rw [(h.handled wc hwc).2 hb]
  exact h.find hn hr hb

theorem Inv.poll (h : Inv recs r s) (hn : (recs.map IdRecord.qpNum).Nodup) (hr : r ∈ recs)
    (hc : InTime s .poll) (hs : pollStep L s = some s') : Inv recs r s' := by
  have hhandled := h.handled
  have hfound : ∀ wc, wc ∈ s.poller.wc? → s.event.beforeDelete = true →
      L.find s.tables.idByQp wc.qpNum = some r := fun _ hwc hb => h.find_handled hn hr hwc hb
  rw [pollStep] at hs
  rw [InTime] at hc
  cases hpc : s.poller with
  | check =>
    rw [hpc] at hs
    obtain rfl := Option.some_inj.mp hs
    refine h.poller rfl rfl (fun _ hwc => hwc) h.wc ?_ ?_
    · split <;> simp [PollerPc.wc?]
    · intro reason
      split <;> simp
  | get =>
    rw [hpc] at hs
    dsimp only at hs
    split at hs
    · obtain rfl := Option.some_inj.mp hs
      exact h.poller rfl rfl (fun _ hwc => hwc) h.wc (by simp [PollerPc.wc?]) (by simp)
    · split at hs
      · exact absurd hs (by simp)
      · obtain rfl := Option.some_inj.mp hs
        exact h.poller rfl rfl (fun _ hwc => hwc) h.wc (by simp [PollerPc.wc?]) (by simp)
  | arm =>
    rw [hpc] at hs
    obtain rfl := Option.some_inj.mp hs
    exact h.poller rfl rfl (fun _ hwc => hwc) h.wc (by simp [PollerPc.wc?]) (by simp)
  | take =>
    rw [hpc] at hs
    dsimp only at hs
    split at hs
    · obtain rfl := Option.some_inj.mp hs
      exact h.poller rfl rfl (fun _ hwc => hwc) h.wc (by simp [PollerPc.wc?]) (by simp)
    · rename_i cqe cq hcq
      have hfilled := h.filled hn hr (show cqe ∈ s.cq by rw [hcq]; exact List.mem_cons_self)
      have hrest : ∀ wc' ∈ cq, wc' ∈ s.cq := by
        intro wc' hmem
        rw [hcq]
        exact List.mem_cons_of_mem _ hmem
      split at hs
      · obtain rfl := Option.some_inj.mp hs
        exact h.poller rfl rfl hrest hfilled.1 (by simpa [PollerPc.wc?] using hfilled) (by simp)
      · obtain rfl := Option.some_inj.mp hs
        exact h.poller rfl rfl hrest hfilled.1 (by simpa [PollerPc.wc?] using hfilled) (by simp)
  | update wc =>
    rw [hpc] at hs hc hhandled hfound
    simp only [hfound wc rfl hc] at hs
    obtain rfl := Option.some_inj.mp hs
    exact h.poller (credit_state _ (updateCompletions_state _))
      (credit_qpNum _ (updateCompletions_qpNum _)) (fun _ hmem => hmem) h.wc
      (by simpa [PollerPc.wc?] using hhandled wc rfl) (by simp)
  | complete wc =>
    rw [hpc] at hs hc hhandled hfound
    simp only [hfound wc rfl hc] at hs
    obtain rfl := Option.some_inj.mp hs
    refine h.poller rfl rfl (fun _ hmem => hmem) h.wc ?_ ?_
    · split
      · simpa [PollerPc.wc?] using hhandled wc rfl
      · simp [PollerPc.wc?]
    · intro reason
      split <;> simp
  | ready wc =>
    rw [hpc] at hs hc
    have hready : s.ctx.state = .ready := by rw [h.state, if_pos hc]
    simp only [if_pos hready] at hs
    obtain rfl := Option.some_inj.mp hs
    exact h.poller rfl rfl (fun _ hmem => hmem) h.wc (by simp [PollerPc.wc?]) (by simp)
  | failed wc =>
    rw [hpc] at hs hc hfound
    simp only [hfound wc rfl hc] at hs
    obtain rfl := Option.some_inj.mp hs
    exact h.poller rfl rfl (fun _ hmem => hmem) h.wc (by simp [PollerPc.wc?]) (by simp)
  | ended | died reason =>
    rw [hpc] at hs
    exact absurd hs (by simp)

theorem Inv.arrive {wc : IbvWc} (h : Inv recs r s) (hs : Teardown.arrive s wc = some s') :
    Inv recs r s' := by
  rw [Teardown.arrive] at hs
  split at hs
  · rename_i hguard
    obtain rfl := Option.some_inj.mp hs
    refine ⟨h.own, h.byQp, h.found, h.state, ?_, h.qp, h.wc, h.handled, h.alive⟩
    intro wc' hmem
    rcases List.mem_append.mp hmem with hmem | hmem
    · exact h.cq wc' hmem
    · rw [List.mem_singleton.mp hmem]
      exact hguard.2
  · exact absurd hs (by simp)

theorem Inv.step {a : Act} (h : Inv recs r s) (hn : (recs.map IdRecord.qpNum).Nodup)
    (hr : r ∈ recs) (hc : InTime s a) (hs : Teardown.step L s a = some s') : Inv recs r s' := by
  cases a with
  | event => exact h.event hn hr hs
  | poll => exact h.poll hn hr hc hs
  | arrive wc => exact h.arrive hs

/-- A lookup or a check that comes too late ends the process. -/
theorem dies {a : Act} (h : Inv recs r s) (hn : (recs.map IdRecord.qpNum).Nodup)
    (hc : ¬ InTime s a) (hs : Teardown.step L s a = some s') : ¬ Alive s' := by
  have hhandled := h.handled
  cases a with
  | event | arrive => exact absurd trivial hc
  | poll =>
    change pollStep L s = some s' at hs
    rw [pollStep] at hs
    rw [InTime] at hc
    cases hpc : s.poller with
    | update wc | complete wc | failed wc =>
      rw [hpc] at hs hc hhandled
      have hfind : L.find s.tables.idByQp wc.qpNum = none :=
        h.find_none hn (hhandled wc rfl).1 hc
      simp only [hfind] at hs
      obtain rfl := Option.some_inj.mp hs
      exact fun halive => halive _ rfl
    | ready wc =>
      rw [hpc] at hs hc
      have hnot : ¬ s.ctx.state = .ready := by
        rw [h.state, if_neg hc]
        simp
      simp only [if_neg hnot] at hs
      obtain rfl := Option.some_inj.mp hs
      exact fun halive => halive _ rfl
    | check | get | arm | take | ended | died =>
      rw [hpc] at hc
      exact absurd trivial hc

/-- **A disconnecting peer does not kill the process** exactly in the runs where every
lookup of the poller comes before the event thread has taken the record out of
`id_by_qp`, and every check of a received message before it has stored `TERMINATED`. -/
theorem alive_iff {as : List Act} (h : Initial s recs r)
    (hr : Machine.run (Teardown.step L) s as = some s') :
    Machine.Along (Teardown.step L) Alive s as ↔ Machine.Meets (Teardown.step L) InTime s as :=
  Machine.along_iff_meets (fun _ hi => hi.alive)
    (fun _ _ _ hi hc hs => hi.step h.qpNums h.mem hc hs)
    (fun _ _ _ hi hc hs => dies hi h.qpNums hc hs) h.inv hr

/-- The event thread on its own does what `rc_disconnect` does. -/
theorem teardown_alone {t : Context} {ctx : ConnContext} (hevent : s.event = .callback)
    (hstate : s.ctx.state ≠ .terminated)
    (hd : rcDisconnect L (some s.tables) s.ctx = .ok (t, ctx)) :
    Machine.run (Teardown.step L) s (List.replicate 10 .event) = some { s with
      ctx, tables := t, event := .done, canceled := true, qp := false } := by
  have hset : rcSetState s.ctx .terminated =
      { s.ctx with state := .terminated, pollEnable := 0 } := by
    rw [rcSetState, if_neg hstate, if_pos (Or.inr rfl)]
  simp only [rcDisconnect, hset, deref, bind, Except.bind] at hd
  cases hfind : L.find s.tables.idByQp s.ctx.qpNum with
  | none =>
    rw [hfind] at hd
    exact absurd hd (by simp [throw, throwThe, MonadExceptOf.throw])
  | some r' =>
    rw [hfind] at hd
    obtain ⟨rfl, rfl⟩ := Prod.mk.inj (Except.ok.inj hd)
    simp only [List.replicate, Machine.run, Teardown.step, eventStep, hevent, hfind,
      Option.map_some]

end

/-! ### One completion -/

/-- The record of the connection. -/
def own : IdRecord := { addr := { port := 0, addr := 0x0a000001 }, qpNum := 9, id := 1 }

/-- A send and a message that complete. -/
def sent : IbvWc := { wrId := 1, recv := false, qpNum := 9 }

def message : IbvWc := { wrId := 0, recv := true, qpNum := 9 }

/-- A connection that is ready: its last message has been polled. -/
def connected : State where
  id := 1
  ctx := { state := .ready, pollEnable := 1, qpNum := 9 }
  tables := { idByQp := [(9, own)], idByAddr := [(own.addr, own)] }
  wc := message

theorem connected_initial : Initial connected [own] own where
  ready := rfl
  byQp := rfl
  byAddr := rfl
  qpNums := by decide
  mem := List.mem_cons_self
  own := ⟨rfl, rfl⟩
  event := rfl
  poller := rfl
  cq := by simp [connected]
  qp := rfl
  wc := by simp [NamesOnly]

/-- The poller waits for an event, takes it and the CQE behind it. -/
def takes (wc : IbvWc) : List Act := [.arrive wc, .poll, .poll, .poll, .poll]

/-- The send is recorded before the event thread deletes the record; the poller finds the
CQ empty, and ends while one more CQE is left in it. -/
theorem alive_in_time :
    Machine.Along (Teardown.step Lookup.first) Alive connected
      (takes sent ++ [.event, .event, .poll, .event, .event, .poll, .poll, .arrive message] ++
        List.replicate 6 .event ++ [.poll]) := by
  obtain ⟨s, hr⟩ : ∃ s, Machine.run (Teardown.step Lookup.first) connected
      (takes sent ++ [.event, .event, .poll, .event, .event, .poll, .poll, .arrive message] ++
        List.replicate 6 .event ++ [.poll]) = some s := ⟨_, rfl⟩
  exact (alive_iff connected_initial hr).mpr (by decide)

/-- The poller has a CQE in hand when its connection's record is taken out. -/
theorem dies_in_lookup : Initial connected [own] own ∧ ∃ s,
    Machine.run (Teardown.step Lookup.first) connected
      (takes sent ++ List.replicate 6 .event ++ [.poll]) = some s ∧
      s.qp = true ∧ s.poller = .died "hash lookup failed; id doesn't exist" :=
  ⟨connected_initial, _, rfl, rfl, rfl⟩

/-- A message is checked after the state has been changed. -/
theorem dies_in_check : ∃ s,
    Machine.run (Teardown.step Lookup.first) connected
      (takes message ++ [.poll, .poll] ++ List.replicate 2 .event ++ [.poll]) = some s ∧
      s.qp = true ∧ s.poller = .died "invalid message\n" :=
  ⟨_, rfl, rfl, rfl⟩

/-- All of the teardown comes between two CQEs: the second, of a queue pair that has been
destroyed, makes the poller handle the first again. -/
theorem dies_on_left_over : ∃ s,
    Machine.run (Teardown.step Lookup.first) connected
      (takes sent ++ [.poll, .poll, .arrive message] ++ List.replicate 10 .event ++
        [.poll, .poll]) = some s ∧
      s.wc = sent ∧ s.poller = .died "hash lookup failed; id doesn't exist" :=
  ⟨_, rfl, rfl, rfl⟩

end Teardown

end Rdma
