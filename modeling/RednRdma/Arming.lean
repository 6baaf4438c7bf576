/-
The poller of a connection on its own (`connection.c`).

`build_cq_channel` arms the completion queue while it is empty and starts
`poll_cq_blocking_loop`, which takes an event, acknowledges it, arms the queue again
and polls it until it is empty.  A CQE may arrive between any two of these steps.

* `Watched` — what is known of the queue at each of them;
* `Accounted` — every CQE that arrived is queued, in hand or passed on;
* `blocked_drained` — a poller that is blocked with no event queued has left nothing
  behind;
* `failed_not_passed` — a CQE that reports a failure is taken and passed to no one.
-/
import RednRdma.Polling
import RednRdma.Lib.History

namespace Rdma

namespace Arming

/-- Where the poller is. -/
inductive Pc
  /-- `while(ctx->poll_enable)`. -/
  | check
  /-- `ibv_get_cq_event`. -/
  | get
  /-- `ibv_ack_cq_events`. -/
  | ack
  /-- `ibv_req_notify_cq`. -/
  | arm
  /-- `ibv_poll_cq`, in the loop of `poll_cq`. -/
  | take
  /-- The body of the loop of `poll_cq`. -/
  | handle (wc : IbvWc)
  /-- Returned. -/
  | done
  /-- In `rc_die`. -/
  | died
  deriving Repr, DecidableEq

/-- The connection, its completion queue and channel, and the poller. -/
structure State where
  ctx : ConnContext
  cq : List IbvWc := []
  /-- The next CQE to arrive queues an event. -/
  armed : Bool := true
  /-- The events queued and not taken. -/
  events : ℕ := 0
  pc : Pc := .check

/-- What happens next. -/
inductive Act
  /-- A CQE arrives. -/
  | arrive (wc : IbvWc)
  /-- The poller moves. -/
  | poller
  /-- Another thread leaves the connection as it is given here. -/
  | other (ctx : ConnContext)

/-- A CQE that arrives while the queue is armed queues an event and disarms it. -/
def arrive (wc : IbvWc) (s : State) : State :=
  { s with
    cq := s.cq ++ [wc]
    events := if s.armed then s.events + 1 else s.events
    armed := false }

/-- A step of `poll_cq_blocking_loop`. -/
def pollerStep (s : State) : Option State :=
  match s.pc with
  | .check => some { s with pc := if s.ctx.pollEnable = 0 then .done else .get }
  | .get => if 0 < s.events then some { s with events := s.events - 1, pc := .ack } else none
  | .ack => some { s with pc := .arm }
  | .arm => some { s with armed := true, pc := .take }
  | .take =>
    match s.cq with
    | [] => some { s with pc := .check }
    | wc :: cq => some { s with cq, pc := .handle wc }
  | .handle wc =>
    match pollCq wc s.ctx with
    | .ok (ctx, _) => some { s with ctx, pc := .take }
    | .error _ => some { s with pc := .died }
  | .done | .died => none

def step (s : State) : Act → Option State
  | .arrive wc => some (arrive wc s)
  | .poller => pollerStep s
  | .other ctx => some { s with ctx }

/-- As `build_cq_channel` leaves it. -/
structure Initial (s : State) : Prop where
  cq : s.cq = []
  armed : s.armed = true
  events : s.events = 0
  pc : s.pc = .check

/-! ### What happened to the CQEs -/

structure History where
  /-- The CQEs that arrived, in their order. -/
  arrived : List IbvWc := []
  /-- Those `ibv_poll_cq` returned. -/
  taken : List IbvWc := []
  /-- Those `update_completions` was called with. -/
  passed : List IbvWc := []
  deriving Repr, DecidableEq

/-- `update_completions` is called for a CQE that reports success. -/
def Succeeded (wc : IbvWc) : Bool := wc.status = .success

def note (h : History) (s : State) (a : Act) (_ : State) : History :=
  match a, s.pc, s.cq with
  | .arrive wc, _, _ => { h with arrived := h.arrived ++ [wc] }
  | .poller, .take, wc :: _ => { h with taken := h.taken ++ [wc] }
  | .poller, .handle wc, _ =>
    { h with passed := h.passed ++ if Succeeded wc then [wc] else [] }
  | _, _, _ => h

/-- What a step of the poller notes as passed has been through `update_completions`: with these
CQEs it makes the counter of the sends what it is, while the process lives. -/
theorem ctx_of_passed {s s' : State} {h : History} (hs : pollerStep s = some s')
    (hlive : s'.pc ≠ .died) :
    ∃ wcs, (note h s .poller s').passed = h.passed ++ wcs ∧ s'.ctx.lastSendCompl =
      (wcs.foldl (fun ctx wc => updateCompletions wc.report ctx) s.ctx).lastSendCompl := by
  cases hpc : s.pc with
  | handle wc =>
    rw [pollerStep, hpc] at hs
    dsimp only at hs
    refine ⟨if Succeeded wc then [wc] else [], by simp only [note, hpc], ?_⟩
    split at hs
    · rename_i ctx msg hpoll
      obtain rfl := Option.some_inj.mp hs
      cases hstatus : wc.status with
      | success =>
        have hpassed : Succeeded wc = true := decide_eq_true hstatus
        rw [if_pos hpassed]
        rw [pollCq, hstatus] at hpoll
        dsimp only at hpoll
        rw [onCompletion] at hpoll
        split at hpoll
        · split at hpoll
          · obtain ⟨rfl, -⟩ := Prod.mk.inj (Except.ok.inj hpoll)
            rfl
          · exact absurd hpoll (by simp)
        · obtain ⟨rfl, -⟩ := Prod.mk.inj (Except.ok.inj hpoll)
          rfl
      | error =>
        have hdropped : ¬ Succeeded wc = true := by simp [Succeeded, hstatus]
        rw [if_neg hdropped]
        rw [pollCq, hstatus] at hpoll
        obtain ⟨rfl, -⟩ := Prod.mk.inj (Except.ok.inj hpoll)
        rfl
    · obtain rfl := Option.some_inj.mp hs
      exact absurd rfl hlive
  | take =>
    rw [pollerStep, hpc] at hs
    dsimp only at hs
    refine ⟨[], ?_, ?_⟩
    · cases hcq : s.cq <;> simp [note, hpc, hcq]
    · split at hs
      · obtain rfl := Option.some_inj.mp hs
        rfl
      · obtain rfl := Option.some_inj.mp hs
        rfl
  | get =>
    rw [pollerStep, hpc] at hs
    dsimp only at hs
    split at hs
    · obtain rfl := Option.some_inj.mp hs
      exact ⟨[], by simp [note, hpc], rfl⟩
    · exact absurd hs (by simp)
  | check | ack | arm =>
    rw [pollerStep, hpc] at hs
    obtain rfl := Option.some_inj.mp hs
    exact ⟨[], by simp [note, hpc], rfl⟩
  | done | died =>
    rw [pollerStep, hpc] at hs
    exact absurd hs (by simp)

/-- The machine with its history. -/
abbrev noted : State × History → Act → Option (State × History) := Machine.noting step note

/-! ### The queue is watched -/

/-- Outside the window from the event to the arming, an event is queued or the next CQE
will queue one; where the poller may block, nothing is left behind either. -/
def Watched (s : State) : Prop :=
  match s.pc with
  | .check | .get => s.armed = true ∧ s.cq = [] ∨ 0 < s.events
  | .take | .handle _ => s.armed = true ∨ 0 < s.events
  | .ack | .arm | .done | .died => True

theorem Initial.watched {s : State} (h : Initial s) : Watched s := by
  rw [Watched, h.pc]
  exact Or.inl ⟨h.armed, h.cq⟩

/-- An event is queued after an arrival, if one was or the queue was armed. -/
theorem events_arrive {s : State} {wc : IbvWc} (h : s.armed = true ∨ 0 < s.events) :
    0 < (arrive wc s).events := by
  show 0 < if s.armed then s.events + 1 else s.events
  split
  · exact Nat.succ_pos _
  · rename_i hdis
    exact h.resolve_left hdis

theorem Watched.arrive {s : State} (h : Watched s) (wc : IbvWc) :
    Watched (Arming.arrive wc s) := by
  have hpc : (Arming.arrive wc s).pc = s.pc := rfl
  rw [Watched] at h ⊢
  rw [hpc]
  split at h
  · exact Or.inr (events_arrive (h.imp_left And.left))
  · exact Or.inr (events_arrive (h.imp_left And.left))
  · exact Or.inr (events_arrive h)
  · exact Or.inr (events_arrive h)
  all_goals trivial

/-- What a step of the poller can be. -/
theorem pollerStep_cases {s s' : State} (hs : pollerStep s = some s') :
    s.pc = .check ∧ s' = { s with pc := if s.ctx.pollEnable = 0 then .done else .get } ∨
    s.pc = .get ∧ 0 < s.events ∧ s' = { s with events := s.events - 1, pc := .ack } ∨
    s.pc = .ack ∧ s' = { s with pc := .arm } ∨
    s.pc = .arm ∧ s' = { s with armed := true, pc := .take } ∨
    s.pc = .take ∧ s.cq = [] ∧ s' = { s with pc := .check } ∨
    (∃ wc cq, s.pc = .take ∧ s.cq = wc :: cq ∧ s' = { s with cq, pc := .handle wc }) ∨
    ∃ wc, s.pc = .handle wc ∧
      ((∃ ctx, s' = { s with ctx, pc := .take }) ∨ s' = { s with pc := .died }) := by
  rw [pollerStep] at hs
  split at hs
  · rename_i hpc
    exact Or.inl ⟨hpc, (Option.some_inj.mp hs).symm⟩
  · rename_i hpc
    split at hs
    · rename_i hev
      exact Or.inr (Or.inl ⟨hpc, hev, (Option.some_inj.mp hs).symm⟩)
    · exact absurd hs (by simp)
  · rename_i hpc
    exact Or.inr (Or.inr (Or.inl ⟨hpc, (Option.some_inj.mp hs).symm⟩))
  · rename_i hpc
    exact Or.inr (Or.inr (Or.inr (Or.inl ⟨hpc, (Option.some_inj.mp hs).symm⟩)))
  · rename_i hpc
    split at hs
    · rename_i hcq
      exact Or.inr (Or.inr (Or.inr (Or.inr (Or.inl ⟨hpc, hcq, (Option.some_inj.mp hs).symm⟩))))
    · rename_i wc cq hcq
      exact Or.inr (Or.inr (Or.inr (Or.inr (Or.inr (Or.inl
        ⟨wc, cq, hpc, hcq, (Option.some_inj.mp hs).symm⟩)))))
  · rename_i wc hpc
    refine Or.inr (Or.inr (Or.inr (Or.inr (Or.inr (Or.inr ⟨wc, hpc, ?_⟩)))))
    split at hs
    · rename_i ctx _ _
      exact Or.inl ⟨ctx, (Option.some_inj.mp hs).symm⟩
    · exact Or.inr (Option.some_inj.mp hs).symm
  · exact absurd hs (by simp)
  · exact absurd hs (by simp)

theorem Watched.poller {s s' : State} (h : Watched s) (hs : pollerStep s = some s') :
    Watched s' := by
  rw [Watched] at h
  rcases pollerStep_cases hs with ⟨hpc, rfl⟩ | ⟨hpc, -, rfl⟩ | ⟨hpc, rfl⟩ | ⟨hpc, rfl⟩ |
    ⟨hpc, hcq, rfl⟩ | ⟨wc, cq, hpc, hcq, rfl⟩ | ⟨wc, hpc, ⟨ctx, rfl⟩ | rfl⟩
  · -- the loop condition
    rw [hpc] at h
    by_cases hoff : s.ctx.pollEnable = 0
    · simp only [Watched, if_pos hoff]
    · simp only [Watched, if_neg hoff]
      exact h
  · trivial
  · trivial
  · exact Or.inl rfl
  · -- the queue was found empty
    rw [hpc] at h
    exact h.imp_left fun harmed => ⟨harmed, hcq⟩
  · rw [hpc] at h
    exact h
  · rw [hpc] at h
    exact h
  · trivial

theorem Watched.step {s s' : State} {a : Act} (h : Watched s) (hs : Arming.step s a = some s') :
    Watched s' := by
  cases a with
  | arrive wc =>
    obtain rfl := Option.some_inj.mp hs
    exact h.arrive wc
  | poller => exact h.poller hs
  | other ctx =>
    obtain rfl := Option.some_inj.mp hs
    exact h

/-! ### The CQEs are accounted for -/

/-- The CQE in hand, if it is to be passed on. -/
def inHand : Pc → List IbvWc
  | .handle wc => if Succeeded wc then [wc] else []
  | _ => []

/-- Every CQE that arrived was taken or is queued, and of those taken the successful
ones were passed on, all but the one in hand. -/
structure Accounted (x : State × History) : Prop where
  arrived : x.2.arrived = x.2.taken ++ x.1.cq
  passed : x.2.passed ++ inHand x.1.pc = x.2.taken.filter Succeeded

theorem Initial.accounted {s : State} (h : Initial s) : Accounted (s, {}) := by
  refine ⟨?_, ?_⟩
  · show [] = [] ++ s.cq
    rw [h.cq, List.append_nil]
  · show [] ++ inHand s.pc = _
    rw [h.pc]
    rfl

theorem Accounted.of_eq {s s' : State} {h : History} (ha : Accounted (s, h))
    (hcq : s'.cq = s.cq) (hhand : inHand s'.pc = inHand s.pc) : Accounted (s', h) := by
  refine ⟨?_, ?_⟩
  · rw [hcq]
    exact ha.arrived
  · rw [hhand]
    exact ha.passed

/-- Most steps of the poller leave the CQEs where they are. -/
theorem note_poller {s s' : State} {h : History} (hhand : ∀ wc, s.pc ≠ .handle wc)
    (htake : s.pc = .take → s.cq = []) : note h s .poller s' = h := by
  unfold note
  split
  · rename_i hact
    exact absurd hact (by simp)
  · rename_i hpc hcq
    exact absurd ((htake hpc).symm.trans hcq) (by simp)
  · rename_i wc _ hpc
    exact absurd hpc (hhand wc)
  · rfl

theorem Accounted.poller {s s' : State} {h : History} (ha : Accounted (s, h))
    (hs : pollerStep s = some s') : Accounted (s', note h s .poller s') := by
  rcases pollerStep_cases hs with ⟨hpc, rfl⟩ | ⟨hpc, -, rfl⟩ | ⟨hpc, rfl⟩ | ⟨hpc, rfl⟩ |
    ⟨hpc, hcq, rfl⟩ | ⟨wc, cq, hpc, hcq, rfl⟩ | ⟨wc, hpc, hend⟩
  · rw [note_poller (by simp [hpc]) (by simp [hpc])]
    refine ha.of_eq rfl ?_
    rw [hpc]
    show inHand (if s.ctx.pollEnable = 0 then .done else .get) = []
    split <;> rfl
  · rw [note_poller (by simp [hpc]) (by simp [hpc])]
    exact ha.of_eq rfl (by rw [hpc]; rfl)
  · rw [note_poller (by simp [hpc]) (by simp [hpc])]
    exact ha.of_eq rfl (by rw [hpc]; rfl)
  · rw [note_poller (by simp [hpc]) (by simp [hpc])]
    exact ha.of_eq rfl (by rw [hpc]; rfl)
  · rw [note_poller (by simp [hpc]) fun _ => hcq]
    exact ha.of_eq rfl (by rw [hpc]; rfl)
  · -- the first CQE of the queue goes in hand
    have harr : h.arrived = h.taken ++ wc :: cq := hcq ▸ ha.arrived
    have hpass : h.passed ++ [] = h.taken.filter Succeeded := by
      simpa only [hpc, inHand] using ha.passed
    simp only [note, hpc, hcq]
    refine ⟨?_, ?_⟩
    · show h.arrived = (h.taken ++ [wc]) ++ cq
      rw [harr, List.append_assoc, List.singleton_append]
    · show h.passed ++ (if Succeeded wc then [wc] else []) = (h.taken ++ [wc]).filter Succeeded
      rw [List.filter_append, ← hpass, List.append_nil, List.filter_cons, List.filter_nil]
  · -- and from hand to `update_completions`
    have hdone : (h.passed ++ if Succeeded wc then [wc] else []) ++ [] =
        h.taken.filter Succeeded := by
      rw [List.append_nil]
      simpa only [hpc, inHand] using ha.passed
    simp only [note, hpc]
    rcases hend with ⟨ctx, rfl⟩ | rfl
    · exact ⟨ha.arrived, hdone⟩
    · exact ⟨ha.arrived, hdone⟩

theorem Accounted.step {x x' : State × History} {a : Act} (ha : Accounted x)
    (hs : noted x a = some x') : Accounted x' := by
  obtain ⟨s, h⟩ := x
  obtain ⟨s', h'⟩ := x'
  obtain ⟨hs, hnote⟩ := Machine.noting_eq_some.mp hs
  simp only at hs hnote
  rw [hnote]
  cases a with
  | arrive wc =>
    obtain rfl := Option.some_inj.mp hs
    refine ⟨?_, ha.passed⟩
    show h.arrived ++ [wc] = h.taken ++ (s.cq ++ [wc])
    rw [ha.arrived, List.append_assoc]
  | poller => exact ha.poller hs
  | other ctx =>
    obtain rfl := Option.some_inj.mp hs
    exact ⟨ha.arrived, ha.passed⟩

/-! ### A blocked poller -/

/-- Where the poller is blocked with no event queued, the queue is empty and armed, and
the CQEs that arrived were taken one by one in their order, the successful ones passed
to `update_completions`. -/
theorem blocked_drained {s s' : State} {h : History} {as : List Act} (h0 : Initial s)
    (hr : Machine.run noted (s, {}) as = some (s', h)) (hpc : s'.pc = .get)
    (hev : s'.events = 0) :
    s'.cq = [] ∧ s'.armed = true ∧ h.taken = h.arrived ∧
      h.passed = h.arrived.filter Succeeded := by
  have hwatched : Watched s' :=
    Machine.run_inv (I := Watched) (fun _ _ _ hi hs => hi.step hs) h0.watched
      (Machine.run_of_noting hr)
  have haccounted : Accounted (s', h) :=
    Machine.run_inv (fun _ _ _ hi hs => hi.step hs) h0.accounted hr
  rw [Watched, hpc] at hwatched
  obtain ⟨harmed, hcq⟩ := hwatched.resolve_right (by omega)
  have htaken : h.arrived = h.taken := by
    have := haccounted.arrived
    simpa only [hcq, List.append_nil] using this
  have hpassed := haccounted.passed
  simp only [hpc, inHand, List.append_nil] at hpassed
  exact ⟨hcq, harmed, htaken.symm, by rw [hpassed, htaken]⟩

/-! ### Two CQEs, the second during the drain -/

/-- A connection that is polled. -/
def polled : State := { ctx := { pollEnable := 1 } }

theorem polled_initial : Initial polled := ⟨rfl, rfl, rfl, rfl⟩

/-- The second CQE arrives after the arming and is taken by the same drain; its event
leads to an empty drain. -/
def surplusRun (wc wc' : IbvWc) : List Act :=
  [.poller, .arrive wc, .poller, .poller, .poller, .arrive wc', .poller, .poller, .poller,
    .poller, .poller, .poller, .poller, .poller, .poller, .poller, .poller]

def sent : IbvWc := { wrId := 1, recv := false }

def failed : IbvWc := { wrId := 2, recv := false, status := .error }

theorem blocked_drained_surplus :
    ∃ s' h, Machine.run noted (polled, {}) (surplusRun sent failed) = some (s', h) ∧
      s'.cq = [] ∧ s'.armed = true ∧ h.taken = h.arrived ∧
      h.passed = h.arrived.filter Succeeded := by
  have hr : Machine.run noted (polled, {}) (surplusRun sent failed) =
      some ({ polled with ctx := updateCompletions sent.report polled.ctx, pc := .get },
        ⟨[sent, failed], [sent, failed], [sent]⟩) := rfl
  exact ⟨_, _, hr, blocked_drained polled_initial hr rfl rfl⟩

/-- The CQE that failed is not passed to `update_completions`. -/
theorem failed_not_passed :
    ¬ ∀ (s s' : State) (h : History) (as : List Act), Initial s →
      Machine.run noted (s, {}) as = some (s', h) → s'.pc = .get → s'.events = 0 →
      s'.cq = [] ∧ s'.armed = true ∧ h.passed = h.arrived := by
  intro hclaim
  obtain ⟨-, -, hpassed⟩ :=
    hclaim polled _ _ (surplusRun sent failed) polled_initial rfl rfl rfl
  exact absurd hpassed (by decide)

end Arming

end Rdma
