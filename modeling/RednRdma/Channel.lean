/-
The completion channel of a connection and its two consumers (`connection.c`).

`poll_cq_blocking_loop`, on the thread `build_cq_channel` starts, and
`block_till_completion`, on the thread of the caller, read the same channel: each
takes an event, arms the completion queue again and polls it until it is empty.

* `no_lost_wakeup` — the caller is not left blocked while the background thread
  credits its id only outside the window between check and wake-up;
* `lost_wakeup` — inside that window the caller blocks for good;
* `cqe_noticed` — no CQE is lost: while the queue is not empty an event is queued
  or one of the two is polling.
-/
import RednRdma.Completion

namespace Rdma

namespace Channel

/-- Where a consumer of the channel is. -/
inductive Pc
  /-- At the claim of `poll_permission`. -/
  | acquire
  /-- At the loop condition. -/
  | check
  /-- In `ibv_get_cq_event`. -/
  | get
  /-- Before `ibv_req_notify_cq`. -/
  | arm
  /-- At `ibv_poll_cq`, in the loop of `poll_cq`. -/
  | take
  /-- Before `update_completions(wc)`. -/
  | record (wc : Wc)
  /-- At the return of `poll_permission`. -/
  | release
  /-- Returned. -/
  | done
  /-- In `rc_die`. -/
  | died
  deriving Repr, DecidableEq

/-- A consumer has an event and has not yet found the queue empty. -/
def Pc.Polling : Pc → Prop
  | .arm | .take | .record _ => True
  | _ => False

instance (pc : Pc) : Decidable pc.Polling := by
  unfold Pc.Polling
  split <;> infer_instance

/-- The connection, its completion queue and channel, and the two consumers. -/
structure State where
  ctx : ConnContext
  /-- The CQEs of the work requests not completed yet, in their order. -/
  outstanding : List Wc
  cq : List Wc := []
  /-- `ibv_req_notify_cq` was called since the last event. -/
  armed : Bool := true
  events : ℕ := 0
  background : Pc := .check
  caller : Pc := .acquire

/-- Who moves. -/
inductive Act
  | arrive
  | background
  | caller
  deriving Repr, DecidableEq

/-- A CQE arrives; the first one after the queue was armed queues an event. -/
def arrive (s : State) : Option State :=
  match s.outstanding with
  | [] => none
  | wc :: outstanding =>
    some { s with
      outstanding
      cq := s.cq ++ [wc]
      events := if s.armed then s.events + 1 else s.events
      armed := false }

/-- The steps the two loops share: take an event or block, arm the queue, poll
it until it is empty. -/
def pollStep (s : State) : Pc → Option (State × Pc)
  | .get => if 0 < s.events then some ({ s with events := s.events - 1 }, .arm) else none
  | .arm => some ({ s with armed := true }, .take)
  | .take =>
    match s.cq with
    | [] => some (s, .check)
    | wc :: cq => some ({ s with cq }, .record wc)
  | .record wc => some ({ s with ctx := updateCompletions wc s.ctx }, .take)
  | _ => none

/-- A step of `poll_cq_blocking_loop`. -/
def backgroundStep (s : State) : Option State :=
  match s.background with
  | .check => some { s with background := if s.ctx.pollEnable = 0 then .done else .get }
  | pc => (pollStep s pc).map fun (s', pc') => { s' with background := pc' }

/-- A step of `block_till_completion(id, w)`. -/
def callerStep (w : UInt32) (s : State) : Option State :=
  match s.caller with
  | .acquire =>
    -- `while(!ibw_cmpxchg(&ctx->poll_permission, 1, 0))`
    if s.ctx.pollPermission = 0 then some s
    else if s.ctx.pollPermission = 1 then
      some { s with ctx := { s.ctx with pollPermission := 0 }, caller := .check }
    else some { s with caller := .check }
  | .check => some { s with caller := if SpinWaits s.ctx w then .get else .release }
  | .release =>
    if s.ctx.pollPermission = 0 then
      some { s with ctx := { s.ctx with pollPermission := 1 }, caller := .done }
    else some { s with caller := .died }
  | pc => (pollStep s pc).map fun (s', pc') => { s' with caller := pc' }

def step (w : UInt32) (s : State) : Act → Option State
  | .arrive => arrive s
  | .background => backgroundStep s
  | .caller => callerStep w s

/-- `build_cq_channel` has armed the queue and started the thread, and the
caller enters `block_till_completion`. -/
structure Initial (s : State) : Prop where
  cq : s.cq = []
  armed : s.armed = true
  events : s.events = 0
  background : s.background = .check
  caller : s.caller = .acquire

/-- The caller is blocked, nothing can wake it, and what it waits for has been
recorded. -/
def Lost (w : UInt32) (s : State) : Prop :=
  s.caller = .get ∧ s.events = 0 ∧ s.outstanding = [] ∧ ¬ SpinWaits s.ctx w

/-- The background thread does not credit `w` while the caller is between its
check and its wake-up. -/
def CreditsOutside (w : UInt32) (s : State) (a : Act) : Prop :=
  match a, s.background with
  | .background, .record wc => s.caller = .get → SpinWaits (updateCompletions wc s.ctx) w
  | _, _ => True

instance (w : UInt32) (s : State) (a : Act) : Decidable (CreditsOutside w s a) := by
  unfold CreditsOutside
  split <;> infer_instance

instance (w : UInt32) (s : State) : Decidable (Lost w s) :=
  inferInstanceAs (Decidable (_ ∧ _ ∧ _ ∧ _))

/-! ### Steps -/

/-- What a shared step does to the waiting state of the connection. -/
theorem pollStep_eq_some {s s' : State} {pc pc' : Pc} (h : pollStep s pc = some (s', pc')) :
    s'.background = s.background ∧ s'.caller = s.caller ∧ pc' ≠ .get ∧
      (s'.ctx = s.ctx ∨ ∃ wc, pc = .record wc ∧ s'.ctx = updateCompletions wc s.ctx) := by
  cases pc with
  | get =>
    simp only [pollStep] at h
    split at h
    · obtain ⟨rfl, rfl⟩ := Prod.mk.inj (Option.some_inj.mp h)
      exact ⟨rfl, rfl, by simp, Or.inl rfl⟩
    · exact absurd h (by simp)
  | arm =>
    obtain ⟨rfl, rfl⟩ := Prod.mk.inj (Option.some_inj.mp h)
    exact ⟨rfl, rfl, by simp, Or.inl rfl⟩
  | take =>
    simp only [pollStep] at h
    split at h
    · obtain ⟨rfl, rfl⟩ := Prod.mk.inj (Option.some_inj.mp h)
      exact ⟨rfl, rfl, by simp, Or.inl rfl⟩
    · obtain ⟨rfl, rfl⟩ := Prod.mk.inj (Option.some_inj.mp h)
      exact ⟨rfl, rfl, by simp, Or.inl rfl⟩
  | record wc =>
    obtain ⟨rfl, rfl⟩ := Prod.mk.inj (Option.some_inj.mp h)
    exact ⟨rfl, rfl, by simp, Or.inr ⟨wc, rfl, rfl⟩⟩
  | _ => exact absurd h (by simp [pollStep])

/-- A step of the background thread leaves the caller where it is. -/
theorem backgroundStep_eq_some {s s' : State} (h : backgroundStep s = some s') :
    s'.caller = s.caller ∧
      (s'.ctx = s.ctx ∨ ∃ wc, s.background = .record wc ∧ s'.ctx = updateCompletions wc s.ctx) := by
  rw [backgroundStep] at h
  split at h
  · obtain rfl := Option.some_inj.mp h
    exact ⟨rfl, Or.inl rfl⟩
  · obtain ⟨⟨s₁, pc⟩, h₁, rfl⟩ := Option.map_eq_some_iff.mp h
    obtain ⟨-, hcaller, -, hctx⟩ := pollStep_eq_some h₁
    exact ⟨hcaller, hctx⟩

/-- The caller enters `ibv_get_cq_event` from the failed check only. -/
theorem callerStep_get {w : UInt32} {s s' : State} (h : callerStep w s = some s')
    (hget : s'.caller = .get) : SpinWaits s'.ctx w := by
  rw [callerStep] at h
  split at h
  · -- the caller spins for the permission, takes it, or finds it at neither value
    rename_i hpc
    split at h
    · obtain rfl := Option.some_inj.mp h
      rw [hpc] at hget
      exact absurd hget (by simp)
    · split at h
      · obtain rfl := Option.some_inj.mp h
        exact absurd hget (by simp)
      · obtain rfl := Option.some_inj.mp h
        exact absurd hget (by simp)
  · -- the check: it goes on to `ibv_get_cq_event` only if it has to wait
    obtain rfl := Option.some_inj.mp h
    by_contra hw
    exact absurd (hget.symm.trans (if_neg hw)) (by simp)
  · split at h
    · obtain rfl := Option.some_inj.mp h
      exact absurd hget (by simp)
    · obtain rfl := Option.some_inj.mp h
      exact absurd hget (by simp)
  · obtain ⟨⟨s₁, pc⟩, h₁, rfl⟩ := Option.map_eq_some_iff.mp h
    obtain ⟨-, -, hpc, -⟩ := pollStep_eq_some h₁
    exact absurd hget hpc

/-! ### No lost wake-up -/

/-- A caller in `ibv_get_cq_event` still has something to wait for. -/
def Waiting (w : UInt32) (s : State) : Prop := s.caller = .get → SpinWaits s.ctx w

theorem Waiting.step {w : UInt32} {s s' : State} {a : Act} (h : Waiting w s)
    (hc : CreditsOutside w s a) (hs : Channel.step w s a = some s') : Waiting w s' := by
  intro hget
  cases a with
  | arrive =>
    change arrive s = some s' at hs
    rw [arrive] at hs
    split at hs
    · exact absurd hs (by simp)
    · obtain rfl := Option.some_inj.mp hs
      exact h hget
  | background =>
    obtain ⟨hcaller, hctx⟩ := backgroundStep_eq_some hs
    rw [hcaller] at hget
    rcases hctx with hctx | ⟨wc, hpc, hctx⟩
    · rw [hctx]
      exact h hget
    · rw [hctx]
      simp only [CreditsOutside, hpc] at hc
      exact hc hget
  | caller => exact callerStep_get hs hget

theorem Waiting.not_lost {w : UInt32} {s : State} (h : Waiting w s) : ¬ Lost w s :=
  fun ⟨hget, _, _, hdone⟩ => hdone (h hget)

/-- **No lost wake-up**: in a run where the background thread credits `w` only
outside the window between the caller's check and its wake-up, the caller is
never left blocked. -/
theorem no_lost_wakeup {w : UInt32} {s : State} {as : List Act} (h : Initial s)
    (hm : Machine.Meets (step w) (CreditsOutside w) s as) :
    Machine.Along (step w) (fun t => ¬ Lost w t) s as := by
  have h0 : Waiting w s := by
    intro hget
    rw [h.caller] at hget
    exact absurd hget (by simp)
  exact Machine.along_of_meets (fun _ _ _ hi hc hs => hi.step hc hs)
    (fun _ hi => hi.not_lost) h0 hm

/-- One request with id 1, waited for. -/
def oneRequest : State :=
  { ctx := { pollEnable := 1, pollPermission := 1 }
    outstanding := [{ wrId := 1, recv := false, serial := 1 }] }

theorem oneRequest_initial : Initial oneRequest := ⟨rfl, rfl, rfl, rfl, rfl⟩

/-- Two requests, of which the second is waited for. -/
def twoRequests : State :=
  { ctx := { pollEnable := 1, pollPermission := 1 }
    outstanding :=
      [{ wrId := 1, recv := false, serial := 1 }, { wrId := 2, recv := false, serial := 2 }] }

theorem twoRequests_initial : Initial twoRequests := ⟨rfl, rfl, rfl, rfl, rfl⟩

/-- The background thread takes the first CQE, with its event, while the caller is blocked; the
second one wakes the caller. -/
theorem wakes_after_background :
    Machine.Along (step 2) (fun t => ¬ Lost 2 t) twoRequests
      [.caller, .caller, .arrive, .background, .background, .background, .background,
        .background, .arrive, .caller, .caller, .caller, .caller, .background, .caller, .caller,
        .caller] :=
  no_lost_wakeup twoRequests_initial (by decide)

/-- The CQE arrives after the caller's check; the background thread takes the
event, polls the CQE and records it; the caller blocks for good. -/
theorem lost_wakeup : Initial oneRequest ∧
    ∃ s, Machine.run (step 1) oneRequest
      [.caller, .caller, .arrive, .background, .background, .background, .background,
        .background] = some s ∧ Lost 1 s :=
  ⟨oneRequest_initial, _, rfl, by decide⟩

/-! ### No CQE unnoticed -/

/-- While the queue is not armed an event is queued or a consumer is about to arm
it, and while it is not empty an event is queued or a consumer is polling. -/
structure NoticedBy (armed : Bool) (events : ℕ) (cq : List Wc) (p q : Pc) : Prop where
  disarmed : armed = false → 0 < events ∨ p = .arm ∨ q = .arm
  waiting : cq ≠ [] → 0 < events ∨ p.Polling ∨ q.Polling

section

variable {armed : Bool} {events : ℕ} {cq : List Wc} {p p' q : Pc}

theorem NoticedBy.symm (h : NoticedBy armed events cq p q) : NoticedBy armed events cq q p :=
  ⟨fun ha => (h.disarmed ha).imp_right Or.symm, fun hc => (h.waiting hc).imp_right Or.symm⟩

/-- A consumer that is not at work on an event may go anywhere. -/
theorem NoticedBy.idle (h : NoticedBy armed events cq p q) (hp : ¬ p.Polling) :
    NoticedBy armed events cq p' q := by
  constructor
  · intro ha
    rcases h.disarmed ha with he | rfl | hq
    · exact Or.inl he
    · exact absurd trivial hp
    · exact Or.inr (Or.inr hq)
  · intro hc
    rcases h.waiting hc with he | hp' | hq
    · exact Or.inl he
    · exact absurd hp' hp
    · exact Or.inr (Or.inr hq)

theorem NoticedBy.pollStep {s s' : State} (h : NoticedBy s.armed s.events s.cq p q)
    (hs : Channel.pollStep s p = some (s', p')) :
    NoticedBy s'.armed s'.events s'.cq p' q := by
  cases p with
  | get =>
    simp only [Channel.pollStep] at hs
    split at hs
    · obtain ⟨rfl, rfl⟩ := Prod.mk.inj (Option.some_inj.mp hs)
      constructor
      · intro _
        exact Or.inr (Or.inl rfl)
      · intro _
        exact Or.inr (Or.inl trivial)
    · exact absurd hs (by simp)
  | arm =>
    obtain ⟨rfl, rfl⟩ := Prod.mk.inj (Option.some_inj.mp hs)
    exact ⟨by simp, fun _ => Or.inr (Or.inl trivial)⟩
  | take =>
    have harm : s.armed = false → 0 < s.events ∨ q = .arm := by
      intro ha
      rcases h.disarmed ha with he | hp | hq
      · exact Or.inl he
      · exact absurd hp (by simp)
      · exact Or.inr hq
    simp only [Channel.pollStep] at hs
    split at hs
    · rename_i hcq
      obtain ⟨rfl, rfl⟩ := Prod.mk.inj (Option.some_inj.mp hs)
      constructor
      · intro ha
        exact (harm ha).imp_right Or.inr
      · intro hc
        exact absurd hcq hc
    · obtain ⟨rfl, rfl⟩ := Prod.mk.inj (Option.some_inj.mp hs)
      constructor
      · intro ha
        exact (harm ha).imp_right Or.inr
      · intro _
        exact Or.inr (Or.inl trivial)
  | record wc =>
    obtain ⟨rfl, rfl⟩ := Prod.mk.inj (Option.some_inj.mp hs)
    refine ⟨?_, fun _ => Or.inr (Or.inl trivial)⟩
    intro ha
    rcases h.disarmed ha with he | hp | hq
    · exact Or.inl he
    · exact absurd hp (by simp)
    · exact Or.inr (Or.inr hq)
  | _ => exact absurd hs (by simp [Channel.pollStep])

end

/-- Whatever is in the completion queue, somebody is on the way to it. -/
def Noticed (s : State) : Prop := NoticedBy s.armed s.events s.cq s.background s.caller

/-- A caller that is not at work on an event may go anywhere. -/
theorem Noticed.idle_caller {s : State} (h : Noticed s) (hp : ¬ s.caller.Polling) (pc : Pc) :
    NoticedBy s.armed s.events s.cq s.background pc :=
  ((NoticedBy.symm h).idle hp).symm

theorem Noticed.arrive {s s' : State} (h : Noticed s) (hs : Channel.arrive s = some s') :
    Noticed s' := by
  rw [Channel.arrive] at hs
  split at hs
  · exact absurd hs (by simp)
  · obtain rfl := Option.some_inj.mp hs
    cases harmed : s.armed with
    | true =>
      -- the arrival itself queues an event
      exact ⟨fun _ => Or.inl (by simp), fun _ => Or.inl (by simp)⟩
    | false =>
      have hd := h.disarmed harmed
      refine ⟨fun _ => by simpa using hd, ?_⟩
      intro _
      rcases hd with he | hp | hq
      · exact Or.inl (by simpa using he)
      · exact Or.inr (Or.inl (by rw [hp]; trivial))
      · exact Or.inr (Or.inr (by rw [hq]; trivial))

theorem Noticed.step {w : UInt32} {s s' : State} {a : Act} (h : Noticed s)
    (hs : Channel.step w s a = some s') : Noticed s' := by
  cases a with
  | arrive => exact h.arrive hs
  | background =>
    change backgroundStep s = some s' at hs
    rw [backgroundStep] at hs
    split at hs
    · rename_i hpc
      obtain rfl := Option.some_inj.mp hs
      exact NoticedBy.idle h (by simp [hpc, Pc.Polling])
    · obtain ⟨⟨s₁, pc⟩, h₁, rfl⟩ := Option.map_eq_some_iff.mp hs
      have hp : NoticedBy s₁.armed s₁.events s₁.cq pc s.caller := NoticedBy.pollStep h h₁
      rw [← (pollStep_eq_some h₁).2.1] at hp
      exact hp
  | caller =>
    change callerStep w s = some s' at hs
    rw [callerStep] at hs
    split at hs
    · rename_i hpc
      have hidle := h.idle_caller (by simp [hpc, Pc.Polling])
      split at hs
      · obtain rfl := Option.some_inj.mp hs
        exact h
      · split at hs
        · obtain rfl := Option.some_inj.mp hs
          exact hidle _
        · obtain rfl := Option.some_inj.mp hs
          exact hidle _
    · rename_i hpc
      obtain rfl := Option.some_inj.mp hs
      exact h.idle_caller (by simp [hpc, Pc.Polling]) _
    · rename_i hpc
      have hidle := h.idle_caller (by simp [hpc, Pc.Polling])
      split at hs
      · obtain rfl := Option.some_inj.mp hs
        exact hidle _
      · obtain rfl := Option.some_inj.mp hs
        exact hidle _
    · obtain ⟨⟨s₁, pc⟩, h₁, rfl⟩ := Option.map_eq_some_iff.mp hs
      have hp : NoticedBy s₁.armed s₁.events s₁.cq pc s.background :=
        NoticedBy.pollStep (NoticedBy.symm h) h₁
      rw [← (pollStep_eq_some h₁).1] at hp
      exact hp.symm

/-- A CQE in the queue is never left without an event or a consumer polling. -/
theorem cqe_noticed {w : UInt32} {s s' : State} {as : List Act} (h : Initial s)
    (hr : Machine.run (step w) s as = some s') :
    s'.cq ≠ [] → 0 < s'.events ∨ s'.background.Polling ∨ s'.caller.Polling := by
  have h0 : Noticed s := by
    refine ⟨?_, fun hc => absurd h.cq hc⟩
    intro ha
    rw [h.armed] at ha
    exact absurd ha (by simp)
  exact (Machine.run_inv (I := Noticed) (fun _ _ _ hi hs => hi.step hs) h0 hr).waiting

end Channel

end Rdma
