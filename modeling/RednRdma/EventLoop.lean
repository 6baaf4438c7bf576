/-
Connection events against connection calls (`agent.c`, `connection.c`).

`add_connection` starts the address resolution of a new id and only then lets
`init_connection` store the context, while `rdma_event_loop`, on its own thread,
answers the events of the id as they come in.  A connect request of a peer is
initialised by the event loop itself.

* `setup_after_store_iff` — `setup_connection`, the pre-connection callback and
  `finalize_connection` run on stored contexts exactly when every
  `ROUTE_RESOLVED` is taken after its context was stored;
* `setup_before_store` — a fast resolution overtakes `add_connection`.
-/
import RednRdma.Lib.Machine
import Mathlib.Data.Nat.Notation
import Mathlib.Logic.Function.Basic
import Mathlib.Tactic.Common

namespace Rdma

namespace EventLoop

/-- The events of an id that the loop answers. -/
inductive CmEvent
  | addrResolved | routeResolved | connectRequest | established
  deriving Repr, DecidableEq

/-- The calls the loop makes to answer them. -/
inductive Call
  | resolveRoute | initConnection | setupConnection | onPreConn | connect | accept
  | finalizeConnection | onConnect
  deriving Repr, DecidableEq

/-- The branches of `rdma_event_loop`. -/
def handler : CmEvent → List Call
  | .addrResolved => [.resolveRoute]
  | .routeResolved => [.setupConnection, .onPreConn, .connect]
  | .connectRequest => [.initConnection, .setupConnection, .onPreConn, .accept]
  | .established => [.finalizeConnection, .onConnect]

/-- The call works on `id->context`. -/
def Call.UsesContext : Call → Prop
  | .setupConnection | .onPreConn | .finalizeConnection => True
  | _ => False

instance (c : Call) : Decidable c.UsesContext := by
  unfold Call.UsesContext
  split <;> infer_instance

/-- The event a call brings in time. -/
def Call.brings : Call → Option CmEvent
  | .resolveRoute => some .routeResolved
  | .connect | .accept => some .established
  | _ => none

/-- How far `add_connection` is with an id. -/
inductive Stage
  /-- `rdma_create_id` has not returned. -/
  | unborn
  /-- Before `rdma_resolve_addr`. -/
  | created
  /-- In `init_connection`, before a slot is claimed. -/
  | resolving
  /-- Before `id->context = ctx`. -/
  | claimed
  /-- Before `s_conn_ids[sockfd] = id`. -/
  | stored
  /-- `add_connection` has returned, or the id is that of a peer's request. -/
  | returned
  deriving Repr, DecidableEq

structure State where
  stage : ℕ → Stage := fun _ => .unborn
  /-- `id->context` has been stored. -/
  stored : ℕ → Bool := fun _ => false
  /-- The events that can be taken from the channel. -/
  inFlight : List (CmEvent × ℕ) := []
  /-- What is left of the branch the loop is in. -/
  todo : List (Call × ℕ) := []
  /-- The calls made on an id whose context had not been stored. -/
  early : List (Call × ℕ) := []

inductive Act
  /-- The next step of `add_connection` for an id. -/
  | app (id : ℕ)
  /-- A peer asks to connect, under a new id. -/
  | request (id : ℕ)
  /-- The loop takes one of the events and enters the branch for it. -/
  | take (i : ℕ)
  /-- The loop goes on in its branch. -/
  | proceed
  deriving Repr, DecidableEq

/-- One call of the event loop, on an id. -/
def perform (s : State) (call : Call × ℕ) : State :=
  { s with
    early := if call.1.UsesContext ∧ s.stored call.2 = false then s.early ++ [call] else s.early
    stored := if call.1 = .initConnection then Function.update s.stored call.2 true else s.stored
    inFlight := s.inFlight ++ call.1.brings.toList.map (·, call.2) }

/-- One step of `add_connection` for `id`. -/
def appStep (s : State) (id : ℕ) : Option State :=
  match s.stage id with
  | .unborn => some { s with stage := Function.update s.stage id .created }
  | .created => some { s with
      stage := Function.update s.stage id .resolving
      inFlight := s.inFlight ++ [(.addrResolved, id)] }
  | .resolving => some { s with stage := Function.update s.stage id .claimed }
  | .claimed => some { s with
      stage := Function.update s.stage id .stored
      stored := Function.update s.stored id true }
  | .stored => some { s with stage := Function.update s.stage id .returned }
  | .returned => none

/-- The next event is taken: the first call of its branch follows at once. -/
def takeEvent (s : State) (i : ℕ) : Option State :=
  match s.todo, s.inFlight[i]? with
  | [], some (event, id) =>
    let s := { s with inFlight := s.inFlight.eraseIdx i }
    match (handler event).map (·, id) with
    | [] => some s
    | call :: rest => some { perform s call with todo := rest }
  | _, _ => none

/-- What an action does to a process that is still alive. -/
def move (s : State) : Act → Option State
  | .app id => appStep s id
  | .request id =>
    if s.stage id = .unborn then
      some { s with
        stage := Function.update s.stage id .returned
        inFlight := s.inFlight ++ [(.connectRequest, id)] }
    else none
  | .take i => takeEvent s i
  | .proceed =>
    match s.todo with
    | [] => none
    | call :: rest => some { perform s call with todo := rest }

/-- The calls follow `id->context` through `NULL` when it was not stored, and the
process ends there. -/
def step (s : State) (a : Act) : Option State := if s.early = [] then move s a else none

/-- No call has been made on an id whose context had not been stored. -/
def SetupAfterStore (s : State) : Prop := s.early = []

instance (s : State) : Decidable (SetupAfterStore s) := inferInstanceAs (Decidable (_ = _))

/-- A `ROUTE_RESOLVED` is taken only after `init_connection` has stored the
context of its id. -/
def RouteAfterStore (s : State) : Act → Prop
  | .take i => ∀ e ∈ s.inFlight[i]?, e.1 = .routeResolved → s.stored e.2 = true
  | _ => True

instance (s : State) (a : Act) : Decidable (RouteAfterStore s a) := by
  unfold RouteAfterStore
  split <;> infer_instance

/-! ### The invariant -/

/-- Every call still to be made, and every `ESTABLISHED` in flight, is on a stored
context. -/
structure Inv (s : State) : Prop where
  early : s.early = []
  todo : ∀ call ∈ s.todo, s.stored call.2 = true
  established : ∀ id, (CmEvent.established, id) ∈ s.inFlight → s.stored id = true

theorem init_inv : Inv {} where
  early := rfl
  todo := by simp
  established := by simp

/-- Contexts are stored for good. -/
theorem stored_perform {s : State} {call : Call × ℕ} {id : ℕ} (h : s.stored id = true) :
    (perform s call).stored id = true := by
  show (if _ then _ else _ : ℕ → Bool) id = true
  split
  · by_cases hid : id = call.2
    · rw [hid, Function.update_self]
    · rw [Function.update_of_ne hid, h]
  · exact h

/-- A call on a stored context, or one that does not look at it, keeps the
invariant. -/
theorem Inv.perform {s : State} {call : Call × ℕ} {rest : List (Call × ℕ)} (h : Inv s)
    (hcall : s.stored call.2 = true ∨ call.1 = .resolveRoute ∨ call.1 = .initConnection)
    (hrest : ∀ c ∈ rest, (EventLoop.perform s call).stored c.2 = true) :
    Inv { EventLoop.perform s call with todo := rest } := by
  refine ⟨?_, hrest, ?_⟩
  · show (if _ then _ else _) = []
    -- only a call that looks at a context not stored goes on the list
    rw [if_neg, h.early]
    rintro ⟨huses, hnot⟩
    rcases hcall with hst | heq | heq
    · rw [hst] at hnot
      exact absurd hnot (by simp)
    · simp [heq, Call.UsesContext] at huses
    · simp [heq, Call.UsesContext] at huses
  · intro id hid
    rcases List.mem_append.mp hid with hid | hid
    · exact stored_perform (h.established id hid)
    · rcases hcall with hst | heq | heq
      · obtain ⟨event, -, heq⟩ := List.mem_map.mp hid
        obtain ⟨-, rfl⟩ := Prod.mk.inj heq
        exact stored_perform hst
      · simp [heq, Call.brings] at hid
      · simp [heq, Call.brings] at hid

/-- What taking an event does. -/
theorem takeEvent_eq_some {s s' : State} {i : ℕ} (hs : takeEvent s i = some s') :
    ∃ event id call rest, s.inFlight[i]? = some (event, id) ∧
      (handler event).map (·, id) = call :: rest ∧
      s' = { perform { s with inFlight := s.inFlight.eraseIdx i } call with todo := rest } := by
  rw [takeEvent] at hs
  split at hs
  · rename_i event id htodo hi
    cases event with
    | _ =>
      obtain rfl := Option.some_inj.mp hs
      exact ⟨_, id, _, _, hi, rfl, rfl⟩
  · exact absurd hs (by simp)

theorem Inv.take {s s' : State} {i : ℕ} (h : Inv s) (hc : RouteAfterStore s (.take i))
    (hs : takeEvent s i = some s') : Inv s' := by
  obtain ⟨event, id, call, rest, hi, hbranch, rfl⟩ := takeEvent_eq_some hs
  have h₁ : Inv { s with inFlight := s.inFlight.eraseIdx i } :=
    ⟨h.early, h.todo, fun id hid => h.established id (List.mem_of_mem_eraseIdx hid)⟩
  cases event with
  | addrResolved =>
    obtain ⟨rfl, rfl⟩ := List.cons_eq_cons.mp hbranch
    exact h₁.perform (Or.inr (Or.inl rfl)) (by simp)
  | routeResolved =>
    obtain ⟨rfl, rfl⟩ := List.cons_eq_cons.mp hbranch
    -- the rest of the branch is on the same id
    have hst : s.stored id = true := hc _ hi rfl
    refine h₁.perform (Or.inl hst) ?_
    intro c hmem
    obtain ⟨call, -, rfl⟩ := List.mem_map.mp hmem
    exact stored_perform hst
  | connectRequest =>
    obtain ⟨rfl, rfl⟩ := List.cons_eq_cons.mp hbranch
    refine h₁.perform (Or.inr (Or.inr rfl)) ?_
    intro c hmem
    obtain ⟨call, -, rfl⟩ := List.mem_map.mp hmem
    exact Function.update_self ..
  | established =>
    obtain ⟨rfl, rfl⟩ := List.cons_eq_cons.mp hbranch
    have hst : s.stored id = true := h.established id (List.mem_of_getElem? hi)
    refine h₁.perform (Or.inl hst) ?_
    intro c hmem
    obtain ⟨call, -, rfl⟩ := List.mem_map.mp hmem
    exact stored_perform hst

/-- A step of the application stores contexts and adds resolution events, no
more. -/
theorem appStep_eq_some {s s' : State} {id : ℕ} (hs : appStep s id = some s') :
    s'.early = s.early ∧ s'.todo = s.todo ∧
      (∀ i, s.stored i = true → s'.stored i = true) ∧
      (∀ i, (CmEvent.established, i) ∈ s'.inFlight → (CmEvent.established, i) ∈ s.inFlight) := by
  rw [appStep] at hs
  split at hs
  · obtain rfl := Option.some_inj.mp hs
    exact ⟨rfl, rfl, fun _ h => h, fun _ h => h⟩
  · -- `rdma_resolve_addr` brings an `ADDR_RESOLVED`
    obtain rfl := Option.some_inj.mp hs
    refine ⟨rfl, rfl, fun _ h => h, ?_⟩
    intro i h
    simpa using h
  · obtain rfl := Option.some_inj.mp hs
    exact ⟨rfl, rfl, fun _ h => h, fun _ h => h⟩
  · -- `id->context = ctx`
    obtain rfl := Option.some_inj.mp hs
    refine ⟨rfl, rfl, ?_, fun _ h => h⟩
    intro i h
    by_cases hid : i = id
    · rw [hid]
      exact Function.update_self ..
    · exact (Function.update_of_ne hid ..).trans h
  · obtain rfl := Option.some_inj.mp hs
    exact ⟨rfl, rfl, fun _ h => h, fun _ h => h⟩
  · exact absurd hs (by simp)

theorem step_eq_some {s s' : State} {a : Act} (hs : step s a = some s') : move s a = some s' := by
  rw [step] at hs
  split at hs
  · exact hs
  · exact absurd hs (by simp)

theorem Inv.step {s s' : State} {a : Act} (h : Inv s) (hc : RouteAfterStore s a)
    (hs : EventLoop.step s a = some s') : Inv s' := by
  replace hs := step_eq_some hs
  cases a with
  | app id =>
    obtain ⟨hearly, htodo, hstored, hest⟩ := appStep_eq_some hs
    refine ⟨hearly.trans h.early, ?_, ?_⟩
    · intro call hmem
      rw [htodo] at hmem
      exact hstored _ (h.todo call hmem)
    · intro i hi
      exact hstored _ (h.established i (hest i hi))
  | request id =>
    simp only [EventLoop.move] at hs
    split at hs
    · obtain rfl := Option.some_inj.mp hs
      exact ⟨h.early, h.todo, fun i hi => h.established i (by simpa using hi)⟩
    · exact absurd hs (by simp)
  | take i => exact h.take hc hs
  | proceed =>
    simp only [EventLoop.move] at hs
    split at hs
    · exact absurd hs (by simp)
    · rename_i call rest htodo
      obtain rfl := Option.some_inj.mp hs
      have hst : ∀ c ∈ call :: rest, s.stored c.2 = true := htodo ▸ h.todo
      refine h.perform (Or.inl (hst call List.mem_cons_self)) ?_
      intro c hmem
      exact stored_perform (hst c (List.mem_cons_of_mem _ hmem))

/-- A `ROUTE_RESOLVED` taken too early sets the connection up without a
context. -/
theorem setup_early {s s' : State} {a : Act} (hc : ¬ RouteAfterStore s a)
    (hs : step s a = some s') : ¬ SetupAfterStore s' := by
  replace hs := step_eq_some hs
  cases a with
  | take i =>
    obtain ⟨id, hi, hnot⟩ : ∃ id, s.inFlight[i]? = some (.routeResolved, id) ∧
        s.stored id = false := by
      simpa [RouteAfterStore] using hc
    obtain ⟨event, id', call, rest, hi', hbranch, rfl⟩ := takeEvent_eq_some hs
    obtain ⟨rfl, rfl⟩ := Prod.mk.inj (Option.some_inj.mp (hi.symm.trans hi'))
    obtain ⟨rfl, rfl⟩ := List.cons_eq_cons.mp hbranch
    show ¬ (if _ then _ else _) = []
    rw [if_pos ⟨trivial, hnot⟩]
    simp
  | _ => exact absurd trivial hc

/-! ### Runs -/

/-- **Setup follows initialisation** in a run, for every id, exactly when the
event loop takes each `ROUTE_RESOLVED` after `init_connection` has stored the
context of its id. -/
theorem setup_after_store_iff {s : State} {as : List Act} (hr : Machine.run step {} as = some s) :
    Machine.Along step SetupAfterStore {} as ↔ Machine.Meets step RouteAfterStore {} as :=
  Machine.along_iff_meets (fun _ hi => hi.early) (fun _ _ _ hi hc hs => hi.step hc hs)
    (fun _ _ _ _ hc hs => setup_early hc hs) init_inv hr

/-- A connection of each kind, one after the other. -/
theorem setup_client_then_server :
    Machine.Along step SetupAfterStore {}
      [.app 0, .app 0, .app 0, .app 0, .app 0, .take 0, .take 0, .proceed, .proceed, .take 0,
        .proceed, .request 1, .take 0, .proceed, .proceed, .proceed, .take 0, .proceed] := by
  obtain ⟨s, hr⟩ : ∃ s, Machine.run step {}
      [.app 0, .app 0, .app 0, .app 0, .app 0, .take 0, .take 0, .proceed, .proceed, .take 0,
        .proceed, .request 1, .take 0, .proceed, .proceed, .proceed, .take 0, .proceed] = some s :=
    ⟨_, rfl⟩
  exact (setup_after_store_iff hr).mpr (by decide)

/-- The route of an id is resolved while `add_connection` has still to call
`init_connection`: `setup_connection` finds no context. -/
theorem setup_before_store : ∃ s,
    Machine.run step {} [.app 0, .app 0, .take 0, .take 0] = some s ∧
      s.stage 0 = .resolving ∧ s.early = [(.setupConnection, 0)] ∧ ¬ SetupAfterStore s :=
  ⟨_, rfl, rfl, rfl, by decide⟩

end EventLoop

end Rdma
