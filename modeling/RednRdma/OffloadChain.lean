/-
The offload chain on two send queues (`test.c`, `verbs.c`, vendored `libmlx5`).

`offload_hash` fills the worker's queue with six WQEs an iteration: wait for a
request, enable the worker further, wait for the worker, enable the response, and
only then the READ and the CAS.  The NIC runs a queue in order, stops at a wait
whose CQE is not there, and runs what has been enabled.

* `chain_iff` — no run wedges and every response is gated exactly when there is
  nothing to answer: the first wait for the worker asks for the CQE of the CAS
  behind it;
* `gated_run` — no response is ever executable before its CAS.
-/
import RednRdma.Lib.Machine
import Mathlib.Data.Int.Notation
import Mathlib.Data.Nat.Notation
import Mathlib.Logic.Function.Basic
import Mathlib.Tactic.Common

namespace Rdma

namespace OffloadChain

/-- The two connections of the offload. -/
inductive Sock
  | client | worker
  deriving Repr, DecidableEq

/-- The posts on the worker. -/
inductive Post
  /-- `IBV_WAIT_EXPLICIT(worker, sock, count)`. -/
  | waitExplicit (sock : Sock) (count : ℕ)
  /-- `IBV_TRIGGER_EXPLICIT(worker, sock, count)`. -/
  | triggerExplicit (sock : Sock) (count : ℕ)
  /-- `post_hash_read`, whose completion is turned off in place. -/
  | hashRead
  /-- `IBV_CAS_ASYNC`, signaled. -/
  | cas
  deriving Repr, DecidableEq

/-- The loop of `offload_hash`, with `left` iterations to go. -/
def offloadLoop (count : ℕ) : ℕ → ℕ → ℕ → ℕ → List Post
  | 0, _, _, _ => []
  | left + 1, k, count1, count2 =>
    [.waitExplicit .client 1,
      .triggerExplicit .worker (if k = count - 1 then count1 - 1 else count1),
      .waitExplicit .worker 1,
      .triggerExplicit .client count2,
      .hashRead,
      .cas] ++ offloadLoop count left (k + 1) (count1 + 6) (count2 + 1)

/-- What `offload_hash` posts on the worker. -/
def offloadHash (count : ℕ) : List Post := offloadLoop count count 0 8 1

/-- A WQE of the worker's queue. -/
inductive Wqe
  /-- Wait for the CQE of this index. -/
  | wait (cq : Sock) (index : ℤ)
  /-- Enable the WQEs up to this producer index. -/
  | enable (qp : Sock) (pi : ℕ)
  | read
  | cas
  deriving Repr, DecidableEq

/-- The WQEs the driver makes of the posts: a wait goes on from the index of the
last one on the same queue, `wait_cq->wait_index`. -/
def layout (waitIndex : Sock → ℤ) : List Post → List Wqe
  | [] => []
  | .waitExplicit cq n :: posts =>
    .wait cq (waitIndex cq + n) ::
      layout (Function.update waitIndex cq (waitIndex cq + n)) posts
  | .triggerExplicit qp n :: posts => .enable qp n :: layout waitIndex posts
  | .hashRead :: posts => .read :: layout waitIndex posts
  | .cas :: posts => .cas :: layout waitIndex posts

/-- The worker's queue; a completion queue starts at `wait_index = -1`. -/
def workerQueue (count : ℕ) : List Wqe := layout (fun _ => -1) (offloadHash count)

/-- The queues of the NIC. -/
structure State where
  /-- The master's `IBV_TRIGGER(master, worker, 2)` has run. -/
  triggered : Bool := false
  enabled : Sock → ℕ := fun _ => 0
  executed : Sock → ℕ := fun _ => 0
  /-- The CQEs so far: of the client one for each request delivered, of the worker
  one for each CAS. -/
  cqes : Sock → ℕ := fun _ => 0

inductive Act
  | trigger
  /-- The next request is delivered. -/
  | arrive
  /-- The next WQE of the worker. -/
  | worker
  /-- The next response of the client. -/
  | client
  deriving Repr, DecidableEq

/-- Run one WQE of the worker's queue. -/
def runWqe (s : State) : Wqe → Option State
  | .wait cq index => if index < s.cqes cq then some s else none
  | .enable qp pi =>
    some { s with enabled := Function.update s.enabled qp (max (s.enabled qp) pi) }
  | .read => some s
  | .cas => some { s with cqes := Function.update s.cqes .worker (s.cqes .worker + 1) }

/-- A queue has run one more of its WQEs. -/
def State.advance (s : State) (q : Sock) : State :=
  { s with executed := Function.update s.executed q (s.executed q + 1) }

/-- One step of the NIC, with `count` iterations posted and `requests` requests
on their way; an iteration also posts one RECV and one response. -/
def step (count requests : ℕ) (s : State) : Act → Option State
  | .trigger =>
    if s.triggered = false ∧ 0 < count then
      some { s with
        triggered := true
        enabled := Function.update s.enabled .worker (max (s.enabled .worker) 2) }
    else none
  | .arrive =>
    if s.cqes .client < requests ∧ s.cqes .client < count then
      some { s with cqes := Function.update s.cqes .client (s.cqes .client + 1) }
    else none
  | .worker =>
    if s.executed .worker < s.enabled .worker then
      ((workerQueue count)[s.executed .worker]?).bind fun wqe =>
        (runWqe s wqe).map fun s' => s'.advance .worker
    else none
  | .client =>
    if s.executed .client < s.enabled .client ∧ s.executed .client < count then
      some (s.advance .client)
    else none

/-- Request `k` has been delivered. -/
def Delivered (s : State) (k : ℕ) : Prop := k < s.cqes .client

/-- CAS `k` has completed. -/
def CasDone (s : State) (k : ℕ) : Prop := k < s.cqes .worker

/-- Response `k` has run. -/
def Responded (s : State) (k : ℕ) : Prop := k < s.executed .client

/-- Nothing can move, and a delivered request is not answered. -/
def Wedged (count requests : ℕ) (s : State) : Prop :=
  (∀ a, step count requests s a = none) ∧
    ∃ k, Delivered s k ∧ (¬ CasDone s k ∨ ¬ Responded s k)

/-- A response can run only after its CAS has completed. -/
def Gated (s : State) : Prop :=
  ∀ k, s.executed .client = k → k < s.enabled .client → CasDone s k

/-! ### The front of the queue -/

theorem workerQueue_succ (n : ℕ) : ∃ pi rest,
    workerQueue (n + 1) = .wait .client 0 :: .enable .worker pi :: .wait .worker 0 :: rest :=
  ⟨if 0 = n + 1 - 1 then 8 - 1 else 8, _, rfl⟩

/-- The first three WQEs, if there are any. -/
theorem workerQueue_front {count i : ℕ} {wqe : Wqe} (hi : i ≤ 2)
    (h : (workerQueue count)[i]? = some wqe) :
    i = 0 ∧ wqe = .wait .client 0 ∨ i = 1 ∧ (∃ pi, wqe = .enable .worker pi) ∨
      i = 2 ∧ wqe = .wait .worker 0 := by
  rcases count with _ | n
  · simp [workerQueue, offloadHash, offloadLoop, layout] at h
  · obtain ⟨pi, rest, hq⟩ := workerQueue_succ n
    rw [hq] at h
    rcases i with _ | _ | _ | i
    · exact Or.inl ⟨rfl, (Option.some_inj.mp h).symm⟩
    · exact Or.inr (Or.inl ⟨rfl, pi, (Option.some_inj.mp h).symm⟩)
    · exact Or.inr (Or.inr ⟨rfl, (Option.some_inj.mp h).symm⟩)
    · omega

/-! ### The worker never gets past its own wait -/

/-- The worker is before its first CAS, and no response is enabled. -/
structure Stalled (s : State) : Prop where
  executed : s.executed .worker ≤ 2
  cqes : s.cqes .worker = 0
  enabled : s.enabled .client = 0
  responded : s.executed .client = 0

theorem init_stalled : Stalled {} := ⟨Nat.zero_le 2, rfl, rfl, rfl⟩

theorem Stalled.worker {count requests : ℕ} {s s' : State} (h : Stalled s)
    (hs : step count requests s .worker = some s') : Stalled s' := by
  simp only [step] at hs
  split at hs
  · obtain ⟨wqe, hwqe, hs⟩ := Option.bind_eq_some_iff.mp hs
    obtain ⟨s₁, hrun, rfl⟩ := Option.map_eq_some_iff.mp hs
    rcases workerQueue_front h.executed hwqe with ⟨hi, rfl⟩ | ⟨hi, pi, rfl⟩ | ⟨-, rfl⟩
    · simp only [runWqe] at hrun
      split at hrun
      · obtain rfl := Option.some_inj.mp hrun
        exact ⟨by simp [State.advance, hi], h.cqes, h.enabled, h.responded⟩
      · exact absurd hrun (by simp)
    · obtain rfl := Option.some_inj.mp hrun
      exact ⟨by simp [State.advance, hi], h.cqes, h.enabled, h.responded⟩
    · -- the CQE it waits for is that of a CAS behind it
      simp only [runWqe] at hrun
      rw [if_neg (by simp [h.cqes])] at hrun
      exact absurd hrun (by simp)
  · exact absurd hs (by simp)

theorem Stalled.step {count requests : ℕ} {s s' : State} {a : Act} (h : Stalled s)
    (hs : OffloadChain.step count requests s a = some s') : Stalled s' := by
  cases a with
  | worker => exact h.worker hs
  | trigger =>
    simp only [OffloadChain.step] at hs
    split at hs
    · obtain rfl := Option.some_inj.mp hs
      exact ⟨h.executed, h.cqes, h.enabled, h.responded⟩
    · exact absurd hs (by simp)
  | arrive =>
    simp only [OffloadChain.step] at hs
    split at hs
    · obtain rfl := Option.some_inj.mp hs
      exact ⟨h.executed, h.cqes, h.enabled, h.responded⟩
    · exact absurd hs (by simp)
  | client =>
    simp only [OffloadChain.step] at hs
    rw [if_neg (by simp [h.enabled])] at hs
    exact absurd hs (by simp)

theorem Stalled.run {count requests : ℕ} {s : State} {as : List Act}
    (hr : Machine.run (OffloadChain.step count requests) {} as = some s) : Stalled s :=
  Machine.run_inv (I := Stalled) (fun _ _ _ hi hs => hi.step hs) init_stalled hr

/-- No response runs before its CAS. -/
theorem gated_run {count requests : ℕ} {s : State} {as : List Act}
    (hr : Machine.run (step count requests) {} as = some s) : Gated s := by
  intro k _ hk
  rw [(Stalled.run hr).enabled] at hk
  exact absurd hk (Nat.not_lt_zero k)

/-! ### When requests arrive, it wedges -/

/-- The requests that can be delivered, delivered one after the other. -/
theorem run_arrivals {count requests : ℕ} (m : ℕ) {s : State}
    (hreq : s.cqes .client + m ≤ requests) (hcount : s.cqes .client + m ≤ count) :
    Machine.run (step count requests) s (List.replicate m .arrive) =
      some { s with cqes := Function.update s.cqes .client (s.cqes .client + m) } := by
  induction m generalizing s with
  | zero => simp
  | succ m ih =>
    rw [List.replicate_succ, Machine.run_cons]
    have harrive : step count requests s .arrive =
        some { s with cqes := Function.update s.cqes .client (s.cqes .client + 1) } :=
      if_pos ⟨by omega, by omega⟩
    rw [harrive, Option.bind_some, ih]
    · simp only [Function.update_self, Function.update_idem]
      rw [Nat.add_assoc, Nat.add_comm 1 m]
    · simp only [Function.update_self]
      omega
    · simp only [Function.update_self]
      omega

/-- No more requests are delivered than are on their way. -/
theorem delivered_step {count requests : ℕ} {s s' : State} {a : Act}
    (h : s.cqes .client ≤ requests ∧ s.cqes .client ≤ count)
    (hs : step count requests s a = some s') :
    s'.cqes .client ≤ requests ∧ s'.cqes .client ≤ count := by
  cases a with
  | trigger =>
    simp only [step] at hs
    split at hs
    · obtain rfl := Option.some_inj.mp hs
      exact h
    · exact absurd hs (by simp)
  | arrive =>
    simp only [step] at hs
    split at hs
    · rename_i hlt
      obtain rfl := Option.some_inj.mp hs
      simp only [Function.update_self]
      omega
    · exact absurd hs (by simp)
  | worker =>
    simp only [step] at hs
    split at hs
    · obtain ⟨wqe, -, hs⟩ := Option.bind_eq_some_iff.mp hs
      obtain ⟨s₁, hrun, rfl⟩ := Option.map_eq_some_iff.mp hs
      have hcqes : s₁.cqes .client = s.cqes .client := by
        cases wqe with
        | wait cq index =>
          simp only [runWqe] at hrun
          split at hrun
          · rw [Option.some_inj.mp hrun]
          · exact absurd hrun (by simp)
        | enable qp pi =>
          obtain rfl := Option.some_inj.mp hrun
          rfl
        | read => rw [Option.some_inj.mp hrun]
        | cas =>
          obtain rfl := Option.some_inj.mp hrun
          rfl
      rw [State.advance, hcqes]
      exact h
    · exact absurd hs (by simp)
  | client =>
    simp only [step] at hs
    split at hs
    · obtain rfl := Option.some_inj.mp hs
      exact h
    · exact absurd hs (by simp)

theorem delivered_run {count requests : ℕ} {s : State} {as : List Act}
    (hr : Machine.run (step count requests) {} as = some s) :
    s.cqes .client ≤ requests ∧ s.cqes .client ≤ count :=
  Machine.run_inv (I := fun t => t.cqes .client ≤ requests ∧ t.cqes .client ≤ count)
    (fun _ _ _ hi hs => delivered_step hi hs) ⟨Nat.zero_le _, Nat.zero_le _⟩ hr

/-- The chain after `m` requests, at the worker's wait for itself. -/
def stuck (m pi : ℕ) : State where
  triggered := true
  enabled := Function.update (Function.update (fun _ => 0) .worker 2) .worker (max 2 pi)
  executed := Function.update (Function.update (fun _ => 0) .worker 1) .worker 2
  cqes := Function.update (fun _ => 0) .client m

theorem run_stuck {n requests m pi : ℕ} {rest : List Wqe}
    (hq : workerQueue (n + 1) =
      .wait .client 0 :: .enable .worker pi :: .wait .worker 0 :: rest)
    (hm : 0 < m) (hreq : m ≤ requests) (hcount : m ≤ n + 1) :
    Machine.run (step (n + 1) requests) {}
      (.trigger :: (List.replicate m .arrive ++ [.worker, .worker])) = some (stuck m pi) := by
  have htrigger : step (n + 1) requests {} .trigger =
      some { triggered := true, enabled := Function.update (fun _ => 0) .worker 2 } := by
    simp [step]
  -- two WQEs enabled, every request in, and then both WQEs run
  refine (Machine.run_cons_eq_some _).mpr ⟨_, htrigger, ?_⟩
  refine (Machine.run_append_eq_some _).mpr ⟨_, run_arrivals m ?_ ?_, ?_⟩
  · simpa using hreq
  · simpa using hcount
  · simp [Machine.run, step, hq, runWqe, State.advance, hm, stuck]

theorem wedged_stuck {n requests m pi : ℕ} {rest : List Wqe}
    (hq : workerQueue (n + 1) =
      .wait .client 0 :: .enable .worker pi :: .wait .worker 0 :: rest)
    (hm : 0 < m) (hall : requests ≤ m ∨ n + 1 ≤ m) :
    Wedged (n + 1) requests (stuck m pi) := by
  refine ⟨?_, 0, hm, Or.inl (Nat.not_lt_zero 0)⟩
  intro a
  cases a with
  | trigger => simp [step, stuck]
  | arrive =>
    -- no request is left, or no RECV for it
    have hnone : ¬ (m < requests ∧ m < n + 1) := by omega
    simpa [step, stuck] using hnone
  | worker => simp [step, stuck, hq, runWqe]
  | client => simp [step, stuck]

/-- With something to answer, the chain gets stuck once every request is in. -/
theorem wedges {count requests : ℕ} (hcount : 0 < count) (hreq : 0 < requests) :
    ∃ as s, Machine.run (step count requests) {} as = some s ∧ Wedged count requests s := by
  obtain ⟨n, rfl⟩ : ∃ n, count = n + 1 := ⟨count - 1, by omega⟩
  obtain ⟨pi, rest, hq⟩ := workerQueue_succ n
  have hpos : 0 < min requests (n + 1) := by omega
  exact ⟨_, _, run_stuck hq hpos (Nat.min_le_left ..) (Nat.min_le_right ..),
    wedged_stuck hq hpos (by omega)⟩

/-- **The chain answers nothing**: it cannot wedge and is gated exactly when no
iteration was posted or no request arrives. -/
theorem chain_iff (count requests : ℕ) :
    (∀ as s, Machine.run (step count requests) {} as = some s →
      ¬ Wedged count requests s ∧ Gated s) ↔ count = 0 ∨ requests = 0 := by
  constructor
  · intro h
    by_contra hne
    have hpos : 0 < count ∧ 0 < requests := by omega
    obtain ⟨as, s, hr, hw⟩ := wedges hpos.1 hpos.2
    exact (h as s hr).1 hw
  · intro h as s hr
    refine ⟨?_, gated_run hr⟩
    -- nothing is delivered, so nothing waits for an answer
    rintro ⟨-, k, hk, -⟩
    have hle := delivered_run hr
    have hlt : k < s.cqes .client := hk
    omega

/-- One iteration, one request: the worker waits for the CQE of the CAS it has
yet to run. -/
theorem wedged_one : ∃ s,
    Machine.run (step 1 1) {} [.trigger, .arrive, .worker, .worker] = some s ∧
      workerQueue 1 = [.wait .client 0, .enable .worker 7, .wait .worker 0, .enable .client 1,
        .read, .cas] ∧
      s.executed .worker = 2 ∧ Wedged 1 1 s := by
  refine ⟨_, rfl, rfl, rfl, ?_, 0, Nat.zero_lt_one, Or.inl (Nat.not_lt_zero 0)⟩
  intro a
  cases a <;> rfl

end OffloadChain

end Rdma
