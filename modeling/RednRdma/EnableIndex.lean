/-
The enable indexes of `offload_hash` (`test.c`, `verbs.c`).

Every iteration posts six requests on the worker's queue and one on the client's, each of
one block, and two of the six enable queues further: the worker's own up to `count_1`,
which starts at 8 and grows by 6, and the client's up to `count_2`.  The last iteration
takes one off `count_1`.

* `offloadCalls_flatMap` — the worker's part of the calls is what `OffloadChain` runs;
* `getElem?_offloadCalls` — the calls of iteration `k`;
* `worker_index`, `client_index` — the indexes it gives, against what has been posted;
* `indexes_overrun` — the last index of the worker is past the end of its queue, for
  every number of iterations.
-/
import RednRdma.OffloadChain

namespace Rdma

namespace OffloadChain

/-- The calls of `offload_hash` that post. -/
inductive Call
  /-- A post on the worker. -/
  | onWorker (post : Post)
  /-- `post_dummy_write(client, IO_SIZE, imm)`. -/
  | dummyWrite (imm : ℕ)
  /-- `IBV_TRIGGER(master, worker, count)`. -/
  | trigger (count : ℕ)
  deriving Repr, DecidableEq

/-- The body of the loop. -/
def iteration (count k count1 count2 : ℕ) : List Call :=
  [.onWorker (.waitExplicit .client 1),
    .onWorker (.triggerExplicit .worker (if k = count - 1 then count1 - 1 else count1)),
    .onWorker (.waitExplicit .worker 1),
    .onWorker (.triggerExplicit .client count2),
    .onWorker .hashRead,
    .onWorker .cas,
    .dummyWrite (k + 1)] ++ if k = 0 then [.trigger 2] else []

/-- The loop with `left` iterations to go, an iteration an element. -/
def callLoop (count : ℕ) : ℕ → ℕ → ℕ → ℕ → List (List Call)
  | 0, _, _, _ => []
  | left + 1, k, count1, count2 =>
    iteration count k count1 count2 :: callLoop count left (k + 1) (count1 + 6) (count2 + 1)

/-- What `offload_hash` calls. -/
def offloadCalls (count : ℕ) : List (List Call) := callLoop count count 0 8 1

/-- The post of a call on the worker. -/
def Call.workerPost : Call → Option Post
  | onWorker post => some post
  | _ => none

/-- The call posts on the queue. -/
def Call.postsOn : Call → Sock → Bool
  | onWorker _, .worker => true
  | dummyWrite _, .client => true
  | _, _ => false

/-- The index a call of the loop enables the queue up to. -/
def Call.enables (sock : Sock) : Call → Option ℕ
  | onWorker (.triggerExplicit qp index) => if qp = sock then some index else none
  | _ => none

/-- The requests some iterations post on a queue. -/
def posted (sock : Sock) (its : List (List Call)) : ℕ :=
  its.flatten.countP (·.postsOn sock)

/-- What the enable indexes of a run are to be: that for the worker covers its iteration
and, but for the last one, exactly two requests of the next; that for the client covers
its iteration; and none is past the end of its queue. -/
def IndexesMatch (count : ℕ) : Prop :=
  ∀ k it, (offloadCalls count)[k]? = some it → ∃ indexW indexC,
    it.filterMap (Call.enables .worker) = [indexW] ∧
    it.filterMap (Call.enables .client) = [indexC] ∧
    posted .worker ((offloadCalls count).take (k + 1)) ≤ indexW ∧
    (k < count - 1 → indexW = posted .worker ((offloadCalls count).take (k + 1)) + 2) ∧
    indexC = k + 1 ∧
    indexW ≤ posted .worker (offloadCalls count) ∧
    indexC ≤ posted .client (offloadCalls count)

/-! ### The calls of an iteration -/

/-- The master's trigger is not on one of the two queues. -/
theorem trigger_filterMap {β : Type} (f : Call → Option β) (hf : ∀ n, f (.trigger n) = none)
    (k : ℕ) : (if k = 0 then [Call.trigger 2] else []).filterMap f = [] := by
  split
  · rw [List.filterMap_cons_none (hf 2), List.filterMap_nil]
  · rfl

theorem workerPost_iteration (count k count1 count2 : ℕ) :
    (iteration count k count1 count2).filterMap Call.workerPost =
      [.waitExplicit .client 1,
        .triggerExplicit .worker (if k = count - 1 then count1 - 1 else count1),
        .waitExplicit .worker 1, .triggerExplicit .client count2, .hashRead, .cas] := by
  rw [iteration, List.filterMap_append, trigger_filterMap _ fun _ => rfl]
  rfl

theorem posted_iteration (sock : Sock) (count k count1 count2 : ℕ) :
    (iteration count k count1 count2).countP (·.postsOn sock) =
      match sock with
      | .worker => 6
      | .client => 1 := by
  have htrigger : (if k = 0 then [Call.trigger 2] else []).countP (·.postsOn sock) = 0 := by
    split <;> rfl
  rw [iteration, List.countP_append, htrigger]
  cases sock <;> rfl

theorem enables_iteration (sock : Sock) (count k count1 count2 : ℕ) :
    (iteration count k count1 count2).filterMap (Call.enables sock) =
      match sock with
      | .worker => [if k = count - 1 then count1 - 1 else count1]
      | .client => [count2] := by
  rw [iteration, List.filterMap_append, trigger_filterMap _ fun _ => rfl]
  cases sock <;> rfl

theorem callLoop_flatMap (count left k count1 count2 : ℕ) :
    (callLoop count left k count1 count2).flatMap (·.filterMap Call.workerPost) =
      offloadLoop count left k count1 count2 := by
  induction left generalizing k count1 count2 with
  | zero => rfl
  | succ left ih =>
    rw [callLoop, List.flatMap_cons, ih, workerPost_iteration]
    rfl

/-- The worker's part of the calls. -/
theorem offloadCalls_flatMap (count : ℕ) :
    (offloadCalls count).flatMap (·.filterMap Call.workerPost) = offloadHash count :=
  callLoop_flatMap count count 0 8 1

theorem length_callLoop (count left k count1 count2 : ℕ) :
    (callLoop count left k count1 count2).length = left := by
  induction left generalizing k count1 count2 with
  | zero => rfl
  | succ left ih => rw [callLoop, List.length_cons, ih]

/-- The counters have gone up by their strides once for every iteration before. -/
theorem getElem?_callLoop {count left k count1 count2 i : ℕ} (hi : i < left) :
    (callLoop count left k count1 count2)[i]? =
      some (iteration count (k + i) (count1 + 6 * i) (count2 + i)) := by
  induction i generalizing left k count1 count2 with
  | zero =>
    obtain ⟨left, rfl⟩ : ∃ n, left = n + 1 := ⟨left - 1, by omega⟩
    rfl
  | succ i ih =>
    obtain ⟨left, rfl⟩ : ∃ n, left = n + 1 := ⟨left - 1, by omega⟩
    rw [callLoop, List.getElem?_cons_succ, ih (by omega)]
    congr 2
    · omega
    · omega
    · omega

theorem getElem?_offloadCalls {count k : ℕ} (hk : k < count) :
    (offloadCalls count)[k]? = some (iteration count k (8 + 6 * k) (k + 1)) := by
  rw [offloadCalls, getElem?_callLoop hk, Nat.zero_add, Nat.add_comm 1 k]

theorem posted_callLoop (sock : Sock) (count left k count1 count2 n : ℕ) :
    posted sock ((callLoop count left k count1 count2).take n) =
      min n left * match sock with
        | .worker => 6
        | .client => 1 := by
  induction left generalizing k count1 count2 n with
  | zero => simp [callLoop, posted]
  | succ left ih =>
    rcases n with _ | n
    · simp [posted]
    · have hrest := ih (k + 1) (count1 + 6) (count2 + 1) n
      rw [posted] at hrest
      rw [callLoop, List.take_succ_cons, posted, List.flatten_cons, List.countP_append, hrest,
        posted_iteration, Nat.add_min_add_right, Nat.add_one_mul, Nat.add_comm]

/-- What the first `n` iterations have posted on the worker. -/
theorem posted_worker {count n : ℕ} (hn : n ≤ count) :
    posted .worker ((offloadCalls count).take n) = 6 * n := by
  rw [offloadCalls, posted_callLoop, Nat.min_eq_left hn, Nat.mul_comm]

theorem posted_client {count n : ℕ} (hn : n ≤ count) :
    posted .client ((offloadCalls count).take n) = n := by
  rw [offloadCalls, posted_callLoop, Nat.min_eq_left hn, Nat.mul_one]

theorem take_offloadCalls (count : ℕ) : (offloadCalls count).take count = offloadCalls count :=
  List.take_of_length_le (Nat.le_of_eq (length_callLoop count count 0 8 1))

/-! ### The indexes -/

/-- The worker's index covers its iteration and two requests more, in the last one only
one more. -/
theorem worker_index {count k : ℕ} (hk : k < count) :
    (iteration count k (8 + 6 * k) (k + 1)).filterMap (Call.enables .worker) =
      [posted .worker ((offloadCalls count).take (k + 1)) +
        if k = count - 1 then 1 else 2] := by
  rw [enables_iteration, posted_worker hk]
  by_cases hlast : k = count - 1
  · rw [if_pos hlast, if_pos hlast]
    show [_] = [_]
    congr 1
    omega
  · rw [if_neg hlast, if_neg hlast]
    show [_] = [_]
    congr 1
    omega

/-- The client's index covers its iteration, and nothing more has been posted there. -/
theorem client_index {count k : ℕ} (hk : k < count) :
    (iteration count k (8 + 6 * k) (k + 1)).filterMap (Call.enables .client) =
      [posted .client ((offloadCalls count).take (k + 1))] := by
  rw [enables_iteration, posted_client hk]

/-- **The last index of the worker is past the end of its queue**, whatever the number of
iterations. -/
theorem indexes_overrun {count : ℕ} (hcount : 0 < count) : ¬ IndexesMatch count := by
  intro hmatch
  have hlast : count - 1 < count := by omega
  obtain ⟨indexW, indexC, hw, -, -, -, -, hend, -⟩ :=
    hmatch (count - 1) _ (getElem?_offloadCalls hlast)
  rw [worker_index hlast, if_pos rfl, Nat.sub_add_cancel hcount, take_offloadCalls] at hw
  obtain rfl := (List.cons.inj hw).1
  omega

/-- A single iteration: the index 7 on a queue of six requests. -/
theorem indexes_overrun_single : ¬ IndexesMatch 1 ∧
    (offloadCalls 1).flatten.filterMap (Call.enables .worker) = [7] ∧
      posted .worker (offloadCalls 1) = 6 :=
  ⟨indexes_overrun Nat.one_pos, rfl, rfl⟩

/-- Two iterations: 8, the first two requests of the second one included, and 13 of 12. -/
theorem overrun_after_two :
    ¬ IndexesMatch 2 ∧ (offloadCalls 2).flatten.filterMap (Call.enables .worker) = [8, 13] ∧
      posted .worker (offloadCalls 2) = 12 := by
  refine ⟨?_, rfl, rfl⟩
  intro hmatch
  obtain ⟨indexW, indexC, hw, -, -, -, -, hend, -⟩ := hmatch 1 _ rfl
  obtain rfl : 13 = indexW := (List.cons.inj hw).1
  exact absurd hend (by decide)

end OffloadChain

end Rdma
