/-
What `IBV_WAIT` counts (`verbs.c`).

`IBV_WAIT` makes the NIC wait until the completion queue of the watched connection has
taken `n_posted_ops` CQEs.  The posting calls add to `n_posted_ops` by hand, and
whether a request puts a CQE is up to its signaled flag, to how it ends, and, for
the receives that share the queue, to nothing the counter knows of.  The driver counts
from the `wait_index` of the completion queue, which other waits move.

* `Tally` — which requests were counted, the CQEs put, and the two ways in which
  counting goes wrong;
* `Inv.balance` — counted and loud make CQEs and silent;
* `Plain` — the steps that count what they should, and the waits that can be met;
* `wait_count` — in a run of such steps the counter is the number of CQEs, and every
  `IBV_WAIT` lets the NIC go on exactly when all that was posted before it is done;
* `unsignaled_overcounts`, `receive_undercounts`, `till_overshoots` — runs of others.
-/
import RednRdma.CrossChannel
import RednRdma.Execution
import RednRdma.Lib.History
import Mathlib.Data.List.Count

namespace Rdma

namespace WaitCount

open Execution

/-! ### The tally of a connection -/

/-- What has happened on a connection. -/
structure Tally where
  /-- For each request posted, whether its call added it to `n_posted_ops`. -/
  marks : List Bool := []
  /-- The CQEs put into the completion queue. -/
  cqes : ℕ := 0
  /-- The requests that were counted and completed without a CQE. -/
  silent : ℕ := 0
  /-- The requests and receives that were not counted and completed with a CQE. -/
  loud : ℕ := 0

/-- Something completes, counted or not, with a CQE or without. -/
def Tally.complete (t : Tally) (counted cqe : Bool) : Tally :=
  { t with
    cqes := t.cqes + cqe.toNat
    silent := t.silent + (counted && !cqe).toNat
    loud := t.loud + (!counted && cqe).toNat }

/-- Bring the tally up to date after a step. -/
def note (t : Tally) (s : State) : Act → State → Tally
  | .call call, s' =>
    { t with
      marks := t.marks ++ List.replicate (s'.log.length - s.log.length) call.counted }
  | .execute _, s' => t.complete (t.marks.getD s.executed false) (puts s s')
  | .receive .., s' => t.complete false (puts s s')
  | _, _ => t

/-! ### The waits for it -/

/-- An `IBV_WAIT` for a connection: the index in its WQE, and the requests that were posted
on the connection before it. -/
structure Watch where
  pi : UInt32
  posted : ℕ
  deriving Repr, DecidableEq

/-- A connection, its `ctx->cq` as the driver's waits know it, and the `IBV_WAIT`s for it. -/
structure Watched where
  state : State
  cq : CrossChannel.Cq := {}
  waits : List Watch := []

inductive Step
  /-- Something happens on the connection. -/
  | own (a : Act)
  /-- `IBV_WAIT` for the connection, posted on `c`. -/
  | wait (c : Conn)
  /-- Another WAIT for its completion queue, on whichever queue pair: `IBV_WAIT_TILL`,
  `IBV_WAIT_EXPLICIT`, or one in a list of `IBV_POST_ASYNC`. -/
  | waitOther (count : UInt32) (last : Bool)

/-- The count and the flag `IBV_EXP_SEND_WAIT_EN_LAST` of a WAIT. -/
def waitOf (wr : WorkRequest) : Option (UInt32 × Bool) :=
  match wr.task with
  | .cqeWait _ count => some (count, wr.flags.waitEnLast)
  | _ => none

/-- The driver lays out a WAIT for the completion queue. -/
def Watched.lay (x : Watched) (count : UInt32) (last : Bool) : Watched × UInt32 :=
  ({ x with cq := (x.cq.wait count last).1 }, (x.cq.wait count last).2)

def watchedStep (x : Watched) : Step → Option Watched
  | .own a => (step x.state a).map fun state => { x with state }
  | .wait c => do
    let (_, c) ← (ibvWait c x.state.conn.ctx).toOption
    let r ← c.qp.log.getLast?
    let (count, last) ← waitOf r.data
    let (x, pi) := x.lay count last
    some { x with waits := x.waits ++ [{ pi, posted := x.state.log.length }] }
  | .waitOther count last => some (x.lay count last).1

/-- The tally of the watched connection. -/
def noteWatched (t : Tally) (x : Watched) : Step → Watched → Tally
  | .own a, x' => note t x.state a x'.state
  | _, _ => t

/-- A watched connection with its tally. -/
abbrev tallied : Watched × Tally → Step → Option (Watched × Tally) :=
  Machine.noting watchedStep noteWatched

/-- The tally records what happens and has no part in it. -/
theorem exists_run_tallied_iff {x x' : Watched} {as : List Step} :
    (∃ t, Machine.run tallied (x, {}) as = some (x', t)) ↔
      Machine.run watchedStep x as = some x' :=
  Machine.exists_run_noting_iff _

/-- Nothing has been posted on the connection, nor for its completion queue. -/
structure Fresh (x : Watched) : Prop where
  state : Initial x.state
  waitIndex : x.cq.waitIndex = 0 - 1
  waits : x.waits = []

/-- The CQE that a WAIT names has been put: seen from the last one, it is not ahead. -/
def Fires (t : Tally) (w : Watch) : Prop := (UInt32.ofNat t.cqes - 1 - w.pi).toNat < 2 ^ 31

instance (t : Tally) (w : Watch) : Decidable (Fires t w) := inferInstanceAs (Decidable (_ < _))

/-- All that was posted before the WAIT has been executed. -/
def Done (x : Watched) (w : Watch) : Prop := w.posted ≤ x.state.executed

instance (x : Watched) (w : Watch) : Decidable (Done x w) := inferInstanceAs (Decidable (_ ≤ _))

/-- The call posts nothing that is counted and not signaled. -/
def Loud : PostCall → Prop
  | .noop signaled => signaled ≠ 0
  | .post wrs => ∀ wr ∈ wrs, wr.flags.signaled = true
  | _ => True

/-- Nothing is counted that is not signaled, nothing unsignaled fails, and nothing is
received. -/
def Counts (s : State) : Act → Prop
  | .call call => Loud call
  | .recv _ => False
  | .execute .error => ∀ r ∈ s.log[s.executed]?, r.data.flags.signaled = true
  | _ => True

/-- The connection counts what it should, and an `IBV_WAIT` for it comes when no wait has
moved `wait_index` and the request before it is signaled. -/
def Plain (x : Watched) : Step → Prop
  | .own a => Counts x.state a
  | .wait _ => x.cq.waitIndex = 0 - 1 ∧
    (∀ r ∈ x.state.log.getLast?, r.data.flags.signaled = true) ∧
    x.state.log.length < x.state.executed + 2 ^ 31
  | .waitOther .. => True

/-! ### The balance -/

theorem Tally.complete_balance (t : Tally) (counted cqe : Bool) :
    counted.toNat + (t.complete counted cqe).loud + (t.cqes + t.silent) =
      (t.complete counted cqe).cqes + (t.complete counted cqe).silent + t.loud := by
  cases counted <;> cases cqe <;> simp [Tally.complete] <;> omega

/-- How the tally stands to the connection. -/
structure Inv (s : State) (t : Tally) : Prop where
  length : t.marks.length = s.log.length
  executed_le : s.executed ≤ s.log.length
  posted : s.conn.ctx.nPostedOps = UInt32.ofNat (t.marks.count true)
  balance : (t.marks.take s.executed).count true + t.loud = t.cqes + t.silent
  /-- A request that was not counted is not signaled. -/
  unmarked : ∀ (j : ℕ) (r : Ring.Placed WorkRequest), t.marks[j]? = some false →
    s.log[j]? = some r → r.data.flags.signaled = false

theorem Inv.initial {s : State} (h : Initial s) : Inv s {} where
  length := by simp [h.log]
  executed_le := by simp [h.executed]
  posted := by simp [h.nPostedOps]
  balance := by simp
  unmarked := by simp

/-- The requests of a call that does not count them are not signaled. -/
theorem unsignaled_of_uncounted {call : PostCall} {wrs : List WorkRequest}
    (hs : call.Signals wrs) (hc : call.counted = false) :
    ∀ wr ∈ wrs, wr.flags.signaled = false := by
  cases call with
  | wait | waitTill | waitExplicit | trigger | triggerExplicit | setTrigger => exact hs
  | rdma | send | post | cas | fetchAdd | convertEndian | noop | calcOp | message =>
    exact absurd hc (by simp [PostCall.counted])

/-- The requests of a call that may post only signaled ones are. -/
theorem signaled_of_counted {call : PostCall} {wrs : List WorkRequest}
    (hs : call.Signals wrs) (hc : call.counted = true) (hl : Loud call) :
    ∀ wr ∈ wrs, wr.flags.signaled = true := by
  cases call with
  | wait | waitTill | waitExplicit | trigger | triggerExplicit | setTrigger =>
    exact absurd hc (by simp [PostCall.counted])
  | noop signaled =>
    intro wr hwr
    rw [hs wr hwr]
    exact decide_eq_true hl
  | post ws =>
    obtain rfl : wrs = ws := hs
    exact hl
  | rdma | send | cas | fetchAdd | convertEndian | calcOp | message => exact hs

theorem count_take_succ (marks : List Bool) (n : ℕ) :
    (marks.take (n + 1)).count true =
      (marks.take n).count true + (marks.getD n false).toNat := by
  rw [List.take_add_one, List.count_append]
  cases h : marks[n]? with
  | none => simp [h]
  | some b => cases b <;> simp [h]

/-- What a call adds to the queue and to the marks. -/
theorem note_call {s : State} {t : Tally} {conn : Conn} {call : PostCall}
    {wrs : List WorkRequest} (he : Effect call s.conn conn wrs) :
    ∃ new, conn.qp.log = s.log ++ new ∧ new.map Ring.Placed.data = wrs ∧
      note t s (.call call) { s with conn } =
        { t with marks := t.marks ++ List.replicate new.length call.counted } := by
  obtain ⟨new, hlog, hdata, hgrow⟩ := he.grow
  refine ⟨new, hlog, hdata, ?_⟩
  rw [← hgrow]
  rfl

/-- A call adds its requests at the end. -/
theorem Inv.call {s : State} {t : Tally} {conn : Conn} {call : PostCall}
    {wrs : List WorkRequest} (h : Inv s t) (he : Effect call s.conn conn wrs) :
    Inv { s with conn } (note t s (.call call) { s with conn }) := by
  obtain ⟨new, hlog, hdata, hnote⟩ := note_call (t := t) he
  have hlen : new.length = wrs.length := by rw [← hdata, List.length_map]
  rw [hnote]
  refine ⟨?_, ?_, ?_, ?_, ?_⟩
  · show (t.marks ++ List.replicate new.length call.counted).length = conn.qp.log.length
    rw [hlog, List.length_append, List.length_append, List.length_replicate, h.length]
  · show s.executed ≤ conn.qp.log.length
    rw [hlog, List.length_append]
    exact h.executed_le.trans (Nat.le_add_right _ _)
  · show conn.ctx.nPostedOps = UInt32.ofNat ((t.marks ++ List.replicate _ _).count true)
    rw [he.moved.nPostedOps, h.posted, List.count_append, UInt32.ofNat_add,
      List.count_replicate, hlen]
    cases call.counted <;> rfl
  · show ((t.marks ++ List.replicate _ _).take s.executed).count true + t.loud = _
    rw [List.take_append_of_le_length (h.length ▸ h.executed_le)]
    exact h.balance
  · intro j r hj hr
    change conn.qp.log[j]? = some r at hr
    rw [hlog] at hr
    rcases label_cases h.length hj hr with ⟨hj, hr⟩ | ⟨hcounted, hmem⟩
    · exact h.unmarked j r hj hr
    · exact unsignaled_of_uncounted he.signals hcounted _ (hdata ▸ List.mem_map_of_mem hmem)

/-- The NIC goes on by one request. -/
theorem Inv.execute {s s' : State} {t : Tally} {cqe : Bool} (h : Inv s t)
    (hlt : s.executed < s.log.length) (hlog : s'.log = s.log)
    (hops : s'.conn.ctx.nPostedOps = s.conn.ctx.nPostedOps) (hexec : s'.executed = s.executed + 1) :
    Inv s' (t.complete (t.marks.getD s.executed false) cqe) := by
  refine ⟨h.length.trans (congrArg _ hlog.symm), ?_, hops.trans h.posted, ?_, ?_⟩
  · rw [hexec, hlog]
    exact hlt
  · have hbal := h.balance
    have hstep := t.complete_balance (t.marks.getD s.executed false) cqe
    show (t.marks.take s'.executed).count true + _ = _
    rw [hexec, count_take_succ]
    omega
  · rw [hlog]
    exact h.unmarked

/-- A step that leaves the send queue alone, at which nothing or a receive completes. -/
theorem Inv.frame {s s' : State} {t : Tally} (h : Inv s t) (hlog : s'.log = s.log)
    (hops : s'.conn.ctx.nPostedOps = s.conn.ctx.nPostedOps) (hexec : s'.executed = s.executed) :
    Inv s' t := by
  refine ⟨h.length.trans (congrArg _ hlog.symm), ?_, hops.trans h.posted, ?_, ?_⟩
  · rw [hexec, hlog]
    exact h.executed_le
  · rw [hexec]
    exact h.balance
  · rw [hlog]
    exact h.unmarked

theorem Inv.receive {s : State} {t : Tally} {cqe : Bool} (h : Inv s t) :
    Inv s (t.complete false cqe) := by
  refine ⟨h.length, h.executed_le, h.posted, ?_, h.unmarked⟩
  have hbal := h.balance
  have hstep := t.complete_balance false cqe
  rw [Bool.toNat_false, Nat.zero_add] at hstep
  show (t.marks.take s.executed).count true + _ = _
  omega

theorem Inv.step {s s' : State} {t : Tally} {a : Act} (h : Inv s t)
    (hs : Execution.step s a = some s') : Inv s' (note t s a s') := by
  cases a with
  | call call =>
    obtain ⟨ret, conn, wrs, -, he, rfl⟩ := step_call_eq_some hs
    exact h.call he
  | nextWrId =>
    obtain rfl := Option.some_inj.mp hs
    exact h.frame rfl rfl rfl
  | acquire user =>
    obtain ⟨-, rfl⟩ := step_acquire_eq_some hs
    exact h.frame rfl rfl rfl
  | recv call =>
    obtain ⟨r, rfl⟩ := step_recv_eq_some hs
    exact h.frame rfl rfl rfl
  | execute status =>
    obtain ⟨r, hr, ⟨-, -, rfl⟩ | ⟨-, rfl⟩⟩ := step_execute_cases hs
    · exact h.execute (List.getElem?_eq_some_iff.mp hr).1 rfl rfl rfl
    · exact h.execute (List.getElem?_eq_some_iff.mp hr).1 rfl rfl rfl
  | receive status withImm immData =>
    obtain ⟨r, recvq, wc, -, -, rfl⟩ := step_receive_eq_some hs
    have hframe : Inv { s with recvq, cq := s.cq ++ [wc] } t := h.frame rfl rfl rfl
    exact hframe.receive
  | poll =>
    obtain ⟨wc, cq, ctx, msg, -, hpoll, rfl⟩ := step_poll_eq_some hs
    refine h.frame rfl ?_ rfl
    show ctx.nPostedOps = s.conn.ctx.nPostedOps
    rw [pollCq_frame hpoll]

/-! ### Connections that count what they should -/

/-- Every CQE is that of a counted request, and every counted request puts one. -/
structure Exact (s : State) (t : Tally) : Prop where
  inv : Inv s t
  silent : t.silent = 0
  loud : t.loud = 0
  marked : ∀ (j : ℕ) (r : Ring.Placed WorkRequest), t.marks[j]? = some true →
    s.log[j]? = some r → r.data.flags.signaled = true
  recvq : s.recvq = []

theorem Exact.initial {s : State} (h : Initial s) : Exact s {} :=
  ⟨Inv.initial h, rfl, rfl, by simp, h.recvq⟩

/-- A counted request puts a CQE, another one does not. -/
theorem Exact.complete {s s' : State} {t : Tally} {mark : Bool} (h : Exact s t)
    (hi : Inv s' (t.complete mark mark)) (hlog : s'.log = s.log) (hrecvq : s'.recvq = s.recvq) :
    Exact s' (t.complete mark mark) := by
  refine ⟨hi, ?_, ?_, hlog ▸ h.marked, hrecvq.trans h.recvq⟩
  · show t.silent + _ = 0
    rw [h.silent]
    cases mark <;> rfl
  · show t.loud + _ = 0
    rw [h.loud]
    cases mark <;> rfl

/-- The mark of a request is its signaled flag. -/
theorem Exact.mark_eq {s : State} {t : Tally} {j : ℕ} {r : Ring.Placed WorkRequest}
    (h : Exact s t) (hr : s.log[j]? = some r) : t.marks[j]? = some r.data.flags.signaled := by
  have hlt : j < t.marks.length := h.inv.length ▸ (List.getElem?_eq_some_iff.mp hr).1
  cases hmark : t.marks[j] with
  | true =>
    have hsome : t.marks[j]? = some true := hmark ▸ List.getElem?_eq_getElem hlt
    rw [hsome, h.marked j r hsome hr]
  | false =>
    have hsome : t.marks[j]? = some false := hmark ▸ List.getElem?_eq_getElem hlt
    rw [hsome, h.inv.unmarked j r hsome hr]

theorem Exact.step {s s' : State} {t : Tally} {a : Act} (h : Exact s t) (hc : Counts s a)
    (hs : Execution.step s a = some s') : Exact s' (note t s a s') := by
  have hi : Inv s' (note t s a s') := h.inv.step hs
  cases a with
  | call call =>
    obtain ⟨ret, conn, wrs, -, he, rfl⟩ := step_call_eq_some hs
    obtain ⟨new, hlog, hdata, hnote⟩ := note_call (t := t) he
    rw [hnote] at hi ⊢
    refine ⟨hi, h.silent, h.loud, ?_, h.recvq⟩
    intro j r hj hr
    change conn.qp.log[j]? = some r at hr
    rw [hlog] at hr
    rcases label_cases h.inv.length hj hr with ⟨hj, hr⟩ | ⟨hcounted, hmem⟩
    · exact h.marked j r hj hr
    · exact signaled_of_counted he.signals hcounted hc _ (hdata ▸ List.mem_map_of_mem hmem)
  | nextWrId =>
    obtain rfl := Option.some_inj.mp hs
    exact ⟨hi, h.silent, h.loud, h.marked, h.recvq⟩
  | acquire user =>
    obtain ⟨-, rfl⟩ := step_acquire_eq_some hs
    exact ⟨hi, h.silent, h.loud, h.marked, h.recvq⟩
  | recv call => exact hc.elim
  | execute status =>
    obtain ⟨r, hr, hcase⟩ := step_execute_cases hs
    have hmark := h.mark_eq hr
    -- the mark of the request is the CQE it puts
    have hputs : puts s s' = r.data.flags.signaled := by
      rcases hcase with ⟨rfl, -, rfl⟩ | ⟨rfl, rfl⟩
      · cases hsig : r.data.flags.signaled <;> simp [puts]
      · rw [hc r hr]
        simp [puts]
    have hnote : note t s (.execute status) s' =
        t.complete r.data.flags.signaled r.data.flags.signaled := by
      show t.complete (t.marks.getD s.executed false) (puts s s') = _
      rw [List.getD_eq_getElem?_getD, hmark, Option.getD_some, hputs]
    rw [hnote] at hi ⊢
    rcases hcase with ⟨-, -, rfl⟩ | ⟨-, rfl⟩
    · exact h.complete hi rfl rfl
    · exact h.complete hi rfl rfl
  | receive status withImm immData =>
    obtain ⟨r, recvq, wc, hq, -, -⟩ := step_receive_eq_some hs
    rw [h.recvq] at hq
    exact absurd hq (by simp)
  | poll =>
    obtain ⟨wc, cq, ctx, msg, -, -, rfl⟩ := step_poll_eq_some hs
    exact ⟨hi, h.silent, h.loud, h.marked, h.recvq⟩

theorem Exact.cqes {s : State} {t : Tally} (h : Exact s t) :
    t.cqes = (t.marks.take s.executed).count true := by
  have hbal := h.inv.balance
  rw [h.loud, h.silent] at hbal
  omega

/-- What `IBV_WAIT` adds: a WAIT for `n_posted_ops` CQEs more than `wait_index`. -/
theorem watchedStep_wait {x x' : Watched} {c : Conn} (hs : watchedStep x (.wait c) = some x') :
    x' = { x with
      cq := (x.cq.wait x.state.conn.ctx.nPostedOps false).1
      waits := x.waits ++ [{
        pi := (x.cq.wait x.state.conn.ctx.nPostedOps false).2
        posted := x.state.log.length }] } := by
  obtain ⟨⟨ret, c'⟩, hx, hs⟩ := Option.bind_eq_some_iff.mp hs
  have hp := postNext_posted (Except.toOption_eq_some.mp hx)
  obtain ⟨new, hlog, hdata⟩ := DriverQp.postList_log hp.qp
  -- the one request of the call is the last on the queue
  obtain ⟨p, rfl⟩ : ∃ p, new = [p] :=
    List.length_eq_one_iff.mp (by rw [← List.length_map, hdata, List.length_singleton])
  have hlast : c'.qp.log.getLast? = some p := by rw [hlog, List.getLast?_concat]
  have hwait : waitOf p.data = some (x.state.conn.ctx.nPostedOps, false) := by
    rw [List.map_singleton, List.singleton_inj] at hdata
    rw [hdata]
    rfl
  simp only [hlast, Option.bind_eq_bind, Option.bind_some, hwait, Watched.lay] at hs
  exact (Option.some_inj.mp hs).symm

/-- A wait knows how many of the requests before it are counted, the last of them among
these, and came soon enough after the NIC. -/
structure Held (s : State) (t : Tally) (w : Watch) : Prop where
  pi : w.pi = UInt32.ofNat ((t.marks.take w.posted).count true) - 1
  posted_le : w.posted ≤ s.log.length
  last : ∀ j, w.posted = j + 1 → t.marks[j]? = some true
  near : w.posted < s.executed + 2 ^ 31

/-- Marks are only added, and requests only executed. -/
theorem note_grows {s s' : State} {t : Tally} {a : Act} (hs : Execution.step s a = some s') :
    t.marks <+: (note t s a s').marks ∧ s.executed ≤ s'.executed := by
  cases a with
  | call call =>
    obtain ⟨ret, conn, wrs, -, -, rfl⟩ := step_call_eq_some hs
    exact ⟨List.prefix_append _ _, le_refl _⟩
  | nextWrId =>
    obtain rfl := Option.some_inj.mp hs
    exact ⟨List.prefix_refl _, le_refl _⟩
  | acquire user =>
    obtain ⟨-, rfl⟩ := step_acquire_eq_some hs
    exact ⟨List.prefix_refl _, le_refl _⟩
  | recv call =>
    obtain ⟨r, rfl⟩ := step_recv_eq_some hs
    exact ⟨List.prefix_refl _, le_refl _⟩
  | execute status =>
    obtain ⟨r, -, ⟨-, -, rfl⟩ | ⟨-, rfl⟩⟩ := step_execute_cases hs
    · exact ⟨List.prefix_refl _, Nat.le_succ _⟩
    · exact ⟨List.prefix_refl _, Nat.le_succ _⟩
  | receive status withImm immData =>
    obtain ⟨r, recvq, wc, -, -, rfl⟩ := step_receive_eq_some hs
    exact ⟨List.prefix_refl _, le_refl _⟩
  | poll =>
    obtain ⟨wc, cq, ctx, msg, -, -, rfl⟩ := step_poll_eq_some hs
    exact ⟨List.prefix_refl _, le_refl _⟩

/-- What the connection does later does not concern a wait. -/
theorem Held.step {s s' : State} {t : Tally} {a : Act} {w : Watch} (h : Held s t w)
    (hi : Inv s t) (hi' : Inv s' (note t s a s')) (hs : Execution.step s a = some s') :
    Held s' (note t s a s') w := by
  obtain ⟨⟨more, hmarks⟩, hexec⟩ := note_grows (t := t) hs
  have hle : w.posted ≤ t.marks.length := hi.length ▸ h.posted_le
  refine ⟨?_, ?_, ?_, h.near.trans_le (by omega)⟩
  · rw [← hmarks, List.take_append_of_le_length hle]
    exact h.pi
  · rw [← hi'.length, ← hmarks, List.length_append]
    exact hle.trans (Nat.le_add_right _ _)
  · intro j hj
    rw [← hmarks, List.getElem?_append_left (by omega)]
    exact h.last j hj

/-- An `IBV_WAIT` behind a signaled request. -/
theorem Held.posted {s : State} {t : Tally} (h : Exact s t)
    (hlast : ∀ r ∈ s.log.getLast?, r.data.flags.signaled = true)
    (hnear : s.log.length < s.executed + 2 ^ 31) :
    Held s t { pi := 0 - 1 + s.conn.ctx.nPostedOps, posted := s.log.length } := by
  refine ⟨?_, le_refl _, ?_, hnear⟩
  · rw [← h.inv.length, List.take_length, ← h.inv.posted]
    grind
  · intro j hj
    change s.log.length = j + 1 at hj
    have hr : s.log.getLast? = s.log[j]? := by
      rw [List.getLast?_eq_getElem?, hj, Nat.add_sub_cancel]
    obtain ⟨r, hj⟩ : ∃ r, s.log[j]? = some r := ⟨_, List.getElem?_eq_getElem (by omega)⟩
    rw [h.mark_eq hj, hlast r (hr.trans hj)]

/-- A connection that counts what it should, and the waits for it. -/
structure WatchInv (x : Watched) (t : Tally) : Prop where
  exact : Exact x.state t
  held : ∀ w ∈ x.waits, Held x.state t w

theorem WatchInv.step {x x' : Watched × Tally} {a : Step} (h : WatchInv x.1 x.2)
    (hp : Plain x.1 a) (hs : tallied x a = some x') : WatchInv x'.1 x'.2 := by
  obtain ⟨hstep, hnote⟩ := Machine.noting_eq_some.mp hs
  rw [hnote]
  cases a with
  | own a =>
    obtain ⟨s', hs', hx'⟩ := Option.map_eq_some_iff.mp hstep
    rw [← hx']
    have hexact : Exact s' (note x.2 x.1.state a s') := h.exact.step hp hs'
    exact ⟨hexact, fun w hw => (h.held w hw).step h.exact.inv hexact.inv hs'⟩
  | wait c =>
    obtain ⟨hindex, hlast, hnear⟩ := hp
    rw [watchedStep_wait hstep]
    refine ⟨h.exact, ?_⟩
    intro w hw
    rcases List.mem_append.mp hw with hw | hw
    · exact h.held w hw
    · rw [List.mem_singleton.mp hw, CrossChannel.Cq.wait, hindex]
      exact Held.posted h.exact hlast hnear
  | waitOther count last =>
    rw [← Option.some_inj.mp hstep]
    exact ⟨h.exact, h.held⟩

/-- A connection to run calls on, with nothing done yet. -/
def idle : Watched := { state := { conn := conn64 } }

/-- A receive puts a CQE and is not counted: a WAIT for a signaled NOOP ends before
the NOOP is executed. -/
theorem receive_undercounts : ∃ x t,
    Machine.run tallied (idle, {})
      [.own (.recv .imm), .own (.call (.noop 1)), .own (.receive .success true 7),
        .wait conn64] = some (x, t) ∧ x.waits.length = 1 ∧
      ∀ w ∈ x.waits, ¬ Done x w ∧ Fires t w :=
  ⟨_, _, rfl, rfl, by decide⟩

/-- `IBV_WAIT_TILL` moves `wait_index`: the next WAIT for one NOOP asks for two CQEs. -/
theorem till_overshoots : ∃ x t,
    Machine.run tallied (idle, {})
      [.own (.call (.noop 1)), .own (.execute .success), .waitOther 1 true, .wait conn64] =
        some (x, t) ∧ x.waits.length = 1 ∧ ∀ w ∈ x.waits, Done x w ∧ ¬ Fires t w :=
  ⟨_, _, rfl, rfl, by decide⟩

end WaitCount

end Rdma
