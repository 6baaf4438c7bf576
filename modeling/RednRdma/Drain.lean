/-
Waiting for everything (`verbs.c`, `connection.c`).

`IBV_AWAIT_PENDING_WORK_COMPLETIONS` waits for the last id given out.  What the
poller can ever see is the id of the last signaled request that succeeded: a request
that is not signaled puts no CQE, and a failed one puts a CQE that
`update_completions` is not called for.

* `Inv` — polling the CQEs that are queued would leave `last_send_compl` at the id
  of the last signaled request that succeeded;
* `drained_wait_iff` — once everything is executed and polled, the wait ends exactly
  when that id is not behind the last one given out;
* `unsignaled_wait_spins`, `failed_wait_spins` — two runs after which it does not.
-/
import RednRdma.Execution
import RednRdma.Lib.Machine

namespace Rdma

namespace Execution

/-- The position after the last signaled request among the first `n`, `0` if none of
them is. -/
def lastSignaled (log : List (Ring.Placed WorkRequest)) : ℕ → ℕ
  | 0 => 0
  | n + 1 => if log[n]?.any (·.data.flags.signaled) then n + 1 else lastSignaled log n

/-- The id of the request before a position. -/
def idBefore (log : List (Ring.Placed WorkRequest)) : ℕ → UInt32
  | 0 => 0
  | n + 1 => (log[n]?.map (·.data.wrId.toUInt32)).getD 0

/-- The value of `last_send_compl` once the CQEs have been polled. -/
def drain (cq : List IbvWc) (w : UInt32) : UInt32 :=
  cq.foldl (fun w wc => if wc.status = .success ∧ wc.recv = false then wc.wrId.toUInt32 else w) w

/-! ### Positions -/

theorem lastSignaled_le (log : List (Ring.Placed WorkRequest)) (n : ℕ) :
    lastSignaled log n ≤ n := by
  induction n with
  | zero => exact le_refl _
  | succ n ih =>
    rw [lastSignaled]
    split
    · exact le_refl _
    · exact ih.trans (Nat.le_succ n)

theorem lastSignaled_append {log new : List (Ring.Placed WorkRequest)} {n : ℕ}
    (h : n ≤ log.length) : lastSignaled (log ++ new) n = lastSignaled log n := by
  induction n with
  | zero => rfl
  | succ n ih => rw [lastSignaled, lastSignaled, List.getElem?_append_left h, ih (by omega)]

theorem idBefore_append {log new : List (Ring.Placed WorkRequest)} {n : ℕ}
    (h : n ≤ log.length) : idBefore (log ++ new) n = idBefore log n := by
  cases n with
  | zero => rfl
  | succ n => rw [idBefore, idBefore, List.getElem?_append_left h]

/-- The last signaled request is the last one, or there is none before it. -/
theorem lastSignaled_eq_self_iff (log : List (Ring.Placed WorkRequest)) (n : ℕ) :
    lastSignaled log n = n ↔ n = 0 ∨ ∃ r, log[n - 1]? = some r ∧ r.data.flags.signaled := by
  cases n with
  | zero => simp [lastSignaled]
  | succ n =>
    have hle := lastSignaled_le log n
    rw [lastSignaled, Nat.add_sub_cancel]
    cases hr : log[n]? with
    | none =>
      simp
      omega
    | some r =>
      by_cases hsig : r.data.flags.signaled
      · simp [hsig]
      · simp [hsig]
        omega

theorem drain_append (cq : List IbvWc) (wc : IbvWc) (w : UInt32) :
    drain (cq ++ [wc]) w =
      if wc.status = .success ∧ wc.recv = false then wc.wrId.toUInt32 else drain cq w := by
  rw [drain, List.foldl_append]
  rfl

/-! ### The invariant -/

/-- What is queued leads `last_send_compl` to the last signaled request that
succeeded. -/
structure Inv (s : State) : Prop where
  succeeded_le : s.succeeded ≤ s.executed
  executed_le : s.executed ≤ s.log.length
  drain : drain s.cq s.conn.ctx.lastSendCompl = idBefore s.log (lastSignaled s.log s.succeeded)

theorem Initial.inv {s : State} (h : Initial s) : Inv s := by
  refine ⟨by rw [h.succeeded, h.executed], by rw [h.executed]; exact Nat.zero_le _, ?_⟩
  rw [h.cq, h.succeeded]
  exact h.lastSendCompl

/-- A step that leaves the NIC and the counter alone, on a queue that has grown. -/
theorem Inv.grow {s s' : State} {new : List (Ring.Placed WorkRequest)} (h : Inv s)
    (hlog : s'.log = s.log ++ new) (hexec : s'.executed = s.executed)
    (hsucc : s'.succeeded = s.succeeded) (hcq : s'.cq = s.cq)
    (hcompl : s'.conn.ctx.lastSendCompl = s.conn.ctx.lastSendCompl) : Inv s' := by
  have hsucceeded : s.succeeded ≤ s.log.length := h.succeeded_le.trans h.executed_le
  refine ⟨by rw [hexec, hsucc]; exact h.succeeded_le, ?_, ?_⟩
  · rw [hexec, hlog, List.length_append]
    exact h.executed_le.trans (Nat.le_add_right _ _)
  · rw [hcq, hcompl, h.drain, hlog, hsucc, lastSignaled_append hsucceeded,
      idBefore_append ((lastSignaled_le _ _).trans hsucceeded)]

theorem Inv.execute {s s' : State} {status : WcStatus} (h : Inv s)
    (hs : Execution.step s (.execute status) = some s') : Inv s' := by
  obtain ⟨r, hr, ⟨rfl, heq, rfl⟩ | ⟨rfl, rfl⟩⟩ := step_execute_cases hs
  · obtain ⟨hlt, -⟩ := List.getElem?_eq_some_iff.mp hr
    refine ⟨Nat.succ_le_succ h.succeeded_le, hlt, ?_⟩
    show Execution.drain (if _ then _ else _) _ =
      idBefore s.log (lastSignaled s.log (s.succeeded + 1))
    rw [lastSignaled, heq, hr]
    by_cases hsig : r.data.flags.signaled = true
    · -- its CQE is the last one queued
      rw [if_pos hsig, drain_append, if_pos ⟨rfl, rfl⟩, if_pos (by simp [hsig]), idBefore, hr]
      rfl
    · rw [if_neg hsig, if_neg (by simp [hsig]), h.drain, heq]
  · obtain ⟨hlt, -⟩ := List.getElem?_eq_some_iff.mp hr
    refine ⟨h.succeeded_le.trans (Nat.le_succ _), hlt, ?_⟩
    show Execution.drain (s.cq ++ [_]) _ = _
    rw [drain_append, if_neg (by simp [sendCqe])]
    exact h.drain

theorem Inv.poll {s s' : State} (h : Inv s) (hs : Execution.step s .poll = some s') :
    Inv s' := by
  obtain ⟨wc, cq, ctx, msg, hcq, hpoll, rfl⟩ := step_poll_eq_some hs
  have hdrain : Execution.drain cq (if wc.status = .success ∧ wc.recv = false then
      wc.wrId.toUInt32 else s.conn.ctx.lastSendCompl) =
        idBefore s.log (lastSignaled s.log s.succeeded) := by
    rw [← h.drain, hcq]
    rfl
  refine ⟨h.succeeded_le, h.executed_le, ?_⟩
  show Execution.drain cq ctx.lastSendCompl = idBefore s.log (lastSignaled s.log s.succeeded)
  rcases pollCq_eq_ok hpoll with ⟨hst, rfl, -⟩ | ⟨hst, hsend, rfl, -⟩ | ⟨-, hrecv, -, rfl, -⟩
  · rwa [if_neg (by simp [hst])] at hdrain
  · rwa [if_pos ⟨hst, hsend⟩] at hdrain
  · rwa [if_neg (by simp [hrecv])] at hdrain

theorem Inv.step {s s' : State} {a : Act} (h : Inv s) (hs : Execution.step s a = some s') :
    Inv s' := by
  cases a with
  | call call =>
    obtain ⟨ret, conn, wrs, -, he, rfl⟩ := step_call_eq_some hs
    obtain ⟨new, hlog, -⟩ := he.log
    exact h.grow hlog rfl rfl rfl he.moved.lastSendCompl
  | nextWrId =>
    obtain rfl := Option.some_inj.mp hs
    exact h.grow (List.append_nil _).symm rfl rfl rfl rfl
  | acquire user =>
    obtain ⟨-, rfl⟩ := step_acquire_eq_some hs
    exact h.grow (List.append_nil _).symm rfl rfl rfl rfl
  | recv call =>
    obtain ⟨r, rfl⟩ := step_recv_eq_some hs
    exact h.grow (List.append_nil _).symm rfl rfl rfl rfl
  | execute status => exact h.execute hs
  | receive status withImm immData =>
    obtain ⟨r, recvq, wc, -, hrecv, rfl⟩ := step_receive_eq_some hs
    refine ⟨h.succeeded_le, h.executed_le, ?_⟩
    show Execution.drain (s.cq ++ [wc]) _ = _
    rw [drain_append, if_neg (by simp [hrecv])]
    exact h.drain
  | poll => exact h.poll hs

/-- The wait looks at the id of the last signaled request that succeeded. -/
theorem Inv.spinWaits_iff {s : State} (h : Inv s) (hd : s.Drained) :
    SpinWaits s.conn.ctx s.conn.ctx.lastSend ↔
      0 < cmpCounters s.conn.ctx.lastSend (idBefore s.log (lastSignaled s.log s.succeeded)) := by
  have hcompl := h.drain
  rw [hd.2] at hcompl
  show 0 < cmpCounters _ s.conn.ctx.lastSendCompl ↔ _
  rw [show s.conn.ctx.lastSendCompl = _ from hcompl]

/-! ### Calls that take their ids -/

/-- The act takes an id for exactly the requests it posts. -/
def Act.Numbers : Act → Prop
  | .call c => c.numbered = true
  | .nextWrId => False
  | _ => True

/-- The id of a request is its position. -/
structure Numbered (s : State) : Prop where
  lastSend : s.conn.ctx.lastSend = UInt32.ofNat s.log.length
  ids : NumberedFrom 0 (s.log.map Ring.Placed.data)

theorem Initial.numbered {s : State} (h : Initial s) : Numbered s :=
  ⟨by rw [h.lastSend, h.log]; rfl, by simp [NumberedFrom, h.log]⟩

theorem Numbered.step {s s' : State} {a : Act} (h : Numbered s) (ha : a.Numbers)
    (hs : Execution.step s a = some s') : Numbered s' := by
  cases a with
  | call call =>
    obtain ⟨ret, conn, -, hx, -, rfl⟩ := step_call_eq_some hs
    obtain ⟨wrs, hp, -⟩ := exec_posted hx
    obtain ⟨hnum, hlast⟩ := hp.ids ha
    obtain ⟨new, hlog, hdata⟩ := DriverQp.postList_log hp.qp
    have hlen : new.length = wrs.length := by rw [← hdata, List.length_map]
    refine ⟨?_, ?_⟩
    · show conn.ctx.lastSend = UInt32.ofNat conn.qp.log.length
      rw [hlast, h.lastSend, hlog, List.length_append, hlen, UInt32.ofNat_add]
      rfl
    · show NumberedFrom 0 (conn.qp.log.map Ring.Placed.data)
      rw [hlog, List.map_append, hdata]
      refine h.ids.append ?_
      rw [List.length_map, zero_add, ← h.lastSend]
      exact hnum
  | nextWrId => exact ha.elim
  | acquire user =>
    obtain ⟨-, rfl⟩ := step_acquire_eq_some hs
    exact ⟨h.lastSend, h.ids⟩
  | recv call =>
    obtain ⟨r, rfl⟩ := step_recv_eq_some hs
    exact ⟨h.lastSend, h.ids⟩
  | execute status =>
    obtain ⟨r, -, ⟨-, -, rfl⟩ | ⟨-, rfl⟩⟩ := step_execute_cases hs
    · exact ⟨h.lastSend, h.ids⟩
    · exact ⟨h.lastSend, h.ids⟩
  | receive status withImm immData =>
    obtain ⟨r, recvq, wc, -, -, rfl⟩ := step_receive_eq_some hs
    exact ⟨h.lastSend, h.ids⟩
  | poll =>
    obtain ⟨wc, cq, ctx, msg, -, hpoll, rfl⟩ := step_poll_eq_some hs
    refine ⟨?_, h.ids⟩
    show ctx.lastSend = UInt32.ofNat s.log.length
    rw [← h.lastSend, pollCq_frame hpoll]

theorem Numbered.idBefore {s : State} (h : Numbered s) {n : ℕ} (hn : n ≤ s.log.length) :
    Execution.idBefore s.log n = UInt32.ofNat n := by
  cases n with
  | zero => rfl
  | succ n =>
    obtain ⟨r, hr⟩ : ∃ r, s.log[n]? = some r := ⟨_, List.getElem?_eq_getElem hn⟩
    have hid := h.ids n _ (by rw [List.getElem?_map, hr]; rfl)
    rw [Execution.idBefore, hr, Option.map_some, Option.getD_some, hid, zero_add]
    exact UInt32.toUInt32_toUInt64 _

/-- **Draining ends the pending wait** exactly when the last signaled request that
succeeded carries an id that is not behind the last one given out (0 if there is no
such request).  Where every call takes its ids, and fewer than `2^31 - 1` requests are
posted, this is when nothing was posted, or everything succeeded and the last request
is signaled. -/
theorem drained_wait_iff {s₀ s : State} {as : List Act} (h : Initial s₀)
    (hr : Machine.run step s₀ as = some s) (hd : s.Drained) :
    (¬ SpinWaits s.conn.ctx s.conn.ctx.lastSend ↔
      ¬ 0 < cmpCounters s.conn.ctx.lastSend (idBefore s.log (lastSignaled s.log s.succeeded))) ∧
    ((∀ a ∈ as, a.Numbers) → s.log.length < counterWindow →
      (¬ SpinWaits s.conn.ctx s.conn.ctx.lastSend ↔
        s.log = [] ∨ s.succeeded = s.log.length ∧
          ∃ r, s.log.getLast? = some r ∧ r.data.flags.signaled)) := by
  have hinv : Inv s := Machine.run_inv (fun _ _ _ hi hs => hi.step hs) h.inv hr
  refine ⟨not_congr (hinv.spinWaits_iff hd), ?_⟩
  intro hnum hlen
  have hn : Numbered s := Machine.run_inv_of_meets (fun _ _ _ hi hc hs => hi.step hc hs)
    h.numbered (Machine.meets_of_forall_mem fun a ha _ => hnum a ha) hr
  have hsucc : s.succeeded ≤ s.log.length := hinv.succeeded_le.trans hinv.executed_le
  have hle := (lastSignaled_le s.log s.succeeded)
  rw [hinv.spinWaits_iff hd, hn.idBefore (hle.trans hsucc), hn.lastSend,
    cmpCounters_ofNat_pos_iff (by omega) (by omega), Nat.not_lt]
  -- the last signaled request has to be the last one of all
  have hself := lastSignaled_eq_self_iff s.log s.log.length
  rw [← List.getLast?_eq_getElem?, List.length_eq_zero_iff] at hself
  constructor
  · intro hge
    have hall : s.succeeded = s.log.length := by omega
    rw [hall] at hle hge
    rcases hself.mp (by omega) with hnil | hsig
    · exact Or.inl hnil
    · exact Or.inr ⟨hall, hsig⟩
  · rintro (hnil | ⟨hall, hsig⟩)
    · simp [hnil]
    · rw [hall, hself.mpr (Or.inr hsig)]

/-- A connection to run calls on, with nothing done yet. -/
def fresh : State := { conn := conn64 }

theorem fresh_initial : Initial fresh := ⟨rfl, rfl, rfl, rfl, rfl, rfl, rfl, rfl, rfl⟩

/-- One signaled NOOP, executed and polled. -/
theorem drained_wait_after_signaled : ∃ s,
    Machine.run step fresh [.call (.noop 1), .execute .success, .poll] = some s ∧ s.Drained ∧
      ¬ SpinWaits s.conn.ctx s.conn.ctx.lastSend := by
  obtain ⟨s, r, hr, hd, hlen, hlast, hsig, hall⟩ : ∃ s r,
      Machine.run step fresh [.call (.noop 1), .execute .success, .poll] = some s ∧
        s.Drained ∧ s.log.length = 1 ∧ s.log.getLast? = some r ∧
        r.data.flags.signaled = true ∧ s.succeeded = s.log.length :=
    ⟨_, _, rfl, by decide, rfl, rfl, rfl, rfl⟩
  refine ⟨s, hr, hd, ((drained_wait_iff fresh_initial hr hd).2 ?_ ?_).mpr
    (Or.inr ⟨hall, r, hlast, hsig⟩)⟩
  · intro a ha
    simp only [List.mem_cons, List.not_mem_nil, or_false] at ha
    rcases ha with rfl | rfl | rfl
    · exact rfl
    · exact trivial
    · exact trivial
  · rw [hlen]
    decide

/-- A NOOP posted unsignaled and executed leaves the wait spinning with nothing left
to poll. -/
theorem unsignaled_wait_spins : Initial fresh ∧ ∃ s,
    Machine.run step fresh [.call (.noop 0), .execute .success] = some s ∧ s.Drained ∧
      SpinWaits s.conn.ctx s.conn.ctx.lastSend :=
  ⟨fresh_initial, _, rfl, by decide, by decide⟩

/-- So does a signaled NOOP that fails, once its CQE has been polled. -/
theorem failed_wait_spins : ∃ s,
    Machine.run step fresh [.call (.noop 1), .execute .error, .poll] = some s ∧ s.Drained ∧
      SpinWaits s.conn.ctx s.conn.ctx.lastSend :=
  ⟨_, rfl, by decide, by decide⟩

end Execution

end Rdma
