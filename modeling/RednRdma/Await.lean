/-
Waiting for a completion.

A wait for an id returns when the id is no longer ahead of `last_send_compl`
in the wrap-around order.

* `await_completed` — while ids come from `next_wr_id`, a wait that returns has
  seen its request and everything before it complete, across any number of
  wraps of the id;
* `counter_monotone` — the counter never moves back, as long as requests are
  posted in the order their ids were given out;
* `send_moves_counter_back` — the constant id of `IBV_SEND_ASYNC` breaks the
  order;
* `late_post_moves_counter_back` — and so does an id posted long after it was
  taken.
-/
import RednRdma.Completion

namespace Rdma

namespace Completion

/-! ### Ids from `next_wr_id` -/

theorem TakesIds.inTurn {a : Act} (h : TakesIds a) (s : State) : InTurn s a := by
  cases a with
  | call call =>
    cases call with
    | send src size imm l => exact absurd h (by simp [TakesIds, PostCall.numbered])
    | _ => trivial
  | _ => trivial

theorem numberOf_eq {s : State} {call : PostCall} (h : call.numbered = true) (i : ℕ) :
    numberOf s call i = s.issued + i := by
  cases call with
  | send src size imm l => simp [PostCall.numbered] at h
  | _ => rfl

theorem Exact.step {s s' : State} {a : Act} (h : Exact s) (ha : TakesIds a)
    (hs : Completion.step s a = some s') : Exact s' := by
  cases a with
  | call call =>
    obtain ⟨ret, conn, hx, -, rfl⟩ := step_call_eq_some hs
    have hle : s.posted ≤ conn.qp.log.length := (log_step hs).length_le
    constructor
    · show (if call.numbered then _ else _) = _
      rw [if_pos (show call.numbered = true from ha), h.issued]
      exact Nat.add_sub_of_le hle
    · intro j hj
      rw [afterPost_number]
      rcases Nat.lt_or_ge s.posted j with hnew | hold
      · obtain ⟨i, rfl⟩ : ∃ i, j = s.posted + i := ⟨j - s.posted, by omega⟩
        rw [Serial.extend_add (by omega), numberOf_eq ha, h.issued]
      · rw [Serial.extend_of_le hold, h.number j hold]
  | nextWrId => exact ha.elim
  | post wrs => exact ha.elim
  | execute =>
    obtain ⟨r, -, rfl⟩ := Option.map_eq_some_iff.mp hs
    exact ⟨h.issued, h.number⟩
  | receive wrId =>
    obtain rfl := Option.some_inj.mp hs
    exact ⟨h.issued, h.number⟩
  | poll =>
    obtain ⟨wc, cq, -, ⟨-, rfl⟩ | ⟨-, rfl⟩⟩ := poll_cases hs
    · exact ⟨h.issued, h.number⟩
    · exact ⟨h.issued, h.number⟩

/-- The most requests a wait tolerates past the last polled completion. -/
def awaitWindow : ℕ := 2 ^ 31 - 2

/-- A wait for the id of a posted request that returns has seen it complete. -/
theorem completed_of_not_spinWaits {s : State} (h : Inv s) (he : Exact s)
    (hwin : s.outstanding ≤ awaitWindow) {w : UInt32} {j : ℕ} {r : Ring.Placed WorkRequest}
    (hj : s.conn.qp.log[j]? = some r) (hw : r.data.wrId = w.toUInt64)
    (hret : ¬ SpinWaits s.conn.ctx w) : s.Completed j := by
  obtain ⟨hlt, -⟩ := List.getElem?_eq_some_iff.mp hj
  have hposted : j + 1 ≤ s.posted := hlt
  have hpolled : s.polled ≤ s.posted := h.polled_le.trans h.executed_le
  have hid : w = UInt32.ofNat (j + 1) := by
    have := h.ids j r hj
    rw [hw, he.number _ hposted] at this
    exact UInt32.toUInt64_inj.mp this
  have hcompl : s.conn.ctx.lastSendCompl = UInt32.ofNat s.polled := by
    rw [h.lastSendCompl, he.number _ hpolled]
  -- a number ahead of the last one polled is within the window of `cmp_counters`
  have hle : j + 1 ≤ s.polled := by
    by_contra hgt
    refine hret ?_
    show 0 < cmpCounters w s.conn.ctx.lastSendCompl
    rw [hid, hcompl, cmpCounters_ofNat_pos_iff]
    · omega
    · simp only [State.outstanding, awaitWindow] at hwin
      simp only [counterWindow]
      omega
    · omega
  exact Nat.lt_of_succ_le (hle.trans h.polled_le)

/-- **Await safety.**  A wait that returns for a posted id has seen its request
and all before it complete; so a synchronous wrapper operation returns only
after its whole batch has. -/
theorem await_completed {s₀ s : State} {as : List Act} (h0 : Initial s₀)
    (ha : ∀ a ∈ as, TakesIds a) (hr : Machine.run step s₀ as = some s)
    (hwin : s.outstanding ≤ awaitWindow) :
    (∀ w j r, s.conn.qp.log[j]? = some r → r.data.wrId = w.toUInt64 →
      ¬ SpinWaits s.conn.ctx w → ∀ i ≤ j, s.Completed i) ∧
    (∀ pre post s₁ chain l r op w conn, as = pre ++ .call (.rdma chain l r op) :: post →
      Machine.run step s₀ pre = some s₁ →
      (PostCall.rdma chain l r op).exec s₁.conn = .ok (some w, conn) →
      ¬ SpinWaits s.conn.ctx w → ∀ i < conn.qp.log.length, s.Completed i) := by
  have hmeets : Machine.Meets step (fun _ a => TakesIds a) s₀ as :=
    Machine.meets_of_forall_mem fun a hmem _ => ha a hmem
  obtain ⟨hinv, hexact⟩ : Inv s ∧ Exact s :=
    Machine.run_inv_of_meets (I := fun t => Inv t ∧ Exact t)
      (fun _ _ _ hi hc hs => ⟨hi.1.step (hc.inTurn _) hs, hi.2.step hc hs⟩)
      ⟨h0.inv, h0.exact⟩ hmeets hr
  have hsafe : ∀ w j r, s.conn.qp.log[j]? = some r → r.data.wrId = w.toUInt64 →
      ¬ SpinWaits s.conn.ctx w → ∀ i ≤ j, s.Completed i := by
    intro w j r hj hw hret i hi
    exact Nat.lt_of_le_of_lt hi
      (completed_of_not_spinWaits hinv hexact hwin hj hw hret)
  refine ⟨hsafe, ?_⟩
  rintro pre post s₁ chain l r op w conn rfl hpre hx hret i hi
  obtain ⟨s₁', hpre', hrest⟩ := (Machine.run_append_eq_some step).mp hr
  obtain rfl := Option.some_inj.mp (hpre.symm.trans hpre')
  obtain ⟨s₂, hcall, hpost⟩ := (Machine.run_cons_eq_some step).mp hrest
  -- the id returned is that of the last request of the batch
  obtain ⟨ret', conn', hx', -, rfl⟩ := step_call_eq_some hcall
  obtain ⟨rfl, rfl⟩ := Prod.mk.inj (Except.ok.inj (hx.symm.trans hx'))
  obtain ⟨wrs, hp, -⟩ := exec_posted hx
  obtain ⟨p, hlast, hpw⟩ := hp.last
  obtain ⟨later, hlog⟩ := log_run hpost
  have hin : s.conn.qp.log[conn.qp.log.length - 1]? = some p := by
    rw [← hlog, List.getElem?_append_left]
    · exact hlast
    · exact (List.getElem?_eq_some_iff.mp hlast).1
  have hid := hinv.ids _ p hin
  rw [hid, UInt32.toUInt32_toUInt64] at hpw
  exact hsafe w _ p hin (hid.trans (congrArg _ hpw)) hret i (by omega)

/-- Two messages in one batch, waited for. -/
theorem await_batch : ∃ s : State,
    Machine.run step { conn := conn64 }
      [.call (.rdma [meta8, meta8] 0 0 .send), .execute, .execute, .poll, .poll] = some s ∧
      ∀ i < 2, s.Completed i := by
  have h0 : Initial { conn := conn64 } := ⟨rfl, rfl, rfl, rfl, rfl, rfl, rfl, rfl⟩
  have ha : ∀ a ∈ [Act.call (.rdma [meta8, meta8] 0 0 .send), .execute, .execute, .poll, .poll],
      TakesIds a := by simp [TakesIds, PostCall.numbered]
  refine ⟨_, rfl, ?_⟩
  exact (await_completed h0 ha rfl (by decide)).2 [] _ _ [meta8, meta8] 0 0 .send 2 _
    rfl rfl rfl (by decide)

/-! ### The counter -/

theorem issued_step {s s' : State} {a : Act} (hs : step s a = some s') :
    s.issued ≤ s'.issued := by
  cases a with
  | call call =>
    obtain ⟨ret, conn, -, -, rfl⟩ := step_call_eq_some hs
    show _ ≤ if call.numbered then _ else _
    split
    · exact Nat.le_add_right _ _
    · exact le_refl _
  | nextWrId =>
    obtain rfl := Option.some_inj.mp hs
    exact Nat.le_succ _
  | post wrs =>
    obtain ⟨-, ret, conn, -, rfl⟩ := step_post_eq_some hs
    exact le_refl _
  | execute =>
    obtain ⟨r, -, rfl⟩ := Option.map_eq_some_iff.mp hs
    exact le_refl _
  | receive wrId =>
    obtain rfl := Option.some_inj.mp hs
    exact le_refl _
  | poll =>
    obtain ⟨wc, cq, -, ⟨-, rfl⟩ | ⟨-, rfl⟩⟩ := poll_cases hs
    · exact le_refl _
    · exact le_refl _

/-- The number behind `last_send_compl` never falls. -/
theorem Inv.polled_number_step {s s' : State} {a : Act} (h : Inv s)
    (hs : Completion.step s a = some s') : s.number s.polled ≤ s'.number s'.polled := by
  have hpolled : s.polled ≤ s.posted := h.polled_le.trans h.executed_le
  cases a with
  | call call =>
    obtain ⟨ret, conn, -, -, rfl⟩ := step_call_eq_some hs
    exact (Serial.extend_of_le hpolled).ge
  | nextWrId =>
    obtain rfl := Option.some_inj.mp hs
    exact le_refl _
  | post wrs =>
    obtain ⟨-, ret, conn, -, rfl⟩ := step_post_eq_some hs
    rw [afterPost_number]
    exact (Serial.extend_of_le hpolled).ge
  | execute =>
    obtain ⟨r, -, rfl⟩ := Option.map_eq_some_iff.mp hs
    exact le_refl _
  | receive wrId =>
    obtain rfl := Option.some_inj.mp hs
    exact le_refl _
  | poll =>
    obtain ⟨wc, cq, hcq, ⟨-, rfl⟩ | ⟨-, rfl⟩⟩ := poll_cases hs
    · exact le_refl _
    · obtain ⟨hlo, hhi, -⟩ := h.cq_mem wc (by simp [hcq])
      exact h.rising.mono hlo (hhi.trans h.executed_le)

theorem Inv.polled_number_run {s s' : State} {as : List Act} (h : Inv s)
    (hm : Machine.Meets Completion.step InTurn s as)
    (hr : Machine.run Completion.step s as = some s') :
    Inv s' ∧ s.issued ≤ s'.issued ∧ s.number s.polled ≤ s'.number s'.polled :=
  Machine.run_inv_of_meets
    (I := fun t => Inv t ∧ s.issued ≤ t.issued ∧ s.number s.polled ≤ t.number t.polled)
    (fun _ _ _ ⟨hi, hiss, hnum⟩ hc hs =>
      ⟨hi.step hc hs, hiss.trans (issued_step hs), hnum.trans (hi.polled_number_step hs)⟩)
    ⟨h, le_refl _, le_refl _⟩ hm hr

/-- The number last polled is that of a posted request. -/
theorem Inv.polled_le_newest {s : State} (h : Inv s) : s.number s.polled ≤ s.newest :=
  h.rising.mono (h.polled_le.trans h.executed_le) (le_refl _)

/-- Polling one CQE moves the counter forward, or not at all. -/
theorem Inv.poll_forward {s s' : State} (h : Inv s) (hwin : s.ahead < counterWindow)
    (hs : Completion.poll s = some s') :
    0 ≤ cmpCounters s'.conn.ctx.lastSendCompl s.conn.ctx.lastSendCompl := by
  have h' : Inv s' := h.poll hs
  have hmono := h.polled_number_step (a := .poll) hs
  have htop : s'.number s'.polled ≤ s.newest := by
    have hle := h'.polled_le_newest
    obtain ⟨wc, cq, -, ⟨-, rfl⟩ | ⟨-, rfl⟩⟩ := poll_cases hs
    · exact hle
    · exact hle
  rw [State.ahead] at hwin
  rw [h.lastSendCompl, h'.lastSendCompl]
  exact cmpCounters_ofNat_nonneg hmono (by omega)

/-- A wait that would return keeps returning until the window has passed its
id. -/
theorem Inv.returnable_run {s s' : State} {as : List Act} {m : ℕ} (h : Inv s)
    (hwin : s.ahead < counterWindow) (hm : m ≤ max s.issued s.newest)
    (hret : ¬ SpinWaits s.conn.ctx (UInt32.ofNat m))
    (hmeets : Machine.Meets Completion.step InTurn s as)
    (hr : Machine.run Completion.step s as = some s')
    (hnear : s'.issued - m < counterWindow) : ¬ SpinWaits s'.conn.ctx (UInt32.ofNat m) := by
  obtain ⟨h', hissued, hnum⟩ := h.polled_number_run hmeets hr
  have hnewest := h.newest_le
  have hnewest' := h'.newest_le
  have hpolled := h.polled_le_newest
  have hpolled' := h'.polled_le_newest
  simp only [counterWindow, State.ahead] at hwin hnear
  -- the wait returned because its number had been polled, and it stays polled
  have hle : m ≤ s.number s.polled := by
    by_contra hgt
    refine hret ?_
    show 0 < cmpCounters _ s.conn.ctx.lastSendCompl
    rw [h.lastSendCompl, cmpCounters_ofNat_pos_iff]
    · omega
    · simp only [counterWindow]
      omega
    · omega
  show ¬ 0 < cmpCounters _ s'.conn.ctx.lastSendCompl
  rw [h'.lastSendCompl, cmpCounters_ofNat_pos_iff]
  · omega
  · simp only [counterWindow]
    omega
  · simp only [counterWindow]
    omega

/-- **The counter never moves back** while requests are posted in the order of
their ids: a poll moves it forward in the order of `cmp_counters`, and a wait
that would return for an id that is in use stays returnable. -/
theorem counter_monotone {s₀ s : State} {as : List Act} (h0 : Initial s₀)
    (hm : Machine.Meets step InTurn s₀ as) (hr : Machine.run step s₀ as = some s)
    (hwin : s.ahead < counterWindow) :
    (∀ s', step s .poll = some s' →
      0 ≤ cmpCounters s'.conn.ctx.lastSendCompl s.conn.ctx.lastSendCompl) ∧
    (∀ m ≤ max s.issued s.newest, ¬ SpinWaits s.conn.ctx (UInt32.ofNat m) →
      ∀ bs s', Machine.Meets step InTurn s bs → Machine.run step s bs = some s' →
        s'.issued - m < counterWindow → ¬ SpinWaits s'.conn.ctx (UInt32.ofNat m)) := by
  have h : Inv s := h0.inv.run hm hr
  refine ⟨fun s' hs => h.poll_forward hwin hs, ?_⟩
  intro m hle hret bs s' hmb hrb hnear
  exact h.returnable_run hwin hle hret hmb hrb hnear

/-- One id taken, a signaled no-op posted with the next, executed and polled. -/
theorem counter_monotone_noop : ∃ s : State,
    Machine.run step { conn := conn64 } [.nextWrId, .call (.noop 1), .execute, .poll] = some s ∧
      ∀ bs s', Machine.Meets step InTurn s bs → Machine.run step s bs = some s' →
        s'.issued - 2 < counterWindow → ¬ SpinWaits s'.conn.ctx 2 := by
  have h0 : Initial { conn := conn64 } := ⟨rfl, rfl, rfl, rfl, rfl, rfl, rfl, rfl⟩
  have hm : Machine.Meets step InTurn { conn := conn64 }
      [.nextWrId, .call (.noop 1), .execute, .poll] :=
    ⟨trivial, trivial, trivial, trivial, trivial⟩
  refine ⟨_, rfl, ?_⟩
  exact (counter_monotone h0 hm rfl (by decide)).2 2 (by decide) (by decide)

/-- A no-op with id 1, `IBV_SEND_ASYNC` with id 99, a no-op with id 2, each
completed before the next: the counter goes back from 99 to 2, and the wait for
99 blocks again. -/
theorem send_moves_counter_back : ∃ s s' : State,
    Initial { conn := conn64 } ∧
      Machine.run step { conn := conn64 }
        [.call (.noop 1), .execute, .poll, .call (.send 0x1000 8 0 0), .execute, .poll] = some s ∧
      Machine.run step s [.call (.noop 1), .execute, .poll] = some s' ∧
      s.outstanding = 0 ∧ s'.outstanding = 0 ∧ s'.issued = 2 ∧
      cmpCounters s'.conn.ctx.lastSendCompl s.conn.ctx.lastSendCompl < 0 ∧
      ¬ SpinWaits s.conn.ctx 99 ∧ SpinWaits s'.conn.ctx 99 :=
  ⟨_, _, ⟨rfl, rfl, rfl, rfl, rfl, rfl, rfl, rfl⟩, rfl, rfl, rfl, rfl, rfl,
    by decide, by decide, by decide⟩

/-- Id 1 taken, a no-op with id 2 completed, then a SEND with id 1 posted: the
counter goes back from 2 to 1. -/
theorem late_post_moves_counter_back : ∃ s s' : State,
    Initial { conn := conn64 } ∧
      Machine.run step { conn := conn64 }
        [.nextWrId, .call (.noop 1), .execute, .poll] = some s ∧
      Machine.run step s
        [.post [(1, { opcode := .send, flags := { signaled := true } })], .execute, .poll] =
          some s' ∧
      s.outstanding = 0 ∧ s'.outstanding = 0 ∧ s'.issued = 2 ∧
      cmpCounters s'.conn.ctx.lastSendCompl s.conn.ctx.lastSendCompl < 0 ∧
      ¬ SpinWaits s.conn.ctx 2 ∧ SpinWaits s'.conn.ctx 2 :=
  ⟨_, _, ⟨rfl, rfl, rfl, rfl, rfl, rfl, rfl, rfl⟩, rfl, rfl, rfl, rfl, rfl,
    by decide, by decide, by decide⟩

end Completion

end Rdma
