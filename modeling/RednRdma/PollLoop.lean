/-
The loop of `poll_cq` (`connection.c`) over the driver.

`poll_cq` goes on while `ibv_poll_cq` returns anything but 0, with one `struct ibv_wc` for
all its turns.  That is a completion, or the error for a CQE whose queue pair the driver does
not know: then nothing has been written to the buffer but its flags, and the library handles
what the last turn left there.  Each turn looks up the connection under the number in the
buffer, and dies where there is none.  The CQ of a connection is taken over by
`mlx5dv_init_obj`, so that its CQEs are still there when the queue pair is gone.

* `pollLoop` — the loop, `none` while it has not come to its end;
* `pollLoop_live` — while the queue pair lives, each completion is handled once, in order,
  and none is left;
* `pollLoop_dead` — without it, what the buffer holds is handled once for each CQE, if the
  process does not end at the first.
-/
import RednRdma.DeviceRuns
import RednRdma.Records

namespace Rdma

open Multimap

/-- Where the loop of `poll_cq` is: what the driver has, the buffer, the contexts of the
connections, and the messages passed to the application. -/
structure PollRun where
  cq : Cq
  rsc : Option QueuePair
  wc : WcBuf
  ctxs : ℕ → ConnContext
  msgs : List AppContext := []

/-- What the loop leaves in the library. -/
def PollRun.told (s : PollRun) : (ℕ → ConnContext) × List AppContext := (s.ctxs, s.msgs)

section

variable (L : Lookup UInt32 IdRecord) (tables : Context)

/-- The library handles a completion.  The connection is looked up once or twice, in a table
that stays as it is. -/
def handle (s : (ℕ → ConnContext) × List AppContext) (wc : IbvWc) :
    Except Stop ((ℕ → ConnContext) × List AppContext) := do
  let id ← findConnectionByWc L (some tables) wc
  let (ctx, msg) ← pollCq wc (s.1 id)
  return (Function.update s.1 id ctx, s.2 ++ msg.toList)

/-- `poll_cq`, while no CQE is written. -/
def pollLoop : ℕ → PollRun → Option (Except Stop PollRun)
  | 0, _ => none
  | fuel + 1, s =>
    match ibvPollCq s.cq s.rsc s.wc with
    | (.empty, cq, wc, rsc) => some (.ok { s with cq, wc, rsc })
    | (_, cq, wc, rsc) =>
      match handle L tables s.told wc.read with
      | .error e => some (.error e)
      | .ok (ctxs, msgs) => pollLoop fuel { cq, rsc, wc, ctxs, msgs }

/-- The loop comes to its end, with `told` in the library and, if the process lives, no CQE
left. -/
def Ends (r : Option (Except Stop PollRun))
    (told : Except Stop ((ℕ → ConnContext) × List AppContext)) : Prop :=
  ∃ result, r = some result ∧ result.map PollRun.told = told ∧
    ∀ s ∈ result.toOption, s.cq.getNextCqe = none

variable {L tables} {s : PollRun} {fuel : ℕ}

theorem handle_congr {wc w : IbvWc} (h : Agrees wc w)
    (told : (ℕ → ConnContext) × List AppContext) :
    handle L tables told wc = handle L tables told w := by
  have hfind : findConnectionByWc L (some tables) wc = findConnectionByWc L (some tables) w := by
    rw [findConnectionByWc, findConnectionByWc, h.qpNum]
  rw [handle, handle, hfind]
  simp only [h.pollCq]

/-- A connection that is ready stays so, and takes every completion of its own. -/
theorem foldlM_handle {id : ℕ} {ws : List IbvWc} {told : (ℕ → ConnContext) × List AppContext}
    (hfind : ∀ w ∈ ws, findConnectionByWc L (some tables) w = .ok id)
    (hready : (told.1 id).state = .ready) :
    ∃ told', ws.foldlM (handle L tables) told = .ok told' := by
  induction ws generalizing told with
  | nil => exact ⟨told, rfl⟩
  | cons w ws ih =>
    obtain ⟨ctx, msg, hx, hstate⟩ : ∃ ctx msg, pollCq w (told.1 id) = .ok (ctx, msg) ∧
        ctx.state = .ready := by
      rw [pollCq]
      cases w.status with
      | error => exact ⟨_, _, rfl, hready⟩
      | success =>
        have hstate : (updateCompletions w.report (told.1 id)).state = .ready := by
          rw [updateCompletions]
          split
          · exact hready
          · exact hready
        simp only [onCompletion, if_pos hstate]
        split
        · exact ⟨_, _, rfl, hstate⟩
        · exact ⟨_, _, rfl, hstate⟩
    have hturn : handle L tables told w =
        .ok (Function.update told.1 id ctx, told.2 ++ msg.toList) := by
      rw [handle, hfind w List.mem_cons_self]
      change (pollCq w (told.1 id) >>= _) = _
      rw [hx]
      rfl
    rw [List.foldlM_cons, hturn]
    show ∃ told', ws.foldlM (handle L tables)
      (Function.update told.1 id ctx, told.2 ++ msg.toList) = .ok told'
    refine ih (fun w' hw' => hfind w' (List.mem_cons_of_mem w hw')) ?_
    exact (congrArg ConnContext.state (Function.update_self ..)).trans hstate

theorem pollLoop_empty (hnext : s.cq.getNextCqe = none) :
    Ends (pollLoop L tables (fuel + 1) s) (.ok s.told) := by
  have hpoll : ibvPollCq s.cq s.rsc s.wc = (.empty, s.cq.updateConsIndex, s.wc, s.rsc) := by
    rw [ibvPollCq, mlx5PollOne, hnext]
  refine ⟨.ok { s with cq := s.cq.updateConsIndex }, ?_, rfl, ?_⟩
  · rw [pollLoop, hpoll]
  · rintro s' ⟨rfl⟩
    exact hnext

/-- A turn handles what is in the buffer after it. -/
theorem pollLoop_turn {status : PollStatus} {cq : Cq} {wc : WcBuf} {rsc : Option QueuePair}
    (hpoll : ibvPollCq s.cq s.rsc s.wc = (status, cq, wc, rsc)) (hstatus : status ≠ .empty)
    {w : IbvWc} (hw : handle L tables s.told wc.read = handle L tables s.told w)
    {ws : List IbvWc}
    (hrest : ∀ told : (ℕ → ConnContext) × List AppContext,
      Ends (pollLoop L tables fuel ⟨cq, rsc, wc, told.1, told.2⟩)
        (ws.foldlM (handle L tables) told)) :
    Ends (pollLoop L tables (fuel + 1) s) ((w :: ws).foldlM (handle L tables) s.told) := by
  have hturn : pollLoop L tables (fuel + 1) s =
      match handle L tables s.told wc.read with
      | .error e => some (.error e)
      | .ok (ctxs, msgs) => pollLoop L tables fuel ⟨cq, rsc, wc, ctxs, msgs⟩ := by
    rw [pollLoop, hpoll]
    cases status with
    | empty => exact absurd rfl hstatus
    | ok => rfl
    | pollErr => rfl
  rw [hturn, hw, List.foldlM_cons]
  cases handle L tables s.told w with
  | error e => exact ⟨.error e, rfl, rfl, by simp [Except.toOption]⟩
  | ok told => exact hrest told

end

namespace Device

/-- The driver has a case for the opcode of every send that has succeeded, and every receive
has an immediate. -/
def Known (l : List Cqe64) : Prop :=
  ∀ c ∈ l, c.opcode ≠ MLX5_CQE_RESP_SEND ∧
    (c.opcode = MLX5_CQE_REQ → sendOpcode (c.sopDropQpn >>> 24) ≠ none)

instance (l : List Cqe64) : Decidable (Known l) := inferInstanceAs (Decidable (∀ c ∈ l, _))

variable {L : Lookup UInt32 IdRecord} {tables : Context}

theorem InFlight.pollLoop {held : ℕ → UInt32} {qp : QueuePair} {ring : CqRing.State}
    {executed received : ℕ} {xs : List (Origin × IbvWc)} {retired taken lo : ℕ} {l : List Cqe64}
    (h : InFlight held qp ring executed received xs retired taken lo l) (hknown : Known l)
    {fuel : ℕ} (hfuel : xs.length < fuel) (wc : WcBuf)
    (told : (ℕ → ConnContext) × List AppContext) :
    Ends (Rdma.pollLoop L tables fuel ⟨ring.cq, some qp, wc, told.1, told.2⟩)
      ((xs.map Prod.snd).foldlM (handle L tables) told) := by
  induction xs generalizing qp ring retired taken lo l wc told fuel with
  | nil =>
    obtain ⟨fuel, rfl⟩ := Nat.exists_eq_add_one.mpr hfuel
    obtain rfl : l = [] := by simpa using h.reports
    exact pollLoop_empty (s := ⟨ring.cq, some qp, wc, told.1, told.2⟩) h.holds.holds.getNextCqe
  | cons x xs ih =>
    obtain ⟨fuel, rfl⟩ := Nat.exists_eq_add_one.mpr (Nat.zero_lt_of_lt hfuel)
    obtain ⟨c, l, -, -, rfl⟩ := List.forall₂_cons_right_iff.mp h.reports
    have hlt : xs.length < fuel := by simpa using hfuel
    have hrest : Known l := fun c hc => hknown c (List.mem_cons_of_mem _ hc)
    obtain ⟨hno, hcase⟩ := hknown c List.mem_cons_self
    obtain ⟨o, w⟩ := x
    cases o with
    | send k =>
      obtain ⟨qp', cq, wc', hpolls, hagrees, -, h', -⟩ := h.poll_send wc
      -- a known opcode is written, whatever was in the field
      have hagrees := hagrees fun hreq hnone => absurd hnone (hcase hreq)
      exact pollLoop_turn (s := ⟨ring.cq, some qp, wc, told.1, told.2⟩) hpolls.eq (by simp)
        (handle_congr hagrees _) fun told => ih h' hrest hlt wc' told
    | recv j =>
      obtain ⟨qp', cq, wc', hpolls, hagrees, -, -, h'⟩ := h.poll_recv wc
      -- and so is an immediate that came
      have hagrees := hagrees fun hsend => absurd hsend hno
      exact pollLoop_turn (s := ⟨ring.cq, some qp, wc, told.1, told.2⟩) hpolls.eq (by simp)
        (handle_congr hagrees _) fun told => ih h' hrest hlt wc' told

theorem reports_qpNum {held : ℕ → UInt32} {cqeVersion : Bool} {qp : QueuePair} {l : List Cqe64}
    {xs : List (Origin × IbvWc)}
    (h : List.Forall₂ (fun c x => Reports held cqeVersion qp c x.1 x.2) l xs) :
    ∀ w ∈ xs.map Prod.snd, w.qpNum = qp.qpNum := by
  induction h with
  | nil => simp
  | cons hx _ ih =>
    rw [List.map_cons]
    exact List.forall_mem_cons.mpr ⟨hx.num, ih⟩

/-- **The loop empties the queue**, whatever the buffer holds at the start: it comes to an end,
and the library handles each completion that waits, once and in order, if the process lives.
It does where the connection is in the table and ready. -/
theorem pollLoop_live {d d' : State} (h : Initial d) {as : List Act}
    (hm : Machine.Meets step Fitting d as) (hr : Machine.run step d as = some d')
    (hknown : Known d'.ring.cq.pending) (fuel : ℕ) (hfuel : d'.ring.cq.ncqe < fuel) :
    ∃ xs, Inv (fun _ => 0) d' xs ∧ ∀ (wc : WcBuf) (ctxs : ℕ → ConnContext),
      Ends (Rdma.pollLoop L tables fuel ⟨d'.ring.cq, some d'.qp, wc, ctxs, []⟩)
          ((xs.map Prod.snd).foldlM (handle L tables) (ctxs, [])) ∧
        ∀ r : IdRecord, L.find tables.idByQp d'.ctx.qpNum = some r →
          (ctxs r.id).state = .ready →
          ∃ s, Rdma.pollLoop L tables fuel ⟨d'.ring.cq, some d'.qp, wc, ctxs, []⟩ =
            some (.ok s) := by
  obtain ⟨xs, hinv⟩ := exists_inv h hm hr fun _ => 0
  obtain ⟨retired, lo, l, hfly⟩ := hinv.inFlight
  have hlen : xs.length < fuel := by
    rw [← hfly.reports.length_eq]
    exact lt_of_le_of_lt hfly.holds.holds.queue.length_le hfuel
  rw [hfly.holds.holds.pending] at hknown
  refine ⟨xs, hinv, fun wc ctxs => ?_⟩
  have hends : Ends (Rdma.pollLoop L tables fuel ⟨d'.ring.cq, some d'.qp, wc, ctxs, []⟩)
      ((xs.map Prod.snd).foldlM (handle L tables) (ctxs, [])) :=
    hfly.pollLoop hknown hlen wc (ctxs, [])
  refine ⟨hends, fun r hfind hready => ?_⟩
  -- every completion names the connection, so that each turn finds it ready
  have hfinds : ∀ w ∈ xs.map Prod.snd, findConnectionByWc L (some tables) w = .ok r.id := by
    intro w hw
    have hnum : w.qpNum = d'.ctx.qpNum :=
      (reports_qpNum hfly.reports w hw).trans hinv.qpNum.symm
    exact findConnectionByWc_of_some (hnum ▸ hfind)
  obtain ⟨told, htold⟩ :
      ∃ told, (xs.map Prod.snd).foldlM (handle L tables) (ctxs, []) = .ok told :=
    foldlM_handle hfinds hready
  obtain ⟨result, hresult, hmap, -⟩ := hends
  rw [htold] at hmap
  cases result with
  | error e => exact absurd hmap (by simp [Except.map])
  | ok s => exact ⟨s, hresult⟩

/-- The table with connection 1 under the number 7. -/
def table7 : Context :=
  { idByQp := [(7, { id := 1, qpNum := 7, addr := ⟨0, 0⟩ })] }

/-- The write of `thirdLost` is told. -/
theorem pollLoop_live_write : ∃ d s, Machine.run step device7 thirdLost = some d ∧
    Rdma.pollLoop Lookup.first table7 5 ⟨d.ring.cq, some d.qp, {}, fun _ => d.ctx, []⟩ =
      some (.ok s) ∧
    (s.ctxs 1).lastSendCompl = 1 ∧ s.msgs = [] ∧ s.cq.getNextCqe = none := by
  obtain ⟨d, hr⟩ : ∃ d, Machine.run step device7 thirdLost = some d := ⟨_, rfl⟩
  have hd := Option.some_inj.mp hr
  obtain ⟨xs, -, hloop⟩ := @pollLoop_live Lookup.first table7 device7 _ device7_initial _
    (by decide) hr (hd ▸ by decide) 5 (hd ▸ by decide)
  obtain ⟨-, hlives⟩ := hloop {} fun _ => d.ctx
  obtain ⟨s, hs⟩ := hlives { id := 1, qpNum := 7, addr := ⟨0, 0⟩ } (hd ▸ rfl) (hd ▸ rfl)
  refine ⟨d, s, hr, hs, ?_⟩
  subst hd
  obtain rfl := Except.ok.inj (Option.some_inj.mp hs)
  exact ⟨rfl, rfl, rfl⟩

/-- What a failed poll leaves in the buffer. -/
def stale (wc : WcBuf) : WcBuf := { wc with withImm := false, withInv := false }

/-- A CQE of a queue pair the driver does not know is taken off, for nothing. -/
theorem ibvPollCq_dead {cq : Cq} {c : Cqe64} (hnext : cq.getNextCqe = some c) (wc : WcBuf) :
    ibvPollCq cq none wc =
      (.pollErr, { cq with consIndex := cq.consIndex + 1 : Cq }.updateConsIndex, stale wc,
        none) := by
  have hfound : ∀ v : Bool, findResource v none c = none := by
    intro v
    rw [findResource]
    cases v with
    | true => rfl
    | false => simp
  rw [ibvPollCq, mlx5PollOne, hnext]
  dsimp only
  split
  · rw [hfound]
    rfl
  · rfl

/-- Every turn takes a CQE off and leaves what is in the buffer there. -/
theorem pollLoop_stale {s : CqRing.State} {lo : ℕ} {l : List Cqe64} (h : CqRing.Inv s lo l)
    {fuel : ℕ} (hfuel : l.length < fuel) (wc : WcBuf)
    (told : (ℕ → ConnContext) × List AppContext) :
    Ends (Rdma.pollLoop L tables fuel ⟨s.cq, none, wc, told.1, told.2⟩)
      ((List.replicate l.length (stale wc).read).foldlM (handle L tables) told) := by
  induction l generalizing s lo wc told fuel with
  | nil =>
    obtain ⟨fuel, rfl⟩ := Nat.exists_eq_add_one.mpr hfuel
    exact pollLoop_empty (s := ⟨s.cq, none, wc, told.1, told.2⟩) h.holds.getNextCqe
  | cons c l ih =>
    obtain ⟨fuel, rfl⟩ := Nat.exists_eq_add_one.mpr (Nat.zero_lt_of_lt hfuel)
    obtain ⟨hnext, h'⟩ := h.next s.polled
    -- a stale buffer is left as it is
    exact pollLoop_turn (s := ⟨s.cq, none, wc, told.1, told.2⟩) (ibvPollCq_dead hnext wc)
      (by simp) rfl fun told => ih h' (by simpa using hfuel) (stale wc) told

/-- **Without the queue pair, the buffer comes again**: what it holds is handled once for each
CQE that waits.  Where its number is that of no connection in the table, as that of the
connection itself once `rc_disconnect` has taken it out, the first CQE ends the process. -/
theorem pollLoop_dead {s₀ s : CqRing.State} (h₀ : CqRing.Initial s₀) {as : List CqRing.Act}
    (hr : Machine.run CqRing.step s₀ as = some s) (fuel : ℕ) (hfuel : s.cq.ncqe < fuel)
    (wc : WcBuf) (told : (ℕ → ConnContext) × List AppContext) :
    Ends (Rdma.pollLoop L tables fuel ⟨s.cq, none, wc, told.1, told.2⟩)
        ((List.replicate s.cq.pending.length (stale wc).read).foldlM (handle L tables) told) ∧
      (L.find tables.idByQp wc.qpNum = none → s.cq.pending ≠ [] →
        Rdma.pollLoop L tables fuel ⟨s.cq, none, wc, told.1, told.2⟩ =
          some (.error (.rcDie "hash lookup failed; id doesn't exist"))) := by
  obtain ⟨lo, l, h⟩ := Machine.run_inv (I := fun s => ∃ lo l, CqRing.Inv s lo l)
    (fun _ _ _ => CqRing.exists_inv_step) ⟨0, [], h₀.inv⟩ hr
  have hlen : l.length < fuel := lt_of_le_of_lt h.holds.queue.length_le hfuel
  rw [h.holds.pending]
  have hends : Ends (Rdma.pollLoop L tables fuel ⟨s.cq, none, wc, told.1, told.2⟩)
      ((List.replicate l.length (stale wc).read).foldlM (handle L tables) told) :=
    pollLoop_stale h hlen wc told
  refine ⟨hends, fun hnone hwaits => ?_⟩
  obtain ⟨c, l, rfl⟩ := List.exists_cons_of_ne_nil hwaits
  -- the first turn dies in its lookup, and `Ends` has the loop end as the fold does
  obtain ⟨result, hresult, htold, -⟩ := hends
  have hdies : handle L tables told (stale wc).read =
      .error (.rcDie "hash lookup failed; id doesn't exist") := by
    have hlookup : findConnectionByWc L (some tables) (stale wc).read =
        .error (.rcDie "hash lookup failed; id doesn't exist") :=
      findConnectionByWc_of_none hnone
    rw [handle, hlookup]
    rfl
  rw [List.length_cons, List.replicate_succ, List.foldlM_cons, hdies] at htold
  cases result with
  | error e =>
    obtain rfl := Except.error.inj htold
    exact hresult
  | ok s => exact absurd htold (by simp [Except.map, bind, Except.bind])

/-- Two CQEs are left behind, and the connection is out of the table. -/
theorem pollLoop_dead_ends : ∃ s, Machine.run CqRing.step CqRing.entries2
      [.put CqRing.sent7, .put CqRing.sent7, .initObj, .clean 7] = some s ∧
    Rdma.pollLoop Lookup.first {} 3
        ⟨s.cq, none, { opcode := .recv, immData := 5, qpNum := 7 }, fun _ => {}, []⟩ =
      some (.error (.rcDie "hash lookup failed; id doesn't exist")) := by
  have hr : Machine.run CqRing.step CqRing.entries2
      [.put CqRing.sent7, .put CqRing.sent7, .initObj, .clean 7] = some _ := rfl
  obtain ⟨-, hdies⟩ := @pollLoop_dead Lookup.first {} _ _ CqRing.entries2_initial _ hr
    3 (by decide) { opcode := .recv, immData := 5, qpNum := 7 } (fun _ => {}, [])
  exact ⟨_, hr, hdies rfl (by decide)⟩

end Device

end Rdma
