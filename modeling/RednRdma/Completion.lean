/-
Work completions of one connection (`connection.c`, `verbs.h`).

The state is the connection with what the NIC has executed of its send queue
and the CQEs that wait to be polled.  All a waiter looks at is
`last_send_compl`, the id of the last send completion that was polled.

* `Inv` — every posted request has a number that its id is the residue of; the
  numbers never fall, and `last_send_compl` is the residue of the number last
  polled;
* `Inv.step` — kept by every action that posts no id out of turn, be it an id
  that was taken long ago or the constant of `IBV_SEND_ASYNC`;
* `Exact.step` — while every call takes its ids from `next_wr_id`, the number of
  a request is its position in the queue.
-/
import RednRdma.PostCall
import RednRdma.Lib.Machine

namespace Rdma

/-- `struct ibv_wc` of a successful completion, with the position on the send
queue it reports on (for a receive: the last one reported before it). -/
structure Wc where
  wrId : UInt64
  recv : Bool
  serial : ℕ
  deriving Repr, DecidableEq

/-- `update_completions`. -/
def updateCompletions (wc : Wc) (ctx : ConnContext) : ConnContext :=
  if wc.recv then ctx else { ctx with lastSendCompl := wc.wrId.toUInt32 }

/-- The loop condition of `spin_till_completion` and `block_till_completion`. -/
def SpinWaits (ctx : ConnContext) (wrId : UInt32) : Prop :=
  cmpCounters wrId (lastComplWrId ctx true) > 0

instance (ctx : ConnContext) (wrId : UInt32) : Decidable (SpinWaits ctx wrId) :=
  inferInstanceAs (Decidable (_ > _))

namespace Completion

/-- A connection, its completion queue, and how far the NIC has come.  `polled`,
`issued` and `number` are not state of the program: they count what happened. -/
structure State where
  conn : Conn
  /-- The requests at the front of the send queue that have been executed. -/
  executed : ℕ := 0
  /-- The CQEs not polled yet, oldest first. -/
  cq : List Wc := []
  /-- The position of the last send completion that was polled. -/
  polled : ℕ := 0
  /-- The ids `next_wr_id` has given out. -/
  issued : ℕ := 0
  /-- The number whose residue is the id of the request at a position. -/
  number : ℕ → ℕ := fun _ => 0

namespace State

/-- The requests that have been posted. -/
def posted (s : State) : ℕ := s.conn.qp.log.length

/-- The requests not known to have completed. -/
def outstanding (s : State) : ℕ := s.posted - s.polled

/-- The number of the request posted last. -/
def newest (s : State) : ℕ := s.number s.posted

/-- How many numbers are in use past the last one polled: of ids given out, and
of requests posted. -/
def ahead (s : State) : ℕ := max s.issued s.newest - s.number s.polled

/-- The last number up to the next one that has residue 99; 0 if there is
none. -/
def sendNumber (s : State) : ℕ := s.issued + 1 - (s.conn.ctx.lastSend + 1 - 99).toNat

/-- The request at position `i` has been executed. -/
def Completed (s : State) (i : ℕ) : Prop := i < s.executed

end State

/-- What can happen next. -/
inductive Act
  /-- A call that is not `IBV_POST_ASYNC`. -/
  | call (call : PostCall)
  /-- `IBV_NEXT_WR_ID`. -/
  | nextWrId
  /-- `IBV_POST_ASYNC`; with each request, which of the ids given out so far it
  carries. -/
  | post (wrs : List (ℕ × WorkRequest))
  /-- The NIC executes the next request; a signaled one puts a CQE. -/
  | execute
  /-- A receive completes. -/
  | receive (wrId : UInt64)
  /-- `poll_cq` takes one CQE. -/
  | poll

/-- The number a call gives the `i`-th request it posts. -/
def numberOf (s : State) : PostCall → ℕ → ℕ
  | .send .., _ => s.sendNumber
  | _, i => s.issued + i

/-- A request with the `n`-th id that was given out. -/
def withId (p : ℕ × WorkRequest) : WorkRequest :=
  { p.2 with wrId := (UInt32.ofNat p.1).toUInt64 }

/-- The state after `conn` was left by a call that took its ids as `numbered`
says. -/
def afterPost (s : State) (conn : Conn) (numbered : Bool) (g : ℕ → ℕ) : State :=
  { s with
    conn
    issued := if numbered then s.issued + (conn.qp.log.length - s.posted) else s.issued
    number := Serial.extend s.number s.posted g }

/-- One request executed, in order. -/
def execute (s : State) : Option State :=
  (s.conn.qp.log[s.executed]?).map fun r =>
    { s with
      executed := s.executed + 1
      cq := if r.data.flags.signaled then
          s.cq ++ [{ wrId := r.data.wrId, recv := false, serial := s.executed + 1 }]
        else s.cq }

/-- One turn of `poll_cq`. -/
def poll (s : State) : Option State :=
  match s.cq with
  | [] => none
  | wc :: cq =>
    some { s with
      cq
      conn := { s.conn with ctx := updateCompletions wc s.conn.ctx }
      polled := if wc.recv then s.polled else wc.serial }

def step (s : State) : Act → Option State
  | .call (.post _) => none
  | .call call =>
    (call.exec s.conn).toOption.map fun r => afterPost s r.2 call.numbered (numberOf s call)
  | .nextWrId =>
    some { s with
      conn := { s.conn with ctx := (nextWrId s.conn.ctx 1).2 }
      issued := s.issued + 1 }
  | .post wrs =>
    if ∀ p ∈ wrs, 0 < p.1 ∧ p.1 ≤ s.issued then
      (ibvPostAsync s.conn (wrs.map withId)).toOption.map fun r =>
        afterPost s r.2 false (fun i => ((wrs.map Prod.fst)[i - 1]?).getD 0)
    else none
  | .execute => execute s
  | .receive wrId =>
    some { s with cq := s.cq ++ [{ wrId, recv := true, serial := s.executed }] }
  | .poll => poll s

/-- A connection nothing has been posted on and no id taken for. -/
structure Initial (s : State) : Prop where
  log : s.conn.qp.log = []
  lastSend : s.conn.ctx.lastSend = 0
  lastSendCompl : s.conn.ctx.lastSendCompl = 0
  executed : s.executed = 0
  cq : s.cq = []
  polled : s.polled = 0
  issued : s.issued = 0
  number : s.number = fun _ => 0

/-- No request is posted with an id older than the one posted before it.
`IBV_SEND_ASYNC` may repeat an id given out, or use the next one. -/
def InTurn (s : State) : Act → Prop
  | .call (.send ..) => 0 < s.sendNumber ∧ s.newest ≤ s.sendNumber
  | .post wrs => (s.newest :: wrs.map Prod.fst).Pairwise (· ≤ ·)
  | _ => True

/-- The call takes its ids from `next_wr_id` and posts at once. -/
def TakesIds : Act → Prop
  | .call call => call.numbered = true
  | .nextWrId | .post _ => False
  | _ => True

/-! ### The invariant -/

/-- The id of each posted request is the residue of its number, and the counter
the residue of the number last polled. -/
structure Inv (s : State) : Prop where
  lastSend : s.conn.ctx.lastSend = UInt32.ofNat s.issued
  lastSendCompl : s.conn.ctx.lastSendCompl = UInt32.ofNat (s.number s.polled)
  ids : ∀ j r, s.conn.qp.log[j]? = some r →
    r.data.wrId = (UInt32.ofNat (s.number (j + 1))).toUInt64
  zero : s.number 0 = 0
  rising : Serial.Rising s.number s.posted
  newest_le : s.newest ≤ s.issued + 1
  executed_le : s.executed ≤ s.posted
  polled_le : s.polled ≤ s.executed
  cq_mem : ∀ wc ∈ s.cq, s.polled ≤ wc.serial ∧ wc.serial ≤ s.executed ∧
    (wc.recv = false → wc.wrId = (UInt32.ofNat (s.number wc.serial)).toUInt64)
  cq_sorted : s.cq.Pairwise fun a b => a.serial ≤ b.serial

/-- The number of a request is its position. -/
structure Exact (s : State) : Prop where
  issued : s.issued = s.posted
  number : ∀ j ≤ s.posted, s.number j = j

theorem Initial.inv {s : State} (h : Initial s) : Inv s := by
  have hp : s.posted = 0 := by simp [State.posted, h.log]
  exact {
    lastSend := by simp [h.lastSend, h.issued]
    lastSendCompl := by simp [h.lastSendCompl, h.number]
    ids := by simp [h.log]
    zero := by simp [h.number]
    rising := by
      intro j hj
      omega
    newest_le := by simp [State.newest, h.number]
    executed_le := by simp [h.executed]
    polled_le := by simp [h.polled]
    cq_mem := by simp [h.cq]
    cq_sorted := by simp [h.cq] }

theorem Initial.exact {s : State} (h : Initial s) : Exact s := by
  have hp : s.posted = 0 := by simp [State.posted, h.log]
  refine ⟨by rw [h.issued, hp], ?_⟩
  intro j hj
  rw [h.number]
  show 0 = j
  omega

/-! ### Posting keeps it -/

@[simp] theorem afterPost_conn (s : State) (conn : Conn) (b : Bool) (g : ℕ → ℕ) :
    (afterPost s conn b g).conn = conn := rfl

@[simp] theorem afterPost_number (s : State) (conn : Conn) (b : Bool) (g : ℕ → ℕ) :
    (afterPost s conn b g).number = Serial.extend s.number s.posted g := rfl

theorem Inv.afterPost {s : State} {conn : Conn} {wrs : List WorkRequest} {numbered : Bool}
    {g : ℕ → ℕ} (h : Inv s) (hqp : s.conn.qp.postList wrs = some conn.qp)
    (hcompl : conn.ctx.lastSendCompl = s.conn.ctx.lastSendCompl)
    (hsend : conn.ctx.lastSend = UInt32.ofNat (afterPost s conn numbered g).issued)
    (hids : ∀ i wr, wrs[i]? = some wr → wr.wrId = (UInt32.ofNat (g (i + 1))).toUInt64)
    (hrising : Serial.Rising (Serial.extend s.number s.posted g) (s.posted + wrs.length))
    (hnewest : Serial.extend s.number s.posted g (s.posted + wrs.length) ≤
      (Completion.afterPost s conn numbered g).issued + 1) :
    Inv (Completion.afterPost s conn numbered g) := by
  obtain ⟨new, hlog, hdata⟩ := DriverQp.postList_log hqp
  have hlen : new.length = wrs.length := by rw [← hdata, List.length_map]
  have hposted : (Completion.afterPost s conn numbered g).posted = s.posted + wrs.length := by
    rw [State.posted, afterPost_conn, hlog, List.length_append, hlen, State.posted]
  -- the old positions keep their numbers
  have hold : ∀ j ≤ s.posted, Serial.extend s.number s.posted g j = s.number j :=
    fun j hj => Serial.extend_of_le hj
  have hpolled : s.polled ≤ s.posted := h.polled_le.trans h.executed_le
  refine ⟨hsend, ?_, ?_, ?_, ?_, ?_, ?_, h.polled_le, ?_, h.cq_sorted⟩
  · rw [afterPost_conn, hcompl, afterPost_number, h.lastSendCompl]
    exact (congrArg UInt32.ofNat (hold _ hpolled)).symm
  · intro j r hj
    rw [afterPost_conn, hlog] at hj
    rw [afterPost_number]
    rcases Nat.lt_or_ge j s.posted with hlt | hge
    · rw [List.getElem?_append_left hlt] at hj
      rw [hold _ (by omega)]
      exact h.ids j r hj
    · obtain ⟨i, rfl⟩ : ∃ i, j = s.posted + i := ⟨j - s.posted, by omega⟩
      rw [List.getElem?_append_right hge, State.posted, Nat.add_sub_cancel_left] at hj
      rw [show s.posted + i + 1 = s.posted + (i + 1) by omega, Serial.extend_add (by omega)]
      refine hids i r.data ?_
      rw [← hdata, List.getElem?_map, hj]
      rfl
  · rw [afterPost_number, hold 0 (by omega)]
    exact h.zero
  · rw [hposted, afterPost_number]
    exact hrising
  · rw [State.newest, hposted, afterPost_number]
    exact hnewest
  · rw [hposted]
    exact h.executed_le.trans (by omega)
  · intro wc hwc
    obtain ⟨hlo, hhi, hid⟩ := h.cq_mem wc hwc
    refine ⟨hlo, hhi, ?_⟩
    intro hrecv
    rw [afterPost_number, hold _ (hhi.trans h.executed_le)]
    exact hid hrecv

/-- Requests numbered from `next_wr_id`. -/
theorem Inv.afterNumbered {s : State} {conn : Conn} {wrs : List WorkRequest} (h : Inv s)
    (hqp : s.conn.qp.postList wrs = some conn.qp)
    (hcompl : conn.ctx.lastSendCompl = s.conn.ctx.lastSendCompl)
    (hnum : NumberedFrom s.conn.ctx.lastSend wrs)
    (hlast : conn.ctx.lastSend = s.conn.ctx.lastSend + UInt32.ofNat wrs.length) :
    Inv (Completion.afterPost s conn true fun i => s.issued + i) := by
  have hgrow : conn.qp.log.length - s.posted = wrs.length := by
    obtain ⟨new, hlog, hdata⟩ := DriverQp.postList_log hqp
    rw [hlog, List.length_append, State.posted, ← hdata, List.length_map]
    omega
  have hissued : (Completion.afterPost s conn true fun i => s.issued + i).issued =
      s.issued + wrs.length := by simp [Completion.afterPost, hgrow]
  refine h.afterPost hqp hcompl ?_ ?_ ?_ ?_
  · rw [hissued, hlast, h.lastSend, UInt32.ofNat_add]
  · intro i wr hi
    rw [hnum i wr hi, h.lastSend, ← UInt32.ofNat_add]
  · exact h.rising.extend (fun _ => h.newest_le) (fun i _ _ => Nat.le_succ _)
  · rw [hissued]
    -- an empty list leaves the last number where it was
    rcases Nat.eq_zero_or_pos wrs.length with h0 | hpos
    · rw [h0, Nat.add_zero, Serial.extend_of_le (le_refl _)]
      exact h.newest_le
    · rw [Serial.extend_add hpos]
      exact Nat.le_succ _

/-- The number `IBV_SEND_ASYNC` uses has residue 99. -/
theorem Inv.sendNumber_residue {s : State} (h : Inv s) (hpos : 0 < s.sendNumber) :
    UInt32.ofNat s.sendNumber = 99 := by
  have hle : (s.conn.ctx.lastSend + 1 - 99).toNat ≤ s.issued + 1 := by
    simp only [State.sendNumber] at hpos
    omega
  rw [State.sendNumber, UInt32.ofNat_sub hle, UInt32.ofNat_add, ← h.lastSend, UInt32.ofNat_toNat]
  grind

/-- `IBV_SEND_ASYNC` in its turn. -/
theorem Inv.afterSend {s : State} {conn : Conn} {ret : Option UInt32} {wr : WorkRequest}
    {src size : UInt64} {imm : UInt32} {l : ℤ} (h : Inv s)
    (hp : Posted true false s.conn ret conn [wr]) (hid : wr.wrId = 99)
    (hpos : 0 < s.sendNumber) (hturn : s.newest ≤ s.sendNumber) :
    Inv (Completion.afterPost s conn false (numberOf s (.send src size imm l))) := by
  have hconst : ∀ i, numberOf s (.send src size imm l) i = s.sendNumber := fun _ => rfl
  refine h.afterPost hp.qp hp.compl ?_ ?_ ?_ ?_
  · rw [hp.unnumbered rfl, h.lastSend]
    rfl
  · intro i wr' hi
    rcases i with _ | i
    · obtain rfl : wr = wr' := by simpa using hi
      rw [hid, hconst, h.sendNumber_residue hpos]
      rfl
    · simp at hi
  · exact h.rising.extend (fun _ => hturn) (fun i _ _ => le_refl _)
  · rw [List.length_singleton, Serial.extend_add one_pos, hconst]
    exact Nat.sub_le _ _

/-- Ids given out earlier, posted in their order. -/
theorem Inv.afterTaken {s : State} {conn : Conn} {ret : Option UInt32}
    {wrs : List (ℕ × WorkRequest)} (h : Inv s)
    (hp : Posted true false s.conn ret conn (wrs.map withId))
    (hgiven : ∀ p ∈ wrs, 0 < p.1 ∧ p.1 ≤ s.issued)
    (hturn : (s.newest :: wrs.map Prod.fst).Pairwise (· ≤ ·)) :
    Inv (Completion.afterPost s conn false fun i => ((wrs.map Prod.fst)[i - 1]?).getD 0) := by
  obtain ⟨hfirst, hsorted⟩ := List.pairwise_cons.mp hturn
  have hnum : ∀ i (hi : i < wrs.length),
      ((wrs.map Prod.fst)[i + 1 - 1]?).getD 0 = wrs[i].1 := by
    intro i hi
    simp [hi]
  refine h.afterPost hp.qp hp.compl ?_ ?_ ?_ ?_
  · rw [hp.unnumbered rfl, h.lastSend]
    rfl
  · intro i wr hi
    rw [List.getElem?_map, Option.map_eq_some_iff] at hi
    obtain ⟨p, hi, rfl⟩ := hi
    obtain ⟨hlt, rfl⟩ := List.getElem?_eq_some_iff.mp hi
    rw [hnum i hlt]
    rfl
  · rw [List.length_map]
    refine h.rising.extend ?_ ?_
    · intro hpos
      rw [hnum 0 hpos]
      exact hfirst _ (List.mem_map_of_mem (List.getElem_mem hpos))
    · intro i hi hlt
      obtain ⟨k, rfl⟩ : ∃ k, i = k + 1 := ⟨i - 1, by omega⟩
      rw [hnum k (by omega), hnum (k + 1) hlt]
      have := List.pairwise_iff_getElem.mp hsorted k (k + 1) (by simp; omega) (by simpa using hlt)
        (by omega)
      simpa using this
  · rw [List.length_map]
    rcases Nat.eq_zero_or_pos wrs.length with h0 | hpos
    · rw [h0, Nat.add_zero, Serial.extend_of_le (le_refl _)]
      exact h.newest_le
    · obtain ⟨k, hk⟩ : ∃ k, wrs.length = k + 1 := ⟨wrs.length - 1, by omega⟩
      rw [hk, Serial.extend_add (by omega), hnum k (by omega)]
      exact (hgiven _ (List.getElem_mem _)).2.trans (Nat.le_succ _)

/-- An id taken and not posted yet. -/
theorem Inv.nextWrId {s : State} (h : Inv s) :
    Inv { s with conn := { s.conn with ctx := bumpSend s.conn.ctx }, issued := s.issued + 1 } := by
  refine ⟨?_, h.lastSendCompl, h.ids, h.zero, h.rising, h.newest_le.trans (Nat.le_succ _),
    h.executed_le, h.polled_le, h.cq_mem, h.cq_sorted⟩
  show s.conn.ctx.lastSend + 1 = _
  rw [h.lastSend, UInt32.ofNat_add]
  rfl

/-! ### The NIC and the poller keep it -/

theorem Inv.execute {s s' : State} (h : Inv s) (hs : Completion.execute s = some s') :
    Inv s' := by
  obtain ⟨r, hr, rfl⟩ := Option.map_eq_some_iff.mp hs
  obtain ⟨hlt, -⟩ := List.getElem?_eq_some_iff.mp hr
  have hold : ∀ wc ∈ s.cq, s.polled ≤ wc.serial ∧ wc.serial ≤ s.executed + 1 ∧
      (wc.recv = false → wc.wrId = (UInt32.ofNat (s.number wc.serial)).toUInt64) := by
    intro wc hwc
    obtain ⟨hlo, hhi, hid⟩ := h.cq_mem wc hwc
    exact ⟨hlo, by omega, hid⟩
  refine ⟨h.lastSend, h.lastSendCompl, h.ids, h.zero, h.rising, h.newest_le, hlt,
    h.polled_le.trans (Nat.le_succ _), ?_, ?_⟩
  · intro wc hwc
    simp only at hwc
    split at hwc
    · rcases List.mem_append.mp hwc with hwc | hwc
      · exact hold wc hwc
      · -- the CQE of the request just executed
        rw [List.mem_singleton.mp hwc]
        exact ⟨h.polled_le.trans (Nat.le_succ _), le_refl _, fun _ => h.ids _ r hr⟩
    · exact hold wc hwc
  · simp only
    split
    · refine List.pairwise_append.mpr ⟨h.cq_sorted, List.pairwise_singleton _ _, ?_⟩
      intro wc hwc wc' hwc'
      rw [List.mem_singleton.mp hwc']
      exact (hold wc hwc).2.1
    · exact h.cq_sorted

theorem Inv.receive {s : State} {wrId : UInt64} (h : Inv s) :
    Inv { s with cq := s.cq ++ [{ wrId, recv := true, serial := s.executed }] } := by
  refine ⟨h.lastSend, h.lastSendCompl, h.ids, h.zero, h.rising, h.newest_le, h.executed_le,
    h.polled_le, ?_, ?_⟩
  · intro wc hwc
    rcases List.mem_append.mp hwc with hwc | hwc
    · exact h.cq_mem wc hwc
    · rw [List.mem_singleton.mp hwc]
      exact ⟨h.polled_le, le_refl _, by simp⟩
  · refine List.pairwise_append.mpr ⟨h.cq_sorted, List.pairwise_singleton _ _, ?_⟩
    intro wc hwc wc' hwc'
    rw [List.mem_singleton.mp hwc']
    exact (h.cq_mem wc hwc).2.1

/-- What polling a CQE does. -/
theorem poll_cases {s s' : State} (hs : poll s = some s') :
    ∃ wc cq, s.cq = wc :: cq ∧
      (wc.recv = true ∧ s' = { s with cq } ∨
        wc.recv = false ∧ s' = { s with
          cq
          conn := { s.conn with ctx :=
            { s.conn.ctx with lastSendCompl := wc.wrId.toUInt32 } }
          polled := wc.serial }) := by
  rw [poll] at hs
  split at hs
  · simp at hs
  · rename_i wc cq hcq
    obtain rfl := Option.some_inj.mp hs
    refine ⟨wc, cq, hcq, ?_⟩
    cases hrecv : wc.recv with
    | true => exact Or.inl ⟨rfl, by simp [updateCompletions, hrecv]⟩
    | false => exact Or.inr ⟨rfl, by simp [updateCompletions, hrecv]⟩

theorem Inv.poll {s s' : State} (h : Inv s) (hs : Completion.poll s = some s') : Inv s' := by
  obtain ⟨wc, cq, hcq, hcase⟩ := poll_cases hs
  have hsorted : (wc :: cq).Pairwise fun a b => a.serial ≤ b.serial := hcq ▸ h.cq_sorted
  obtain ⟨hfirst, hrest⟩ := List.pairwise_cons.mp hsorted
  obtain ⟨hlo, hhi, hid⟩ := h.cq_mem wc (by simp [hcq])
  have hmem : ∀ wc' ∈ cq, wc' ∈ s.cq := by
    intro wc' hwc'
    rw [hcq]
    exact List.mem_cons_of_mem _ hwc'
  rcases hcase with ⟨-, rfl⟩ | ⟨hrecv, rfl⟩
  · exact ⟨h.lastSend, h.lastSendCompl, h.ids, h.zero, h.rising, h.newest_le, h.executed_le,
      h.polled_le, fun wc' hwc' => h.cq_mem wc' (hmem wc' hwc'), hrest⟩
  · refine ⟨h.lastSend, ?_, h.ids, h.zero, h.rising, h.newest_le, h.executed_le, hhi, ?_, hrest⟩
    · show wc.wrId.toUInt32 = _
      rw [hid hrecv, UInt32.toUInt32_toUInt64]
    · intro wc' hwc'
      obtain ⟨-, hhi', hid'⟩ := h.cq_mem wc' (hmem wc' hwc')
      exact ⟨hfirst wc' hwc', hhi', hid'⟩

/-! ### Runs -/

theorem step_call_eq_some {s s' : State} {call : PostCall}
    (hs : step s (.call call) = some s') :
    ∃ ret conn, call.exec s.conn = .ok (ret, conn) ∧ (∀ wrs, call ≠ .post wrs) ∧
      s' = afterPost s conn call.numbered (numberOf s call) := by
  cases call with
  | post wrs => exact absurd hs (by simp [step])
  | _ =>
    obtain ⟨⟨ret, conn⟩, hx, rfl⟩ := Option.map_eq_some_iff.mp hs
    exact ⟨ret, conn, Except.toOption_eq_some.mp hx, by simp, rfl⟩

theorem step_post_eq_some {s s' : State} {wrs : List (ℕ × WorkRequest)}
    (hs : step s (.post wrs) = some s') :
    (∀ p ∈ wrs, 0 < p.1 ∧ p.1 ≤ s.issued) ∧
      ∃ ret conn, ibvPostAsync s.conn (wrs.map withId) = .ok (ret, conn) ∧
        s' = afterPost s conn false (fun i => ((wrs.map Prod.fst)[i - 1]?).getD 0) := by
  simp only [step] at hs
  split at hs
  · rename_i hgiven
    obtain ⟨⟨ret, conn⟩, hx, rfl⟩ := Option.map_eq_some_iff.mp hs
    exact ⟨hgiven, ret, conn, Except.toOption_eq_some.mp hx, rfl⟩
  · exact absurd hs (by simp)

theorem Inv.step {s s' : State} {a : Act} (h : Inv s) (hturn : InTurn s a)
    (hs : Completion.step s a = some s') : Inv s' := by
  cases a with
  | call call =>
    obtain ⟨ret, conn, hx, hne, rfl⟩ := step_call_eq_some hs
    obtain ⟨wrs, hp, hands⟩ := exec_posted hx
    cases call with
    | send src size imm l =>
      obtain ⟨wr, rfl, hid, -⟩ := hands
      exact h.afterSend hp hid hturn.1 hturn.2
    | post wrs' => exact absurd rfl (hne wrs')
    | _ => exact h.afterNumbered hp.qp hp.compl (hp.ids rfl).1 (hp.ids rfl).2
  | nextWrId =>
    obtain rfl := Option.some_inj.mp hs
    exact h.nextWrId
  | post wrs =>
    obtain ⟨hgiven, ret, conn, hx, rfl⟩ := step_post_eq_some hs
    exact h.afterTaken (ibvPostAsync_posted hx) hgiven hturn
  | execute => exact h.execute hs
  | receive wrId =>
    obtain rfl := Option.some_inj.mp hs
    exact h.receive
  | poll => exact h.poll hs

/-- The send queue only grows. -/
theorem log_step {s s' : State} {a : Act} (hs : step s a = some s') :
    s.conn.qp.log <+: s'.conn.qp.log := by
  cases a with
  | call call =>
    obtain ⟨ret, conn, hx, -, rfl⟩ := step_call_eq_some hs
    obtain ⟨wrs, hp, -⟩ := exec_posted hx
    obtain ⟨new, hlog, -⟩ := DriverQp.postList_log hp.qp
    exact ⟨new, hlog.symm⟩
  | nextWrId =>
    obtain rfl := Option.some_inj.mp hs
    exact List.prefix_refl _
  | post wrs =>
    obtain ⟨-, ret, conn, hx, rfl⟩ := step_post_eq_some hs
    obtain ⟨new, hlog, -⟩ := DriverQp.postList_log (ibvPostAsync_posted hx).qp
    exact ⟨new, hlog.symm⟩
  | execute =>
    obtain ⟨r, -, rfl⟩ := Option.map_eq_some_iff.mp hs
    exact List.prefix_refl _
  | receive wrId =>
    obtain rfl := Option.some_inj.mp hs
    exact List.prefix_refl _
  | poll =>
    obtain ⟨wc, cq, -, ⟨-, rfl⟩ | ⟨-, rfl⟩⟩ := poll_cases hs
    · exact List.prefix_refl _
    · exact List.prefix_refl _

theorem log_run {s s' : State} {as : List Act} (hr : Machine.run step s as = some s') :
    s.conn.qp.log <+: s'.conn.qp.log :=
  Machine.run_inv (I := fun t => s.conn.qp.log <+: t.conn.qp.log)
    (fun _ _ _ hi hs => hi.trans (log_step hs)) (List.prefix_refl _) hr

theorem Inv.run {s s' : State} {as : List Act} (h : Inv s)
    (hm : Machine.Meets Completion.step InTurn s as)
    (hr : Machine.run Completion.step s as = some s') : Inv s' :=
  Machine.run_inv_of_meets (fun _ _ _ hi hc hs => hi.step hc hs) h hm hr

end Completion

end Rdma
