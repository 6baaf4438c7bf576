/-
Waiting for a response by its id (`connection.c`, `verbs.c`).

The responses on a connection carry the 32-bit ids of the requests in turn, and
`update_pending` keeps the last one.  The loops of `spin_till_response` and
`block_till_response` compare it with the id they wait for twice: as plain numbers, and
by their difference modulo `2^32`, within a window of `MAX_PENDING`.

* `responseWaits_ahead`, `responseWaits_behind` — the loop condition when the last id is
  a little ahead of the one waited for, and a little behind;
* `response_wait_iff` — waits begin and end where they should exactly while the ids do
  not wrap between the one waited for and the last one.
-/
import RednRdma.Responses
import RednRdma.Utils

namespace Rdma

namespace Responses

/-- The ids of the responses among the CQEs of a run. -/
def responseIds (wcs : List IbvWc) : List UInt32 :=
  (wcs.filter fun wc => wc.status = .success ∧ wc.recv).map fun wc => ntohl wc.immData

/-- The `i`-th id, counting from `start` modulo `2^32`. -/
def nthId (start : UInt32) (i : ℕ) : UInt32 := start + UInt32.ofNat i

/-- The ids follow one another. -/
def Consecutive (start : UInt32) (ids : List UInt32) : Prop :=
  ∀ i id, ids[i]? = some id → id = nthId start i

/-- After `processed` responses a wait for the `i`-th one goes on if it is yet to come,
with no more than `MAX_PENDING` outstanding, and is over if it has been processed, no
more than `MAX_PENDING` before the last. -/
def WaitsRight (start : UInt32) (i processed : ℕ) (ctx : ConnContext) : Prop :=
  (i < processed → processed ≤ i + 1 + MAX_PENDING.toNat →
    ¬ ResponseWaits ctx (nthId start i)) ∧
  (processed ≤ i → i < processed + MAX_PENDING.toNat → ResponseWaits ctx (nthId start i))

/-- The ids from the `i`-th to the last one processed do not wrap, and the id 0 is not
waited for before any response. -/
def Unwrapped (start : UInt32) (i processed : ℕ) : Prop :=
  (i < processed → processed ≤ i + 1 + MAX_PENDING.toNat →
    (nthId start i).toNat + (processed - 1 - i) < 2 ^ 32) ∧
  (processed = 0 → i < MAX_PENDING.toNat → nthId start i ≠ 0)

instance (start : UInt32) (i processed : ℕ) : Decidable (Unwrapped start i processed) :=
  inferInstanceAs (Decidable (_ ∧ _))

theorem nthId_add (start : UInt32) (i d : ℕ) :
    nthId start (i + d) = nthId start i + UInt32.ofNat d := by
  rw [nthId, nthId, UInt32.ofNat_add, add_assoc]

/-! ### The loop condition -/

/-- The last id is ahead by no more than the window. -/
theorem responseWaits_ahead {ctx : ConnContext} {seqn : UInt32} {d : ℕ}
    (hlast : ctx.lastRcvCompl = seqn + UInt32.ofNat d) (hd : d ≤ MAX_PENDING.toNat) :
    ResponseWaits ctx seqn ↔ 2 ^ 32 ≤ seqn.toNat + d := by
  have hd : d ≤ 500 := hd
  have hlt : seqn.toNat < 2 ^ 32 := seqn.toNat_lt
  have hdiff : ¬ ctx.lastRcvCompl - seqn > MAX_PENDING := by
    rw [hlast, add_sub_cancel_left, gt_iff_lt, UInt32.lt_iff_toNat_lt, UInt32.toNat_ofNat']
    show ¬ 500 < d % 2 ^ 32
    omega
  rw [ResponseWaits, or_iff_left hdiff, hlast, UInt32.lt_iff_toNat_lt, UInt32.toNat_add,
    UInt32.toNat_ofNat']
  omega

/-- The last id is behind by no more than the window. -/
theorem responseWaits_behind {ctx : ConnContext} {seqn : UInt32} {d : ℕ}
    (hlast : seqn = ctx.lastRcvCompl + UInt32.ofNat d) (hpos : 0 < d)
    (hd : d ≤ MAX_PENDING.toNat) : ResponseWaits ctx seqn := by
  have hd : d ≤ 500 := hd
  have hlt : ctx.lastRcvCompl.toNat < 2 ^ 32 := ctx.lastRcvCompl.toNat_lt
  have hseqn : seqn.toNat = (ctx.lastRcvCompl.toNat + d) % 2 ^ 32 := by
    rw [hlast, UInt32.toNat_add, UInt32.toNat_ofNat']
    omega
  rcases Nat.lt_or_ge (ctx.lastRcvCompl.toNat + d) (2 ^ 32) with hno | hwrap
  · refine Or.inl ?_
    rw [UInt32.lt_iff_toNat_lt]
    omega
  · -- the id waited for has wrapped and the last one has not
    refine Or.inr ?_
    rw [gt_iff_lt, UInt32.lt_iff_toNat_lt, UInt32.toNat_sub]
    show 500 < _
    omega

/-- Before any response. -/
theorem responseWaits_zero {ctx : ConnContext} {seqn : UInt32} (hlast : ctx.lastRcvCompl = 0) :
    ResponseWaits ctx seqn ↔ seqn ≠ 0 := by
  rw [ResponseWaits, hlast]
  constructor
  · rintro h rfl
    exact absurd h (by decide)
  · exact fun hne => Or.inl (UInt32.pos_iff_ne_zero.mpr hne)

/-! ### Runs -/

/-- The last response is the one kept. -/
theorem lastRcvCompl_run {s s' : State} {wcs : List IbvWc}
    (hr : Machine.run step s wcs = some s') :
    s'.ctx.lastRcvCompl = (responseIds wcs).getLastD s.ctx.lastRcvCompl := by
  induction wcs generalizing s with
  | nil =>
    obtain rfl := Option.some_inj.mp hr
    rfl
  | cons wc wcs ih =>
    obtain ⟨s₁, hs, hrest⟩ := (Machine.run_cons_eq_some step).mp hr
    rw [ih hrest]
    rcases step_cases hs with ⟨-, hlast, -, -, hsend⟩ | ⟨hst, hrecv, -, hlast, -, -⟩
    · -- no response
      have hskip : responseIds (wc :: wcs) = responseIds wcs := by
        rw [responseIds, List.filter_cons_of_neg, responseIds]
        intro hmem
        obtain ⟨hst, hrecv⟩ := of_decide_eq_true hmem
        exact absurd (hsend hst) (by simp [hrecv])
      rw [hskip, hlast]
    · have htake : responseIds (wc :: wcs) = ntohl wc.immData :: responseIds wcs := by
        rw [responseIds, List.filter_cons_of_pos (by simp [hst, hrecv]), List.map_cons,
          responseIds]
      rw [htake, hlast, List.getLastD_cons]

/-- With consecutive ids, the last one is known by its number. -/
theorem Consecutive.last {start : UInt32} {ids : List UInt32} (h : Consecutive start ids)
    {n : ℕ} (hn : ids.length = n + 1) (a : UInt32) : ids.getLastD a = nthId start n := by
  have hlt : n < ids.length := by omega
  rw [List.getLastD_eq_getLast?, List.getLast?_eq_getElem?, hn, Nat.add_sub_cancel,
    List.getElem?_eq_getElem hlt, Option.getD_some]
  exact h n _ (List.getElem?_eq_getElem hlt)

/-- **Waits for responses across the wrap.**  In every state of every run, and for the id
of every response, the loops wait when they should exactly while the ids have not
wrapped between that response and the last one. -/
theorem response_wait_iff {s s' : State} {wcs : List IbvWc} {start : UInt32} (h : Initial s)
    (hc : Consecutive start (responseIds wcs)) (hr : Machine.run step s wcs = some s') (i : ℕ) :
    WaitsRight start i (responseIds wcs).length s'.ctx ↔
      Unwrapped start i (responseIds wcs).length := by
  have hlast := lastRcvCompl_run hr
  rw [h.lastRcvCompl] at hlast
  rcases hn : (responseIds wcs).length with _ | n
  · rw [List.length_eq_zero_iff] at hn
    rw [hn, List.getLastD_nil] at hlast
    simp [WaitsRight, Unwrapped, responseWaits_zero hlast]
  · rw [hc.last hn] at hlast
    have hahead (hi : i < n + 1) (hwin : n + 1 ≤ i + 1 + MAX_PENDING.toNat) :
        ¬ ResponseWaits s'.ctx (nthId start i) ↔
          (nthId start i).toNat + (n + 1 - 1 - i) < 2 ^ 32 := by
      have hd : s'.ctx.lastRcvCompl = nthId start i + UInt32.ofNat (n - i) := by
        rw [hlast, ← nthId_add]
        congr 1
        omega
      rw [responseWaits_ahead hd (by omega), Nat.add_sub_cancel]
      omega
    constructor
    · rintro ⟨hafter, -⟩
      refine ⟨fun hi hwin => (hahead hi hwin).mp (hafter hi hwin), ?_⟩
      intro h0
      exact absurd h0 (Nat.succ_ne_zero n)
    · rintro ⟨hafter, -⟩
      refine ⟨fun hi hwin => (hahead hi hwin).mpr (hafter hi hwin), ?_⟩
      intro hi hwin
      refine responseWaits_behind (d := i - n) ?_ (by omega) (by omega)
      rw [hlast, ← nthId_add]
      congr 1
      omega

/-- The responses with the given ids, as they arrive. -/
def respond (ids : List UInt32) : List IbvWc :=
  ids.map fun id => { wrId := 0, recv := true, withImm := true, immData := htonl id }

/-- Three responses from 1 on: the second one has been processed. -/
theorem response_wait_second : ∃ s',
    Machine.run step readyConn (respond [1, 2, 3]) = some s' ∧ ¬ ResponseWaits s'.ctx 2 := by
  obtain ⟨s', hr⟩ : ∃ s', Machine.run step readyConn (respond [1, 2, 3]) = some s' := ⟨_, rfl⟩
  have hc : Consecutive 1 (responseIds (respond [1, 2, 3])) := by
    intro i id hi
    rcases i with _ | _ | _ | i
    · exact (Option.some_inj.mp hi).symm
    · exact (Option.some_inj.mp hi).symm
    · exact (Option.some_inj.mp hi).symm
    · exact absurd hi (by simp [responseIds, respond])
  have hwait := (response_wait_iff readyConn_initial hc hr 1).mpr (by decide)
  exact ⟨s', hr, hwait.1 (by decide) (by decide)⟩

/-- The ids wrap: with 0 processed right after `2^32 - 1`, a wait for the latter goes
on. -/
theorem wrapped_response_waits : Initial readyConn ∧
    responseIds (respond [4294967295, 0]) = [nthId 4294967295 0, nthId 4294967295 1] ∧
    ∃ s', Machine.run step readyConn (respond [4294967295, 0]) = some s' ∧
      ResponseWaits s'.ctx 4294967295 ∧ ¬ WaitsRight 4294967295 0 2 s'.ctx :=
  ⟨readyConn_initial, rfl, _, rfl, by decide,
    fun h => h.1 (by decide) (by decide) (by decide)⟩

end Responses

end Rdma
