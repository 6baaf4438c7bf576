/-
The guards of `send_rdma_operation` and the broadcasts (`verbs.c`, `connection.c`).

`send_rdma_operation` refuses region ids greater than `MAX_MR`, waits for the regions, and
reads them.  The broadcasts call it on one connection after the other.

* `posting` — a call on the connection of a descriptor;
* `safe_sendRdmaOperation`, `result_sendRdmaOperation` — the batch, with its accesses;
* `result_broadcast_sweep` — the broadcasts, with theirs, are the sweep of `Broadcast`;
* `safe_ibvWrapperOpAsyncAll`, `safe_ibvWrapperOpSyncAll` — whether a broadcast is covered is
  decided on its first connection.
-/
import RednRdma.Bitmap
import RednRdma.Guards

namespace Rdma

namespace Guards

open Traced
open Broadcast (CmId Mode)

variable (t : Broadcast.Table) (sockfd : ℤ)

/-! ### Posts -/

/-- A posting call on a connection; before its queue pair is created and after it is destroyed,
`id->qp` is `NULL`. -/
def post {α : Type} (e : CmId) (call : Conn → Except Stop (α × Conn)) :
    Except Stop (α × CmId) := do
  let qp ← deref e.qp
  let (ret, c) ← call { ctx := e.ctx, qp }
  return (ret, { e with ctx := c.ctx, qp := some c.qp })

/-- A call on the connection of `sockfd`, which becomes what the call leaves of it. -/
def posting {α : Type} (call : CmId → Run (α × CmId)) : Run (α × Broadcast.Table) := do
  let (id, e) ← contextOf t sockfd
  let (ret, e) ← call e
  return (ret, t.put id e)

/-- The descriptor is refused, or is that of a connection of which `P` holds. -/
def Guard (P : CmId → Prop) : Prop :=
  sockfd > MAX_CONNECTIONS ∨ ∃ id e, Holds t sockfd id e ∧ P e

section

variable {t sockfd}

theorem posting_eq_ok {α : Type} {call : CmId → Run (α × CmId)} {r : α × Broadcast.Table}
    (h : (posting t sockfd call).result = .ok r) :
    ∃ id e e', Holds t sockfd id e ∧ (call e).result = .ok (r.1, e') ∧ r.2 = t.put id e' := by
  rw [posting, result_bind] at h
  obtain ⟨⟨id, e⟩, hcontext, hcall⟩ := Except.bind_eq_ok.mp h
  rw [result_bind] at hcall
  obtain ⟨⟨ret, e'⟩, hret, hr⟩ := Except.bind_eq_ok.mp hcall
  obtain rfl := Except.ok.inj hr
  exact ⟨id, e, e', result_contextOf.mp hcontext, hret, rfl⟩

/-- A post leaves its connection in its slot. -/
theorem posting_holds {α : Type} {call : CmId → Run (α × CmId)} {r : α × Broadcast.Table}
    (h : (posting t sockfd call).result = .ok r) : ∃ id e, Holds r.2 sockfd id e := by
  obtain ⟨id, e, e', ⟨i, hi, hbit, hid, -⟩, -, hr⟩ := posting_eq_ok h
  rw [hr]
  exact ⟨id, e', i, hi, hbit, hid, Function.update_self _ _ _⟩

theorem safe_contextOf_iff : (contextOf t sockfd).Safe ↔ Guard t sockfd fun _ => True := by
  simp only [safe_contextOf, Guard, and_true]

theorem safe_contextOf_lift {α : Type} {answer : ℕ × CmId → Run α} (h : ∀ r, (answer r).Safe) :
    (contextOf t sockfd >>= answer).Safe ↔ Guard t sockfd fun _ => True := by
  simp only [safe_contextOf_bind, h, Guard]

theorem safe_posting {α : Type} {call : CmId → Run (α × CmId)} :
    (posting t sockfd call).Safe ↔ Guard t sockfd fun e => (call e).Safe := by
  rw [posting, safe_contextOf_bind]
  refine or_congr_right (exists₂_congr fun id e => and_congr_right fun _ => ?_)
  rw [safe_bind]
  exact and_iff_left fun _ _ => safe_pure _

end

/-- A call that is nothing but its post. -/
def simplePost {α : Type} (call : Conn → Except Stop (α × Conn)) : Run (α × Broadcast.Table) :=
  posting t sockfd fun e => lift (post e call)

/-- A `_SYNC` call: `spin_till_completion(get_connection(sockfd), wr_id)` follows, up to where
it begins to wait. -/
def sync {α : Type} (async : Run (α × Broadcast.Table)) : Run Unit := do
  let (_, t) ← async
  let _ ← contextOf t sockfd

section

variable {t sockfd}

/-- A wait for what was posted accesses nothing new. -/
theorem safe_sync {α : Type} {call : CmId → Run (α × CmId)} :
    (sync sockfd (posting t sockfd call)).Safe ↔ (posting t sockfd call).Safe := by
  rw [sync, safe_bind, and_iff_left]
  rintro ⟨ret, t'⟩ hr
  obtain ⟨id, e, h⟩ := posting_holds hr
  rw [safe_bind_of_ok (result_contextOf.mpr h)]
  exact safe_pure _

/-- A call that accesses nothing of its own. -/
theorem safe_posting_of_safe {α : Type} {call : CmId → Run (α × CmId)}
    (h : ∀ e, (call e).Safe) : (posting t sockfd call).Safe ↔ Guard t sockfd fun _ => True := by
  simp only [safe_posting, h]

theorem safe_simplePost {α : Type} {call : Conn → Except Stop (α × Conn)} :
    (simplePost t sockfd call).Safe ↔ Guard t sockfd fun _ => True :=
  safe_posting_of_safe fun _ => safe_lift _

end

/-- A call in either variant. -/
def inMode {α : Type} (mode : Mode) (sockfd : ℤ) (async : Run (α × Broadcast.Table)) : Run Unit :=
  match mode with
  | .async => discard async
  | .sync => sync sockfd async

section

variable {t sockfd}

theorem safe_inMode {mode : Mode} {α : Type} {call : CmId → Run (α × CmId)} :
    (inMode mode sockfd (posting t sockfd call)).Safe ↔ (posting t sockfd call).Safe := by
  cases mode with
  | async => exact safe_discard
  | sync => exact safe_sync

end

section

variable (chain : List RdmaMeta) (localId remoteId : ℤ) (opcode : WrOpcode)

/-- `!mr_local_ready(ctx, local_id) || (one_sided && !mr_remote_ready(ctx, remote_id))`,
negated. -/
def regionsReady (ctx : ConnContext) : Run Bool := do
  if ← mrLocalReady ctx localId then
    if opOneSided opcode then mrRemoteReady ctx remoteId else return true
  else return false

/-- `send_rdma_operation`. -/
def sendRdmaOperation (e : CmId) : Run (UInt32 × CmId) := do
  lift (dieIf (localId > MAX_MR ∨ remoteId > MAX_MR) "invalid memory regions specified")
  let _ ← waitFor (regionsReady localId remoteId opcode e.ctx)
    (.rcDie "failed to issue sync; no metadata available for remote mr\n") 5
  let _localMr ← readMr e.ctx.localMr localId
  if opOneSided opcode then
    let _remoteMr ← readMr e.ctx.remoteMr remoteId
  lift (e.send chain localId remoteId opcode)

/-- The guard of `send_rdma_operation` refuses an id, or covers both. -/
def RegionsGuard (e : CmId) : Prop :=
  localId > MAX_MR ∨ remoteId > MAX_MR ∨ (0 ≤ localId ∧ localId < MAX_MR) ∧
    (opOneSided opcode = true → readAt e.ctx.localMrReady localId = .ok true →
      0 ≤ remoteId ∧ remoteId < MAX_MR)

section

variable {chain localId remoteId opcode}

theorem mrLocalReady_eq_true {ctx : ConnContext} {mrId : ℤ} :
    Rdma.mrLocalReady ctx mrId = .ok true ↔ readAt ctx.localMrReady mrId = .ok true := by
  rw [Rdma.mrLocalReady]
  split
  · rename_i hgt
    have hfault : readAt ctx.localMrReady mrId = .error .fault := readAt_eq_fault (by omega)
    simp [hfault]
  · exact Iff.rfl

theorem safe_regionsReady {ctx : ConnContext} :
    (regionsReady localId remoteId opcode ctx).Safe ↔ InGuard MAX_MR localId ∧
      (opOneSided opcode = true → readAt ctx.localMrReady localId = .ok true →
        InGuard MAX_MR remoteId) := by
  have hlocal : (mrLocalReady ctx localId).Safe ↔ InGuard MAX_MR localId := safe_mrReady
  have hremote : (mrRemoteReady ctx remoteId).Safe ↔ InGuard MAX_MR remoteId := safe_mrReady
  rw [regionsReady, safe_bind, hlocal, result_mrLocalReady]
  refine and_congr_right fun _ => ?_
  constructor
  · intro h hone hready
    have hsafe := h true (mrLocalReady_eq_true.mpr hready)
    rw [if_pos rfl, if_pos hone] at hsafe
    exact hremote.mp hsafe
  · intro h ready hready
    cases ready with
    | false => exact safe_pure _
    | true =>
      rw [if_pos rfl]
      split
      · exact hremote.mpr (h ‹_› (mrLocalReady_eq_true.mp hready))
      · exact safe_pure _

theorem regionsReady_eq_true {ctx : ConnContext}
    (h : (regionsReady localId remoteId opcode ctx).result = .ok true) :
    (0 ≤ localId ∧ localId < MAX_MR) ∧
      (opOneSided opcode = true → 0 ≤ remoteId ∧ remoteId < MAX_MR) := by
  rw [regionsReady, result_bind] at h
  obtain ⟨ready, hready, h⟩ := Except.bind_eq_ok.mp h
  refine ⟨mrReady_eq_ok hready, ?_⟩
  intro hone
  cases ready with
  | false => exact absurd h (by simp)
  | true =>
    rw [if_pos rfl, if_pos hone] at h
    exact mrReady_eq_ok h

theorem result_regionsReady {ctx : ConnContext} :
    (regionsReady localId remoteId opcode ctx).result = (do
      if ← Rdma.mrLocalReady ctx localId then remoteReady ctx opcode remoteId
      else return false) := by
  rw [regionsReady, result_bind, result_mrLocalReady]
  refine congrArg _ (funext fun ready => ?_)
  cases ready with
  | false => rfl
  | true =>
    rw [remoteReady, if_pos rfl, if_pos rfl]
    split
    · exact result_mrRemoteReady ctx
    · rfl

/-- The call looks at its regions first. -/
theorem exists_send_eq (e : CmId) : ∃ k, e.send chain localId remoteId opcode =
    Batch.regions e.ctx localId remoteId opcode >>= k := by
  rw [CmId.send]
  cases e.qp with
  | none => exact ⟨_, rfl⟩
  | some qp =>
    refine ⟨fun mrs => do
      let wrs ← chain.mapM (rdmaRequest mrs.1 mrs.2 opcode)
      let numbered := takeIds e.ctx wrs
      let last ← deref numbered.1.getLast?
      let c ← LiveConn.submit
        { conn := { ctx := countOps numbered.2 numbered.1.length, qp }, room := e.room }
        "failed to post rdma operation" numbered.1
      return (last.wrId.toUInt32,
        { ctx := c.conn.ctx, qp := some c.conn.qp, room := c.room }), ?_⟩
    simp only [LiveConn.sendRdmaOperation, bind_assoc, pure_bind]

/-- The call, with its accesses, is the call. -/
theorem result_sendRdmaOperation {e : CmId} :
    (sendRdmaOperation chain localId remoteId opcode e).result =
      e.send chain localId remoteId opcode := by
  have hregions : (sendRdmaOperation chain localId remoteId opcode e).result =
      Batch.regions e.ctx localId remoteId opcode >>= fun _ =>
        e.send chain localId remoteId opcode := by
    simp only [sendRdmaOperation, Batch.regions, result_bind, result_waitFor, result_lift,
      bind_assoc, result_regionsReady]
    refine congrArg _ (funext fun _ => ?_)
    cases Rdma.mrLocalReady e.ctx localId with
    | error stop => rfl
    | ok ready =>
      cases ready with
      | false => rfl
      | true =>
        cases remoteReady e.ctx opcode remoteId with
        | error stop => rfl
        | ok ready =>
          cases ready with
          | false => rfl
          | true =>
            refine congrArg (readAt e.ctx.localMr localId >>= ·) (funext fun _ => ?_)
            rw [remoteMrFor]
            split
            · rw [result_bind]
              rfl
            · rfl
  obtain ⟨k, hk⟩ : ∃ k, e.send chain localId remoteId opcode =
      Batch.regions e.ctx localId remoteId opcode >>= k := exists_send_eq e
  rw [hregions, hk]
  cases Batch.regions e.ctx localId remoteId opcode <;> rfl

theorem safe_sendRdmaOperation {e : CmId} :
    (sendRdmaOperation chain localId remoteId opcode e).Safe ↔
      RegionsGuard localId remoteId opcode e := by
  rw [sendRdmaOperation, safe_dieIf_bind, RegionsGuard, ← or_assoc]
  refine or_congr_right' ?_
  intro hle
  obtain ⟨hlocal, hremote⟩ := not_or.mp hle
  rw [safe_bind, safe_waitFor, safe_regionsReady, InGuard.iff_of_le hlocal,
    InGuard.iff_of_le hremote]
  refine and_iff_left ?_
  intro n hn
  rw [result_waitFor] at hn
  obtain ⟨ready, hready, hn⟩ := Except.bind_eq_ok.mp hn
  cases ready with
  | false => exact absurd hn (by simp)
  | true =>
    obtain ⟨hlocal, hremote⟩ := regionsReady_eq_true hready
    rw [safe_bind, safe_readMr]
    refine ⟨hlocal, ?_⟩
    intro _ _
    split
    · rw [safe_bind, safe_readMr]
      exact ⟨hremote ‹_›, fun _ _ => safe_lift _⟩
    · exact safe_lift _

end

def ibvWrapperOpAsync : Run (UInt32 × Broadcast.Table) :=
  posting t sockfd (sendRdmaOperation chain localId remoteId opcode)

end

/-! ### Broadcasts -/

/-- The loop of `find_first_set_bit` and `find_next_set_bit`, from `i`, with `n` turns left. -/
def scan : ℕ → ℤ → Run ℤ
  | 0, _ => return -1
  | n + 1, i => do if ← readConnBitmap t i then return i else scan n (i + 1)

def findFirstSetBit : Run ℤ := scan t MAX_CONNECTIONS 0

def findNextSetBit (idx : ℤ) : Run ℤ := scan t (MAX_CONNECTIONS - (idx + 1)).toNat (idx + 1)

/-- The loop of `find_bitmap_weight`. -/
def weightLoop : ℕ → ℤ → ℕ → Run ℕ
  | 0, _, weight => return weight
  | n + 1, i, weight => do
    let taken ← readConnBitmap t i
    weightLoop n (i + 1) (weight + taken.toNat)

def rcConnectionCount : Run ℕ := weightLoop t MAX_CONNECTIONS 0 0

def findNextConnection (id : Option ℕ) : Run (Option ℕ) := do
  let i ← match id with
    | none => findFirstSetBit t
    | some id => do
      let (_, e) ← context t (some id)
      findNextSetBit t e.ctx.sockfd
  if i ≥ 0 then getConnection t i else return none

section

variable {t}

/-- The loops go over the slots from `j` on. -/
theorem drop_slots {j : ℕ} (hj : j < MAX_CONNECTIONS) :
    (List.finRange MAX_CONNECTIONS).drop j =
      ⟨j, hj⟩ :: (List.finRange MAX_CONNECTIONS).drop (j + 1) := by
  rw [List.drop_eq_getElem_cons (by simpa using hj), List.getElem_finRange]
  rfl

theorem scan_spec {n j : ℕ} (h : j + n = MAX_CONNECTIONS) :
    (scan t n j).Safe ∧ (scan t n j).result =
      .ok ((((List.finRange MAX_CONNECTIONS).drop j).find? t.bitmap).elim (-1) fun i => i.val) := by
  induction n generalizing j with
  | zero =>
    rw [scan, List.drop_of_length_le (by simp; omega)]
    exact ⟨safe_pure _, rfl⟩
  | succ n ih =>
    have hj : j < MAX_CONNECTIONS := by omega
    have hread : (readConnBitmap t j).result = .ok (t.bitmap ⟨j, hj⟩) :=
      readAt_val t.bitmap ⟨j, hj⟩
    have hrest := @ih (j + 1) (by omega)
    rw [Nat.cast_succ] at hrest
    rw [scan, safe_bind_of_ok hread, (bind_of_ok hread).2, drop_slots hj, List.find?_cons]
    cases t.bitmap ⟨j, hj⟩ with
    | true => exact ⟨safe_pure _, by simp⟩
    | false => exact hrest

theorem findNextSetBit_spec {idx : ℤ} (hidx : -1 ≤ idx) (hlt : idx < MAX_CONNECTIONS) :
    (findNextSetBit t idx).Safe ∧ (findNextSetBit t idx).result =
      .ok (Rdma.findNextSetBit idx t.bitmap) := by
  have hstart : ((idx + 1).toNat : ℤ) = idx + 1 := Int.toNat_of_nonneg (by omega)
  have hspec := @scan_spec t (MAX_CONNECTIONS - (idx + 1)).toNat (idx + 1).toNat (by omega)
  rw [hstart] at hspec
  rw [findNextSetBit, Rdma.findNextSetBit, ← Bitmap.find?_indexes t.bitmap hidx]
  refine ⟨hspec.1, hspec.2.trans (congrArg _ ?_)⟩
  rw [Bitmap.indexes]
  cases ((List.finRange MAX_CONNECTIONS).drop (idx + 1).toNat).find? t.bitmap <;> rfl

theorem findFirstSetBit_spec : (findFirstSetBit t).Safe ∧ (findFirstSetBit t).result =
    .ok (Rdma.findFirstSetBit t.bitmap) := by
  rw [findFirstSetBit_eq]
  exact findNextSetBit_spec le_rfl (by omega)

theorem weightLoop_spec {n j weight : ℕ} (h : j + n = MAX_CONNECTIONS) :
    (weightLoop t n j weight).Safe ∧ (weightLoop t n j weight).result =
      .ok (weight + ((List.finRange MAX_CONNECTIONS).drop j).countP t.bitmap) := by
  induction n generalizing j weight with
  | zero =>
    rw [weightLoop, List.drop_of_length_le (by simp; omega)]
    exact ⟨safe_pure _, rfl⟩
  | succ n ih =>
    have hj : j < MAX_CONNECTIONS := by omega
    have hread : (readConnBitmap t j).result = .ok (t.bitmap ⟨j, hj⟩) :=
      readAt_val t.bitmap ⟨j, hj⟩
    obtain ⟨hsafe, hresult⟩ := @ih (j + 1) (weight + (t.bitmap ⟨j, hj⟩).toNat) (by omega)
    rw [weightLoop, safe_bind_of_ok hread, (bind_of_ok hread).2]
    refine ⟨hsafe, hresult.trans ?_⟩
    rw [drop_slots hj, List.countP_cons, Nat.add_assoc, Nat.add_comm (t.bitmap ⟨j, hj⟩).toNat]
    cases t.bitmap ⟨j, hj⟩ <;> rfl

theorem rcConnectionCount_spec : (rcConnectionCount t).Safe ∧
    (rcConnectionCount t).result = .ok (findBitmapWeight t.bitmap) := by
  have hspec := @weightLoop_spec t MAX_CONNECTIONS 0 0 (Nat.zero_add _)
  rw [List.drop_zero, Nat.zero_add] at hspec
  exact hspec

/-- What the iterator does with the bit it has found. -/
theorem connectionOfBit_spec (idx : ℤ) :
    (if Rdma.findNextSetBit idx t.bitmap ≥ 0 then
        getConnection t (Rdma.findNextSetBit idx t.bitmap)
      else return none).Safe ∧
    (if Rdma.findNextSetBit idx t.bitmap ≥ 0 then
        getConnection t (Rdma.findNextSetBit idx t.bitmap)
      else return none).result =
      if Rdma.findNextSetBit idx t.bitmap ≥ 0 then
        Broadcast.getConnection t (Rdma.findNextSetBit idx t.bitmap)
      else return none := by
  rcases findNextSetBit_cases idx t.bitmap with ⟨-, hend⟩ | ⟨i, -, hbit⟩
  · rw [hend]
    exact ⟨safe_pure _, rfl⟩
  · rw [hbit, if_pos (by omega), if_pos (by omega)]
    exact ⟨safe_getConnection.mpr (InGuard.iff_slot.mpr (.inr ⟨i, rfl⟩)), result_getConnection⟩

/-- The iterator stays in the table, from any connection that is in it. -/
theorem findNextConnection_spec (h : Broadcast.Inv t) {cur : Option ℕ}
    (hcur : ∀ id ∈ cur, ∃ e, t.ids id = some e) : (findNextConnection t cur).Safe ∧
      (findNextConnection t cur).result = Broadcast.findNextConnection t cur := by
  cases cur with
  | none =>
    rw [findNextConnection, Broadcast.findNextConnection]
    have hbit := (@findFirstSetBit_spec t).2
    rw [findFirstSetBit_eq] at hbit
    rw [safe_bind_of_ok hbit, (bind_of_ok hbit).2]
    simp only [findFirstSetBit_eq, pure_bind]
    exact connectionOfBit_spec (-1)
  | some id =>
    rw [findNextConnection, Broadcast.findNextConnection]
    obtain ⟨e, he⟩ := hcur id rfl
    obtain ⟨i, hi, -⟩ := h.own id e he
    have hcontext := context_eq_ok he
    have hbit : (findNextSetBit t e.ctx.sockfd).result =
        .ok (Rdma.findNextSetBit e.ctx.sockfd t.bitmap) := by
      rw [hi]
      exact (findNextSetBit_spec (by omega) (by have := i.isLt; omega)).2
    rw [safe_bind_of_ok hcontext, (bind_of_ok hcontext).2]
    have hids : deref (t.ids id) = pure e := deref_eq_ok.mpr he
    simp only [safe_bind_of_ok hbit, (bind_of_ok hbit).2, hids, pure_bind]
    exact connectionOfBit_spec e.ctx.sockfd

end

section

variable (chain : List RdmaMeta) (localId remoteId : ℤ) (opcode : WrOpcode)

/-- The loop of a broadcast: the ids it has posted on, and the table after; `none` without the
fuel.  `room` is the length of the arrays, if there are any. -/
def broadcast (room : Option ℕ) :
    ℕ → Broadcast.Table → Option ℕ → List ℕ → Run (Option (List ℕ × Broadcast.Table))
  | fuel, t, cur, sent =>
    match cur with
    | none => return some (sent, t)
    | some id =>
      match fuel with
      | 0 => return none
      | fuel + 1 => do
        let (_, e) ← context t (some id)
        let (_, e) ← sendRdmaOperation chain localId remoteId opcode e
        -- `wr_ids[i]`, `conn_ids[i]`
        if room.any (· ≤ sent.length) then lift (.error .fault)
        else
          let next ← findNextConnection (t.put id e) (some id)
          broadcast room fuel (t.put id e) next (sent ++ [id])

/-- The waits of a broadcast, up to where each begins. -/
def spinAll (t : Broadcast.Table) : List ℕ → Run Unit
  | [] => return ()
  | id :: ids => do
    let _ ← context t (some id)
    spinAll t ids

/-- A broadcast has a turn for each slot at most. -/
def ibvWrapperOpAsyncAll : Run (Option (List ℕ × Broadcast.Table)) := do
  let first ← findNextConnection t none
  broadcast chain localId remoteId opcode none MAX_CONNECTIONS t first []

def ibvWrapperOpSyncAll : Run (Option (List ℕ × Broadcast.Table)) := do
  -- the lengths of `conn_ids` and of `wr_ids`
  let room ← rcConnectionCount t
  let _ ← rcConnectionCount t
  let first ← findNextConnection t none
  let r ← broadcast chain localId remoteId opcode (some room) MAX_CONNECTIONS t first []
  match r with
  | some (sent, t') =>
    spinAll t' sent
    return r
  | none => return r

end

section

variable {t} {chain : List RdmaMeta} {localId remoteId : ℤ} {opcode : WrOpcode}

/-- What one connection got posted, the guard covers on all. -/
theorem regionsGuard_of_send {e e' : CmId} {r : UInt32 × CmId}
    (h : (sendRdmaOperation chain localId remoteId opcode e).result = .ok r) :
    RegionsGuard localId remoteId opcode e' := by
  rw [result_sendRdmaOperation] at h
  obtain ⟨k, hk⟩ : ∃ k, e.send chain localId remoteId opcode =
      Batch.regions e.ctx localId remoteId opcode >>= k := exists_send_eq e
  rw [hk] at h
  obtain ⟨⟨localMr, remoteMr⟩, hregions, -⟩ := Except.bind_eq_ok.mp h
  obtain ⟨-, hlocal, hremote, -⟩ := Batch.regions_eq_ok_iff.mp hregions
  exact .inr (.inr ⟨readAt_range hlocal, fun hone _ => readAt_range (hremote hone)⟩)

theorem exists_of_head {idx : ℤ} (h : Broadcast.Inv t) :
    ∀ id ∈ (Broadcast.occupied t idx).head?, ∃ e, t.ids id = some e := by
  intro id hid
  cases hids : Broadcast.occupied t idx with
  | nil => simp [hids] at hid
  | cons id' ids =>
    obtain rfl : id' = id := by simpa [hids] using hid
    obtain ⟨e, he, -⟩ := (h.next idx).2 id' ids hids
    exact ⟨e, he⟩

theorem findFirstConnection_eq (h : Broadcast.Inv t) :
    (findNextConnection t none).result = .ok (Broadcast.occupied t (-1)).head? :=
  (findNextConnection_spec h (by simp)).2.trans h.findFirstConnection

theorem findNextConnection_eq (h : Broadcast.Inv t) {id : ℕ} {e : CmId}
    (he : t.ids id = some e) : (findNextConnection t (some id)).result =
      .ok (Broadcast.occupied t e.ctx.sockfd).head? :=
  (findNextConnection_spec h fun _ hid => Option.some_inj.mp hid ▸ ⟨e, he⟩).2.trans
    (h.findNextConnection he)

/-- A post keeps the table in order. -/
theorem put_inv (h : Broadcast.Inv t) {id : ℕ} {e e' : CmId} {wrId : UInt32}
    (he : t.ids id = some e)
    (hret : (sendRdmaOperation chain localId remoteId opcode e).result = .ok (wrId, e')) :
    Broadcast.Inv (t.put id e') :=
  h.put he (CmId.send_sockfd (result_sendRdmaOperation.symm.trans hret))

theorem put_ids {id : ℕ} {e' : CmId} {id' : ℕ} (h : ∃ e, t.ids id' = some e) :
    ∃ e, (t.put id e').ids id' = some e := by
  by_cases heq : id' = id
  · exact ⟨e', heq ▸ Function.update_self _ _ _⟩
  · exact h.imp fun e he => (Function.update_of_ne heq _ _).trans he

/-- What a loop that has ended posted on is still in the table. -/
def PostedThere (x : Run (Option (List ℕ × Broadcast.Table))) : Prop :=
  ∀ ids t', x.result = .ok (some (ids, t')) → ∀ id ∈ ids, ∃ e, t'.ids id = some e

theorem postedThere_pure {sent : List ℕ} (hsent : ∀ id ∈ sent, ∃ e, t.ids id = some e) :
    PostedThere (pure (some (sent, t))) := by
  intro ids t' hr
  obtain ⟨rfl, rfl⟩ := Prod.mk.inj (Option.some_inj.mp (Except.ok.inj hr))
  exact hsent

/-- The loop where every connection is covered, and where it has been when it ends. -/
theorem broadcast_spec {room : Option ℕ} {fuel : ℕ} {cur : Option ℕ} {sent : List ℕ}
    (h : Broadcast.Inv t) (hcur : ∀ id ∈ cur, ∃ e, t.ids id = some e)
    (hsent : ∀ id ∈ sent, ∃ e, t.ids id = some e) :
    ((∀ e, RegionsGuard localId remoteId opcode e) →
      (broadcast chain localId remoteId opcode room fuel t cur sent).Safe) ∧
      PostedThere (broadcast chain localId remoteId opcode room fuel t cur sent) := by
  induction fuel generalizing t cur sent with
  | zero =>
    cases cur with
    | none => exact ⟨fun _ => safe_pure _, postedThere_pure hsent⟩
    | some id => exact ⟨fun _ => safe_pure _, fun _ _ hr => absurd (Except.ok.inj hr) (by simp)⟩
  | succ fuel ih =>
    cases cur with
    | none => exact ⟨fun _ => safe_pure _, postedThere_pure hsent⟩
    | some id =>
      obtain ⟨e, he⟩ := hcur id rfl
      have hcontext := context_eq_ok he
      rw [broadcast, PostedThere, safe_bind_of_ok hcontext, (bind_of_ok hcontext).2]
      cases hret : (sendRdmaOperation chain localId remoteId opcode e).result with
      | error stop =>
        rw [safe_bind_of_error hret, (bind_of_error hret).2]
        exact ⟨fun hguard => safe_sendRdmaOperation.mpr (hguard e),
          fun _ _ hr => absurd hr (by simp)⟩
      | ok r =>
        obtain ⟨wrId, e'⟩ := r
        have hinv := put_inv h he hret
        have hnext := findNextConnection_eq hinv (Function.update_self _ _ _)
        rw [safe_bind_of_ok hret, (bind_of_ok hret).2]
        dsimp only
        split
        · exact ⟨fun _ => safe_lift _, fun _ _ hr => absurd hr (by simp)⟩
        · rw [safe_bind_of_ok hnext, (bind_of_ok hnext).2]
          refine ih hinv (exists_of_head hinv) ?_
          intro id' hid'
          rcases List.mem_append.mp hid' with hid' | hid'
          · exact put_ids (hsent id' hid')
          · rw [List.mem_singleton.mp hid']
            exact put_ids ⟨e, he⟩

/-- What a broadcast comes to, but for the ids of its batches. -/
def ending : Option (List (ℕ × UInt32) × Except Stop Broadcast.Table) →
    Except Stop (Option (List ℕ × Broadcast.Table))
  | none => .ok none
  | some (sent, x) => x.map fun t => some (sent.map Prod.fst, t)

/-- The loop, with its accesses, is the loop. -/
theorem result_broadcast {room : Option ℕ} {fuel : ℕ} {cur : Option ℕ}
    {sent : List (ℕ × UInt32)} (h : Broadcast.Inv t)
    (hcur : ∀ id ∈ cur, ∃ e, t.ids id = some e) :
    (broadcast chain localId remoteId opcode room fuel t cur (sent.map Prod.fst)).result =
      ending (Broadcast.broadcast chain localId remoteId opcode room fuel t cur sent) := by
  induction fuel generalizing t cur sent with
  | zero => cases cur <;> rfl
  | succ fuel ih =>
    cases cur with
    | none => rfl
    | some id =>
      obtain ⟨e, he⟩ := hcur id rfl
      have hcontext := context_eq_ok he
      rw [broadcast, Broadcast.broadcast, (bind_of_ok hcontext).2]
      cases hret : (sendRdmaOperation chain localId remoteId opcode e).result with
      | error stop =>
        have hto : Broadcast.sendTo chain localId remoteId opcode t id = .error stop := by
          rw [result_sendRdmaOperation] at hret
          simp only [Broadcast.sendTo, deref, he, hret, bind, Except.bind]
        rw [(bind_of_error hret).2, hto]
        rfl
      | ok r =>
        obtain ⟨wrId, e'⟩ := r
        have hto : Broadcast.sendTo chain localId remoteId opcode t id =
            .ok (wrId, t.put id e') := by
          rw [result_sendRdmaOperation] at hret
          simp only [Broadcast.sendTo, deref, he, hret, bind, Except.bind, pure, Except.pure]
        have hinv := put_inv h he hret
        have hnext := findNextConnection_eq hinv (Function.update_self _ _ _)
        have hnext' := hinv.findNextConnection (Function.update_self _ _ _)
        rw [(bind_of_ok hret).2, hto]
        simp only [List.length_map]
        split
        · rfl
        · rw [(bind_of_ok hnext).2, hnext']
          have hrest := @ih _ _ (sent ++ [(id, wrId)]) hinv
            (@exists_of_head _ e'.ctx.sockfd hinv)
          rwa [List.map_append] at hrest

/-- The loop, with its accesses, is the sweep, and does not run out of turns. -/
theorem result_broadcast_sweep (h : Broadcast.Inv t) {fuel : ℕ} (hfuel : MAX_CONNECTIONS ≤ fuel) :
    (broadcast chain localId remoteId opcode none fuel t
      (Broadcast.occupied t (-1)).head? []).result = ending (some
        (Broadcast.sweep chain localId remoteId opcode (Broadcast.occupied t (-1)) t [])) := by
  have hloop := @result_broadcast t chain localId remoteId opcode none fuel _ [] h
    (@exists_of_head _ (-1) h)
  have hall : Broadcast.broadcastAll chain localId remoteId opcode .async fuel t = some _ :=
    h.broadcastAll_eq .async hfuel
  unfold Broadcast.broadcastAll at hall
  rw [h.findFirstConnection] at hall
  exact hloop.trans (congrArg ending hall)

/-- Whether a loop is covered is decided on its first connection. -/
theorem safe_broadcast {room : Option ℕ} {fuel : ℕ} {cur : Option ℕ} (h : Broadcast.Inv t)
    (hcur : ∀ id ∈ cur, ∃ e, t.ids id = some e) :
    (broadcast chain localId remoteId opcode room (fuel + 1) t cur []).Safe ↔
      ∀ id ∈ cur, ∀ e, t.ids id = some e → RegionsGuard localId remoteId opcode e := by
  cases cur with
  | none => exact iff_of_true (safe_pure _) (by simp)
  | some id =>
    obtain ⟨e, he⟩ := hcur id rfl
    have hcontext := context_eq_ok he
    constructor
    · intro hsafe id' hid' e' he'
      obtain rfl := Option.some_inj.mp hid'
      obtain rfl := Option.some_inj.mp (he.symm.trans he')
      rw [broadcast, safe_bind_of_ok hcontext, safe_bind] at hsafe
      exact safe_sendRdmaOperation.mp hsafe.1
    · intro hguard
      cases hret : (sendRdmaOperation chain localId remoteId opcode e).result with
      | error stop =>
        rw [broadcast, safe_bind_of_ok hcontext, safe_bind_of_error hret]
        exact safe_sendRdmaOperation.mpr (hguard id rfl e he)
      | ok r => exact (broadcast_spec h hcur (by simp)).1 fun e' => regionsGuard_of_send hret

/-- The connection in the first slot that is taken is covered. -/
def FirstGuard (t : Broadcast.Table) (localId remoteId : ℤ) (opcode : WrOpcode) : Prop :=
  ∀ id ∈ (Broadcast.occupied t (-1)).head?, ∀ e, t.ids id = some e →
    RegionsGuard localId remoteId opcode e

theorem safe_ibvWrapperOpAsyncAll (h : Broadcast.Inv t) :
    (ibvWrapperOpAsyncAll t chain localId remoteId opcode).Safe ↔
      FirstGuard t localId remoteId opcode := by
  rw [ibvWrapperOpAsyncAll, safe_bind_of_ok (findFirstConnection_eq h)]
  exact safe_broadcast h (exists_of_head h)

theorem safe_spinAll {ids : List ℕ} (h : ∀ id ∈ ids, ∃ e, t.ids id = some e) :
    (spinAll t ids).Safe ∧ (spinAll t ids).result = .ok () := by
  induction ids with
  | nil => exact ⟨safe_pure _, rfl⟩
  | cons id ids ih =>
    obtain ⟨e, he⟩ := h id List.mem_cons_self
    have hcontext := context_eq_ok he
    rw [spinAll, safe_bind_of_ok hcontext, (bind_of_ok hcontext).2]
    exact ih fun id' hid' => h id' (List.mem_cons_of_mem _ hid')

theorem safe_ibvWrapperOpSyncAll (h : Broadcast.Inv t) :
    (ibvWrapperOpSyncAll t chain localId remoteId opcode).Safe ↔
      FirstGuard t localId remoteId opcode := by
  rw [ibvWrapperOpSyncAll, safe_bind_of_ok rcConnectionCount_spec.2,
    safe_bind_of_ok rcConnectionCount_spec.2, safe_bind_of_ok (findFirstConnection_eq h),
    safe_bind, safe_broadcast h (exists_of_head h)]
  refine and_iff_left ?_
  intro r hr
  cases r with
  | none => exact safe_pure _
  | some r =>
    obtain ⟨sent, t'⟩ := r
    have hsent := (broadcast_spec h (exists_of_head h) (by simp)).2 sent t' hr
    obtain ⟨hspin, hresult⟩ := safe_spinAll hsent
    show (spinAll t' sent >>= fun _ => _).Safe
    rw [safe_bind_of_ok hresult]
    exact safe_pure _

end

end Guards

end Rdma
