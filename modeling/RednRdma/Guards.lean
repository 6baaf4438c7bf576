/-
The guards of descriptors and region ids (`connection.c`, `mr.c`).

`get_connection`, `mr_local_ready` and `mr_remote_ready` refuse an index that is greater than
the size of its table, and say that it "must be less".  A free slot is answered with `NULL`,
which most callers follow.

The functions are the ones of the modules before, with the accesses to the tables recorded.

* `Access`, `Legal` — what is accessed, and where that is allowed;
* `safe_getConnection`, `safe_contextOf` — what the guard of a descriptor covers;
* `safe_ask` — the calls that ask whether there is a connection;
* `safe_mrGet` — the getters of regions, which wait for the connection and the region.
-/
import RednRdma.Lib.Traced
import RednRdma.Broadcast
import RednRdma.Execution

namespace Rdma

namespace Guards

open Traced
open Broadcast (CmId Slot)

/-! ### Accesses -/

inductive Access
  /-- `s_conn_bitmap[i]`. -/
  | connBitmap (i : ℤ)
  /-- `s_conn_ids[i]`. -/
  | connIds (i : ℤ)
  /-- Entry `i` of one of the four tables a connection has for its regions. -/
  | mr (i : ℤ)
  /-- `id->context`; whether `id` is a connection. -/
  | connection (there : Bool)
  deriving Repr, DecidableEq

def Legal : Access → Prop
  | .connBitmap i | .connIds i => 0 ≤ i ∧ i < MAX_CONNECTIONS
  | .mr i => 0 ≤ i ∧ i < MAX_MR
  | .connection there => there = true

/-- A call, with its accesses. -/
abbrev Run := Traced Legal Stop.fault

theorem readAt_eq_fault {n : ℕ} {α : Type} {table : Fin n → α} {i : ℤ} (h : ¬ (0 ≤ i ∧ i < n)) :
    readAt table i = .error .fault :=
  dif_neg (by omega)

theorem readAt_val {n : ℕ} {α : Type} (table : Fin n → α) (i : Fin n) :
    readAt table i.val = .ok (table i) :=
  dif_pos ⟨by omega, by simp⟩

theorem readAt_range {n : ℕ} {α : Type} {table : Fin n → α} {i : ℤ} {a : α}
    (h : readAt table i = .ok a) : 0 ≤ i ∧ i < n := by
  by_contra hout
  exact absurd ((readAt_eq_fault hout).symm.trans h) (by simp)

/-- What follows a guard runs where the guard does not refuse. -/
theorem safe_dieIf_bind {α : Type} {p : Prop} [Decidable p] {reason : String} {f : Unit → Run α} :
    (lift (dieIf p reason) >>= f).Safe ↔ p ∨ (f ()).Safe := by
  by_cases hp : p
  · have hdie : (lift (dieIf p reason) : Run Unit).result = .error (.rcDie reason) := by
      rw [result_lift, decide_eq_true hp]
      rfl
    rw [safe_bind_of_error hdie]
    exact iff_of_true (safe_lift _) (.inl hp)
  · have hpass : (lift (dieIf p reason) : Run Unit).result = .ok () := by
      rw [result_lift, decide_eq_false hp]
      rfl
    rw [safe_bind_of_ok hpass, or_iff_right hp]

variable (t : Broadcast.Table)

def readConnBitmap (i : ℤ) : Run Bool := read (.connBitmap i) (readAt t.bitmap i) readAt_eq_fault

def readConnIds (i : ℤ) : Run (Option ℕ) := read (.connIds i) (readAt t.connIds i) readAt_eq_fault

def readMr {α : Type} (table : Fin MAX_MR → α) (i : ℤ) : Run α :=
  read (.mr i) (readAt table i) readAt_eq_fault

/-- The connection an id is of. -/
def find (id : Option ℕ) : Option (ℕ × CmId) := id.bind fun id => (t.ids id).map (Prod.mk id)

/-- `id->context`. -/
def context (id : Option ℕ) : Run (ℕ × CmId) :=
  read (.connection (find t id).isSome) (deref (find t id)) fun h => by
    rw [Option.not_isSome_iff_eq_none.mp h]
    rfl

/-! ### Connections -/

variable (sockfd : ℤ)

def getConnection : Run (Option ℕ) := do
  lift (dieIf (sockfd > MAX_CONNECTIONS) "invalid sockfd; must be less than MAX_CONNECTIONS")
  if ← readConnBitmap t sockfd then readConnIds t sockfd else return none

/-- `get_connection(sockfd)->context`, which most calls begin with. -/
def contextOf : Run (ℕ × CmId) := do
  let id ← getConnection t sockfd
  context t id

/-- The slot of `sockfd` is taken, by connection `id`. -/
def Holds (id : ℕ) (e : CmId) : Prop :=
  ∃ i : Slot, sockfd = i.val ∧ t.bitmap i = true ∧ t.connIds i = some id ∧ t.ids id = some e

/-- What a guard `i > n` is meant for: an index that is neither negative nor `n` itself. -/
def InGuard (n : ℕ) (i : ℤ) : Prop := 0 ≤ i ∧ i ≠ n

theorem InGuard.iff_of_le {n : ℕ} {i : ℤ} (h : ¬ i > n) : InGuard n i ↔ 0 ≤ i ∧ i < n := by
  rw [InGuard]
  omega

variable {t sockfd}

theorem Holds.unique {id id' : ℕ} {e e' : CmId} (h : Holds t sockfd id e)
    (h' : Holds t sockfd id' e') : id = id' ∧ e = e' := by
  obtain ⟨i, hi, -, hid, he⟩ := h
  obtain ⟨j, hj, -, hid', he'⟩ := h'
  obtain rfl : i = j := Fin.ext (by omega)
  obtain rfl := Option.some_inj.mp (hid.symm.trans hid')
  exact ⟨rfl, Option.some_inj.mp (he.symm.trans he')⟩

theorem InGuard.iff_slot :
    InGuard MAX_CONNECTIONS sockfd ↔ sockfd > MAX_CONNECTIONS ∨ ∃ i : Slot, sockfd = i.val := by
  constructor
  · rintro ⟨hpos, hne⟩
    rcases le_or_gt sockfd MAX_CONNECTIONS with hle | hgt
    · exact .inr ⟨⟨sockfd.toNat, by omega⟩, (Int.toNat_of_nonneg hpos).symm⟩
    · exact .inl hgt
  · rintro (hgt | ⟨i, rfl⟩)
    · exact ⟨by omega, by omega⟩
    · exact ⟨by omega, by have := i.isLt; omega⟩

theorem Holds.inGuard {id : ℕ} {e : CmId} (h : Holds t sockfd id e) :
    InGuard MAX_CONNECTIONS sockfd := by
  obtain ⟨i, hi, -⟩ := h
  exact InGuard.iff_slot.mpr (.inr ⟨i, hi⟩)

theorem safe_readConnBitmap {i : ℤ} :
    (readConnBitmap t i).Safe ↔ 0 ≤ i ∧ i < MAX_CONNECTIONS :=
  safe_read

theorem safe_readConnIds {i : ℤ} : (readConnIds t i).Safe ↔ 0 ≤ i ∧ i < MAX_CONNECTIONS :=
  safe_read

theorem safe_readMr {α : Type} {table : Fin MAX_MR → α} {i : ℤ} :
    (readMr table i).Safe ↔ 0 ≤ i ∧ i < MAX_MR :=
  safe_read

theorem safe_getConnection : (getConnection t sockfd).Safe ↔ InGuard MAX_CONNECTIONS sockfd := by
  rw [getConnection, safe_dieIf_bind, safe_bind, safe_readConnBitmap, and_iff_left_of_imp, InGuard]
  · omega
  · intro hin taken _
    cases taken
    · exact safe_pure _
    · exact safe_readConnIds.mpr hin

theorem result_getConnection :
    (getConnection t sockfd).result = Broadcast.getConnection t sockfd := by
  rw [getConnection, Broadcast.getConnection, result_bind]
  refine congrArg _ (funext fun _ => ?_)
  rw [result_bind]
  refine congrArg _ (funext fun taken => ?_)
  cases taken <;> rfl

theorem getConnection_of_gt (h : sockfd > MAX_CONNECTIONS) : (getConnection t sockfd).result =
    .error (.rcDie "invalid sockfd; must be less than MAX_CONNECTIONS") := by
  rw [result_getConnection, Broadcast.getConnection, decide_eq_true h]
  rfl

theorem getConnection_slot (i : Slot) : (getConnection t i.val).result =
    .ok (if t.bitmap i then t.connIds i else none) :=
  result_getConnection.trans (Broadcast.getConnection_slot t i)

theorem getConnection_eq_some {id : ℕ} : (getConnection t sockfd).result = .ok (some id) ↔
    ∃ i : Slot, sockfd = i.val ∧ t.bitmap i = true ∧ t.connIds i = some id := by
  constructor
  · intro h
    rcases InGuard.iff_slot.mp (safe_getConnection.mp (safe_of_result_eq_ok h)) with
      hgt | ⟨i, rfl⟩
    · exact absurd ((getConnection_of_gt hgt).symm.trans h) (by simp)
    · rw [getConnection_slot] at h
      split at h
      · exact ⟨i, rfl, ‹_›, Except.ok.inj h⟩
      · exact absurd h (by simp)
  · rintro ⟨i, rfl, hbit, hid⟩
    rw [getConnection_slot, if_pos hbit, hid]

theorem find_eq_some {id : Option ℕ} {r : ℕ × CmId} :
    find t id = some r ↔ id = some r.1 ∧ t.ids r.1 = some r.2 := by
  obtain ⟨id', e⟩ := r
  cases id with
  | none => simp [find]
  | some id =>
    simp only [find, Option.bind_some, Option.map_eq_some_iff, Prod.mk.injEq, Option.some_inj]
    constructor
    · rintro ⟨e', he', rfl, rfl⟩
      exact ⟨rfl, he'⟩
    · rintro ⟨rfl, he⟩
      exact ⟨e, he, rfl, rfl⟩

theorem safe_context {id : Option ℕ} :
    (context t id).Safe ↔ ∃ r : ℕ × CmId, id = some r.1 ∧ t.ids r.1 = some r.2 := by
  simp only [context, safe_read, Legal, Option.isSome_iff_exists, find_eq_some]

theorem result_context {id : Option ℕ} {r : ℕ × CmId} :
    (context t id).result = .ok r ↔ id = some r.1 ∧ t.ids r.1 = some r.2 := by
  rw [context, result_read, deref_eq_ok, find_eq_some]

theorem context_eq_ok {id : ℕ} {e : CmId} (he : t.ids id = some e) :
    (context t (some id)).result = .ok (id, e) :=
  result_context.mpr ⟨rfl, he⟩

theorem result_contextOf {id : ℕ} {e : CmId} :
    (contextOf t sockfd).result = .ok (id, e) ↔ Holds t sockfd id e := by
  simp only [contextOf, result_bind, Except.bind_eq_ok, result_context]
  constructor
  · rintro ⟨_, hget, rfl, he⟩
    obtain ⟨i, hi, hbit, hid⟩ := getConnection_eq_some.mp hget
    exact ⟨i, hi, hbit, hid, he⟩
  · rintro ⟨i, hi, hbit, hid, he⟩
    exact ⟨some id, getConnection_eq_some.mpr ⟨i, hi, hbit, hid⟩, rfl, he⟩

theorem safe_contextOf :
    (contextOf t sockfd).Safe ↔ sockfd > MAX_CONNECTIONS ∨ ∃ id e, Holds t sockfd id e := by
  rw [contextOf, safe_bind, safe_getConnection]
  constructor
  · rintro ⟨hguard, hsafe⟩
    refine (InGuard.iff_slot.mp hguard).imp_right ?_
    rintro ⟨i, rfl⟩
    obtain ⟨⟨id, e⟩, hid, he⟩ := safe_context.mp (hsafe _ (getConnection_slot i))
    cases hbit : t.bitmap i with
    | false => simp [hbit] at hid
    | true => exact ⟨id, e, i, rfl, hbit, by simpa [hbit] using hid, he⟩
  · rintro (hgt | ⟨id, e, h⟩)
    · refine ⟨InGuard.iff_slot.mpr (.inl hgt), ?_⟩
      intro r hr
      exact absurd ((getConnection_of_gt hgt).symm.trans hr) (by simp)
    · obtain ⟨i, hi, hbit, hid, he⟩ := h
      refine ⟨InGuard.iff_slot.mpr (.inr ⟨i, hi⟩), ?_⟩
      intro r hr
      obtain rfl := Except.ok.inj
        (hr.symm.trans (getConnection_eq_some.mpr ⟨i, hi, hbit, hid⟩))
      exact safe_context.mpr ⟨(id, e), rfl, he⟩

theorem safe_contextOf_bind {α : Type} {f : ℕ × CmId → Run α} :
    (contextOf t sockfd >>= f).Safe ↔
      sockfd > MAX_CONNECTIONS ∨ ∃ id e, Holds t sockfd id e ∧ (f (id, e)).Safe := by
  rw [safe_bind, safe_contextOf]
  constructor
  · rintro ⟨hgt | ⟨id, e, h⟩, hsafe⟩
    · exact .inl hgt
    · exact .inr ⟨id, e, h, hsafe _ (result_contextOf.mpr h)⟩
  · rintro (hgt | ⟨id, e, h, hsafe⟩)
    · refine ⟨.inl hgt, ?_⟩
      intro r hr
      obtain ⟨i, hi, -⟩ := result_contextOf.mp hr
      exact absurd hgt (by have := i.isLt; omega)
    · refine ⟨.inr ⟨id, e, h⟩, ?_⟩
      intro r hr
      obtain ⟨rfl, rfl⟩ := h.unique (result_contextOf.mp hr)
      exact hsafe

variable (t sockfd)

/-- The calls that answer `absent` for a slot that is free, and look at its connection else. -/
def ask {α : Type} (absent : α) (answer : ConnContext → Except Stop α) : Run α := do
  match ← getConnection t sockfd with
  | none => return absent
  | some _ =>
    let id ← readConnIds t sockfd
    let (_, e) ← context t id
    lift (answer e.ctx)

def rcReady : Run Bool := ask t sockfd false fun ctx => .ok (ctx.state = .ready)

def rcActive : Run Bool := ask t sockfd false fun ctx => .ok (Rdma.rcActive ctx)

def rcTerminated : Run Bool := ask t sockfd false fun ctx => .ok (ctx.state = .terminated)

def rcConnectionMeta : Run ℤ := ask t sockfd (-1) fun ctx => .ok ctx.appType

section

variable {t sockfd} {α : Type} {absent : α} {answer : ConnContext → Except Stop α}

theorem ask_of_holds {id : ℕ} {e : CmId} (h : Holds t sockfd id e) :
    (ask t sockfd absent answer).Safe ∧
      (ask t sockfd absent answer).result = answer e.ctx := by
  obtain ⟨i, rfl, hbit, hid, he⟩ := h
  have hget : (getConnection t i.val).result = .ok (some id) :=
    getConnection_eq_some.mpr ⟨i, rfl, hbit, hid⟩
  have hids : (readConnIds t i.val).result = .ok (some id) :=
    (readAt_val t.connIds i).trans (congrArg _ hid)
  have hcontext := context_eq_ok he
  rw [ask]
  constructor
  · rw [safe_bind_of_ok hget, safe_bind_of_ok hids, safe_bind_of_ok hcontext]
    exact safe_lift _
  · rw [(bind_of_ok hget).2, (bind_of_ok hids).2, (bind_of_ok hcontext).2]
    rfl

/-- On a table that is in order, the calls that ask are covered by the guard. -/
theorem safe_ask (h : Broadcast.Inv t) :
    (ask t sockfd absent answer).Safe ↔ InGuard MAX_CONNECTIONS sockfd := by
  rw [ask, safe_bind, safe_getConnection, and_iff_left]
  rintro (_ | id) hid
  · exact safe_pure _
  · obtain ⟨i, rfl, hbit, hconn⟩ := getConnection_eq_some.mp hid
    obtain ⟨id', e, hid', he, -⟩ := h.slot i hbit
    have hsafe : (ask t i.val absent answer).Safe :=
      (ask_of_holds ⟨i, rfl, hbit, hid', he⟩).1
    rw [ask, safe_bind_of_ok hid] at hsafe
    exact hsafe

theorem ask_eq_ok {a : α} (hne : a ≠ absent) : (ask t sockfd absent answer).result = .ok a ↔
    ∃ id e, Holds t sockfd id e ∧ answer e.ctx = .ok a := by
  constructor
  · intro h
    rw [ask, result_bind] at h
    obtain ⟨_ | id, hid, hlook⟩ := Except.bind_eq_ok.mp h
    · exact absurd (Except.ok.inj hlook).symm hne
    · obtain ⟨i, rfl, hbit, -⟩ := getConnection_eq_some.mp hid
      rw [result_bind] at hlook
      obtain ⟨id', hids, hask⟩ := Except.bind_eq_ok.mp hlook
      rw [result_bind] at hask
      obtain ⟨⟨id'', e⟩, hcontext, ha⟩ := Except.bind_eq_ok.mp hask
      obtain ⟨hid', he⟩ := result_context.mp hcontext
      have hconn : t.connIds i = id' := Except.ok.inj ((readAt_val _ i).symm.trans hids)
      exact ⟨id'', e, ⟨i, rfl, hbit, hconn.trans hid', he⟩, ha⟩
  · rintro ⟨id, e, h, ha⟩
    exact (ask_of_holds h).2.trans ha

end

/-! ### Regions -/

/-- `mr_local_ready` and `mr_remote_ready`, each on its own flags. -/
def mrReady (ready : Fin MAX_MR → Bool) (mrId : ℤ) : Run Bool := do
  lift (dieIf (mrId > MAX_MR) "invalid memory region id; must be less than MAX_MR")
  readMr ready mrId

def mrLocalReady (ctx : ConnContext) (mrId : ℤ) : Run Bool := mrReady ctx.localMrReady mrId

def mrRemoteReady (ctx : ConnContext) (mrId : ℤ) : Run Bool := mrReady ctx.remoteMrReady mrId

section

variable {ready : Fin MAX_MR → Bool} {mrId : ℤ}

theorem safe_mrReady : (mrReady ready mrId).Safe ↔ InGuard MAX_MR mrId := by
  rw [mrReady, safe_dieIf_bind, safe_readMr, InGuard]
  omega

theorem mrReady_eq : (mrReady ready mrId).result =
    if mrId > MAX_MR then .error (.rcDie "invalid memory region id; must be less than MAX_MR")
    else readAt ready mrId := by
  rw [mrReady, result_bind, result_lift]
  split
  · rename_i hgt
    rw [decide_eq_true hgt]
    rfl
  · rename_i hle
    rw [decide_eq_false hle]
    rfl

theorem mrReady_eq_ok {b : Bool} (h : (mrReady ready mrId).result = .ok b) :
    0 ≤ mrId ∧ mrId < MAX_MR := by
  have hguard := safe_mrReady.mp (safe_of_result_eq_ok h)
  rw [mrReady_eq] at h
  split at h
  · exact absurd h (by simp)
  · exact ⟨hguard.1, by have := hguard.2; omega⟩

theorem result_mrLocalReady (ctx : ConnContext) :
    (mrLocalReady ctx mrId).result = Rdma.mrLocalReady ctx mrId :=
  mrReady_eq

theorem result_mrRemoteReady (ctx : ConnContext) :
    (mrRemoteReady ctx mrId).result = Rdma.mrRemoteReady ctx mrId :=
  mrReady_eq

end

/-- The getters: they wait for the connection and for the region, ten seconds in all, and read
a field of the region. -/
def mrGet {R α : Type} (side : String) (ready : ConnContext → Fin MAX_MR → Bool)
    (mrs : ConnContext → Fin MAX_MR → Option R) (field : R → α) (mrId : ℤ) : Run α := do
  let timeout ← waitFor (rcActive t sockfd)
    (.rcDie ("failed to get " ++ side ++ " memory address; connection is not active\n")) 10
  let (_, e) ← contextOf t sockfd
  let _ ← waitFor (mrReady (ready e.ctx) mrId)
    (.rcDie ("failed to get " ++ side ++ " memory address; no metadata available for region\n"))
    timeout
  let mr ← readMr (mrs e.ctx) mrId
  lift ((deref mr).map field)

section

variable {t sockfd}

/-- The connection of `sockfd`, if it is active, has `mrId` covered. -/
def ActiveGuard (t : Broadcast.Table) (sockfd mrId : ℤ) : Prop :=
  ∀ id e, Holds t sockfd id e → Rdma.rcActive e.ctx = true → InGuard MAX_MR mrId

theorem rcActive_eq_true : (rcActive t sockfd).result = .ok true ↔
    ∃ id e, Holds t sockfd id e ∧ Rdma.rcActive e.ctx = true := by
  have hne : true ≠ false := by simp
  rw [rcActive, ask_eq_ok hne]
  simp only [Except.ok.injEq]

/-- What follows a wait for the connection to be active. -/
theorem safe_waitActive (h : Broadcast.Inv t) {α : Type} {stop : Stop} {n : ℕ} {f : ℕ → Run α} :
    (waitFor (rcActive t sockfd) stop n >>= f).Safe ↔ InGuard MAX_CONNECTIONS sockfd ∧
      ∀ id e, Holds t sockfd id e → Rdma.rcActive e.ctx = true → (f n).Safe := by
  rw [safe_bind, safe_waitFor, rcActive, safe_ask h, result_waitFor]
  refine and_congr_right fun _ => ?_
  constructor
  · intro hsafe id e hholds hactive
    refine hsafe n ?_
    have hask := rcActive_eq_true.mpr ⟨id, e, hholds, hactive⟩
    rw [rcActive] at hask
    rw [hask]
    rfl
  · intro hsafe m hm
    obtain ⟨ready, hready, hm⟩ := Except.bind_eq_ok.mp hm
    cases ready with
    | false => exact absurd hm (by simp)
    | true =>
      obtain rfl := Except.ok.inj hm
      obtain ⟨id, e, hholds, hactive⟩ := rcActive_eq_true.mp hready
      exact hsafe id e hholds hactive

theorem safe_mrGet (h : Broadcast.Inv t) {R α : Type} {side : String}
    {ready : ConnContext → Fin MAX_MR → Bool} {mrs : ConnContext → Fin MAX_MR → Option R}
    {field : R → α} {mrId : ℤ} :
    (mrGet t sockfd side ready mrs field mrId).Safe ↔
      InGuard MAX_CONNECTIONS sockfd ∧ ActiveGuard t sockfd mrId := by
  rw [mrGet, safe_waitActive h]
  refine and_congr_right fun _ => forall₄_congr ?_
  intro id e hholds _
  rw [safe_bind_of_ok (result_contextOf.mpr hholds), safe_bind, safe_waitFor, safe_mrReady]
  refine and_iff_left ?_
  intro m hm
  rw [result_waitFor] at hm
  obtain ⟨b, hb, -⟩ := Except.bind_eq_ok.mp hm
  rw [safe_bind, safe_readMr]
  exact ⟨mrReady_eq_ok hb, fun _ _ => safe_lift _⟩

end

def mrLocalKey (mrId : ℤ) : Run UInt64 :=
  mrGet t sockfd "local" ConnContext.localMrReady ConnContext.localMr
    (fun mr => mr.lkey.toUInt64) mrId

def mrLocalRkey (mrId : ℤ) : Run UInt64 :=
  mrGet t sockfd "local" ConnContext.localMrReady ConnContext.localMr
    (fun mr => mr.rkey.toUInt64) mrId

def mrLocalAddr (mrId : ℤ) : Run UInt64 :=
  mrGet t sockfd "local" ConnContext.localMrReady ConnContext.localMr IbvMr.addr mrId

def mrRemoteKey (mrId : ℤ) : Run UInt64 :=
  mrGet t sockfd "remote" ConnContext.remoteMrReady ConnContext.remoteMr
    (fun mr => mr.rkey.toUInt64) mrId

def mrRemoteAddr (mrId : ℤ) : Run UInt64 :=
  mrGet t sockfd "remote" ConnContext.remoteMrReady ConnContext.remoteMr MrContext.addr mrId

/-- `mr_get_sq_idx`.  Nothing writes `sq_mr_idx`. -/
def mrGetSqIdx : Run ℤ := do
  let _ ← waitFor (rcActive t sockfd)
    (.rcDie "failed to get remote memory address; connection is not active\n") 10
  let _ ← contextOf t sockfd
  return 0

theorem safe_mrGetSqIdx {t : Broadcast.Table} {sockfd : ℤ} (h : Broadcast.Inv t) :
    (mrGetSqIdx t sockfd).Safe ↔ InGuard MAX_CONNECTIONS sockfd := by
  rw [mrGetSqIdx, safe_waitActive h]
  refine and_iff_left ?_
  intro id e hholds _
  rw [safe_bind_of_ok (result_contextOf.mpr hholds)]
  exact safe_pure _

end Guards

end Rdma
