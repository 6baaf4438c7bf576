/-
Broadcasts (`verbs.c`, `connection.c`).

`IBV_WRAPPER_OP_ASYNC_ALL` and `IBV_WRAPPER_OP_SYNC_ALL` post a batch on one connection after
the other.  They go from slot to slot by the bits of `s_conn_bitmap`, which say that a slot is
taken: it is from `init_connection`, before there is a queue pair, to `rc_clear`, after the
queue pair was destroyed.  Whether a connection is usable is `rc_ready`, which they do not ask.

* `step` — the calls that make a table of connections what it is;
* `broadcastAll` — the two broadcasts;
* `broadcastAll_eq` — they sweep over the taken slots, in order;
* `broadcast_reaches_iff` — they reach the ready connections and no other exactly where
  every slot that is taken is of a ready connection that takes the batch;
* `pending_blocks` — a connection that is ready and not reached.
-/
import RednRdma.Wrapper
import RednRdma.Records

namespace Rdma

namespace Broadcast

open Multimap

abbrev Slot := Fin MAX_CONNECTIONS

/-- `struct rdma_cm_id`, with its context and, from `rdma_create_qp` to `rdma_destroy_qp`,
its queue pair and the room in its send queue. -/
structure CmId where
  ctx : ConnContext
  qp : Option DriverQp := none
  room : ℕ := 0

/-- The table of connections. -/
structure Table where
  bitmap : Slot → Bool := fun _ => false
  connIds : Slot → Option ℕ := fun _ => none
  /-- The ids from `init_connection` to `rc_clear`. -/
  ids : ℕ → Option CmId := fun _ => none

/-- Id `id` becomes `e`. -/
def Table.put (t : Table) (id : ℕ) (e : CmId) : Table :=
  { t with ids := Function.update t.ids id (some e) }

/-! ### The calls that change the table -/

inductive Act
  /-- `init_connection`, for a new id. -/
  | init (id : ℕ) (type alwaysPoll flags : ℤ)
  /-- `setup_connection`; the driver makes a send queue for `maxPost` requests. -/
  | setup (id : ℕ) (v : Verbs) (s : Option Context) (cmId : RdmaCmId)
      (params : Option RdmaConnParam) (maxPost : ℕ)
  /-- `finalize_connection`. -/
  | finalize (id : ℕ) (params : Option RdmaConnParam)
  /-- Calls that register regions, post or poll: they leave what they leave of a connection
  that has its queue pair, but for its slot and its state. -/
  | work (id : ℕ) (c : LiveConn)
  /-- `rc_disconnect`. -/
  | disconnect (id : ℕ) (s : Option Context)
  /-- `rc_clear`. -/
  | clear (id : ℕ)

/-- `find_first_empty_bit_and_set`, the search. -/
def findFirstEmptyBit (bitmap : Slot → Bool) : Option Slot :=
  (List.finRange MAX_CONNECTIONS).find? fun i => !bitmap i

/-- `init_connection`. -/
def initConnection (t : Table) (id : ℕ) (type alwaysPoll flags : ℤ) : Option Table :=
  (findFirstEmptyBit t.bitmap).map fun i =>
    { bitmap := Function.update t.bitmap i true
      connIds := Function.update t.connIds i (some id)
      ids := Function.update t.ids id
        (some { ctx := initContext i.val type alwaysPoll flags }) }

/-- `rc_clear`. -/
def rcClear (t : Table) (id : ℕ) (e : CmId) : Option Table :=
  if h : e.ctx.state = .terminated ∧ 0 ≤ e.ctx.sockfd ∧ e.ctx.sockfd.toNat < MAX_CONNECTIONS then
    some {
      bitmap := Function.update t.bitmap ⟨e.ctx.sockfd.toNat, h.2.2⟩ false
      connIds := Function.update t.connIds ⟨e.ctx.sockfd.toNat, h.2.2⟩ none
      ids := Function.update t.ids id none }
  else none

variable (L : Lookup UInt32 IdRecord)

def step (t : Table) : Act → Option Table
  | .init id type alwaysPoll flags =>
    match t.ids id with
    | some _ => none
    | none => initConnection t id type alwaysPoll flags
  | .setup id v s cmId params maxPost =>
    (t.ids id).bind fun e =>
      (setupConnection v s { cmId with context := some e.ctx } params).toOption.map fun r =>
        t.put id { ctx := r.2.ctx, qp := some r.2.qp, room := maxPost }
  | .finalize id params =>
    (t.ids id).bind fun e =>
      (finalizeConnection e.ctx params).toOption.map fun ctx => t.put id { e with ctx }
  | .work id c =>
    (t.ids id).bind fun e =>
      if e.qp.isSome ∧ c.conn.ctx.sockfd = e.ctx.sockfd ∧ c.conn.ctx.state = e.ctx.state then
        some (t.put id { ctx := c.conn.ctx, qp := some c.conn.qp, room := c.room })
      else none
  | .disconnect id s =>
    (t.ids id).bind fun e =>
      (rcDisconnect L s e.ctx).toOption.map fun r => t.put id { ctx := r.2 }
  | .clear id => (t.ids id).bind fun e => rcClear t id e

/-! ### The broadcasts -/

/-- `get_connection`. -/
def getConnection (t : Table) (sockfd : ℤ) : Except Stop (Option ℕ) := do
  dieIf (sockfd > MAX_CONNECTIONS) "invalid sockfd; must be less than MAX_CONNECTIONS"
  if ← readAt t.bitmap sockfd then readAt t.connIds sockfd else return none

/-- `rc_ready`. -/
def rcReady (t : Table) (sockfd : ℤ) : Except Stop Bool := do
  match ← getConnection t sockfd with
  | none => return false
  | some id =>
    let e ← deref (t.ids id)
    return e.ctx.state = .ready

/-- `find_next_connection`. -/
def findNextConnection (t : Table) (id : Option ℕ) : Except Stop (Option ℕ) := do
  let i ← match id with
    | none => pure (findFirstSetBit t.bitmap)
    | some id => do
      let e ← deref (t.ids id)
      pure (findNextSetBit e.ctx.sockfd t.bitmap)
  if i ≥ 0 then getConnection t i else return none

section

variable (chain : List RdmaMeta) (localId remoteId : ℤ) (opcode : WrOpcode)

/-- `send_rdma_operation` on an id; before its queue pair is created and after it is
destroyed, `id->qp` is `NULL`. -/
def CmId.send (e : CmId) : Except Stop (UInt32 × CmId) :=
  match e.qp with
  | some qp => do
    let (wrId, c) ← LiveConn.sendRdmaOperation { conn := { ctx := e.ctx, qp }, room := e.room }
      chain localId remoteId opcode
    return (wrId, { ctx := c.conn.ctx, qp := some c.conn.qp, room := c.room })
  | none => do
    let _ ← Batch.regions e.ctx localId remoteId opcode
    throw .fault

/-- `send_rdma_operation`, in the table. -/
def sendTo (t : Table) (id : ℕ) : Except Stop (UInt32 × Table) := do
  let e ← deref (t.ids id)
  let (wrId, e) ← e.send chain localId remoteId opcode
  return (wrId, t.put id e)

/-- The loop of a broadcast: where it has posted, with the id of the batch there, and how it
ends; `none` without the fuel.  `room` is the length of the arrays, if there are any. -/
def broadcast (room : Option ℕ) :
    ℕ → Table → Option ℕ → List (ℕ × UInt32) → Option (List (ℕ × UInt32) × Except Stop Table)
  | fuel, t, cur, sent =>
    match cur with
    | none => some (sent, .ok t)
    | some id =>
      match fuel with
      | 0 => none
      | fuel + 1 =>
        match sendTo chain localId remoteId opcode t id with
        | .error e => some (sent, .error e)
        | .ok (wrId, t) =>
          -- `wr_ids[i]`, `conn_ids[i]`
          if room.any (· ≤ sent.length) then some (sent ++ [(id, wrId)], .error .fault)
          else
            match findNextConnection t (some id) with
            | .error e => some (sent ++ [(id, wrId)], .error e)
            | .ok next => broadcast room fuel t next (sent ++ [(id, wrId)])

/-- The two broadcasts. -/
inductive Mode
  | async | sync
  deriving Repr, DecidableEq

/-- `rc_connection_count()` is the length of the arrays of `IBV_WRAPPER_OP_SYNC_ALL`. -/
def Mode.room (mode : Mode) (t : Table) : Option ℕ :=
  match mode with
  | .async => none
  | .sync => some (findBitmapWeight t.bitmap)

/-- `IBV_WRAPPER_OP_ASYNC_ALL`, and `IBV_WRAPPER_OP_SYNC_ALL` up to where it begins to wait. -/
def broadcastAll (mode : Mode) (fuel : ℕ) (t : Table) :
    Option (List (ℕ × UInt32) × Except Stop Table) :=
  match findNextConnection t none with
  | .error e => some ([], .error e)
  | .ok first => broadcast chain localId remoteId opcode (mode.room t) fuel t first []

end

/-! ### Tables that are in order -/

/-- Every slot that is taken has its connection, and every connection its slot. -/
structure Inv (t : Table) : Prop where
  slot : ∀ i, t.bitmap i = true →
    ∃ id e, t.connIds i = some id ∧ t.ids id = some e ∧ e.ctx.sockfd = i.val
  own : ∀ id e, t.ids id = some e →
    ∃ i : Slot, e.ctx.sockfd = i.val ∧ t.bitmap i = true ∧ t.connIds i = some id

theorem inv_empty : Inv {} := ⟨by simp, by simp⟩

variable {L} {t : Table}

theorem Inv.put (h : Inv t) {id : ℕ} {e e' : CmId} (he : t.ids id = some e)
    (hsock : e'.ctx.sockfd = e.ctx.sockfd) : Inv (t.put id e') := by
  refine ⟨?_, ?_⟩
  · intro i hi
    obtain ⟨id₀, e₀, hid, he₀, hs⟩ := h.slot i hi
    by_cases heq : id₀ = id
    · subst heq
      obtain rfl : e = e₀ := Option.some_inj.mp (he.symm.trans he₀)
      exact ⟨id₀, e', hid, Function.update_self _ _ _, hsock.trans hs⟩
    · exact ⟨id₀, e₀, hid, (Function.update_of_ne heq _ _).trans he₀, hs⟩
  · intro id₀ e₀ he₀
    by_cases heq : id₀ = id
    · subst heq
      have hself : (t.put id₀ e').ids id₀ = some e' := Function.update_self _ _ _
      obtain rfl := Option.some_inj.mp (hself.symm.trans he₀)
      obtain ⟨i, hi, hbit, hconn⟩ := h.own id₀ e he
      exact ⟨i, hsock.trans hi, hbit, hconn⟩
    · have hother : (t.put id e').ids id₀ = t.ids id₀ := Function.update_of_ne heq _ _
      exact h.own id₀ e₀ (hother.symm.trans he₀)

theorem Inv.init {t' : Table} (h : Inv t) {id : ℕ} {type alwaysPoll flags : ℤ}
    (hnew : t.ids id = none) (hs : initConnection t id type alwaysPoll flags = some t') :
    Inv t' := by
  obtain ⟨i, hfind, rfl⟩ := Option.map_eq_some_iff.mp hs
  have hempty : t.bitmap i = false := by simpa using List.find?_some hfind
  refine ⟨?_, ?_⟩
  · intro j hj
    by_cases hji : j = i
    · subst hji
      exact ⟨id, _, Function.update_self _ _ _, Function.update_self _ _ _, rfl⟩
    · have hbit : t.bitmap j = true := (Function.update_of_ne hji _ _).symm.trans hj
      obtain ⟨id₀, e₀, hid, he₀, hsock⟩ := h.slot j hbit
      have hne : id₀ ≠ id := by
        rintro rfl
        exact absurd (hnew.symm.trans he₀) (by simp)
      exact ⟨id₀, e₀, (Function.update_of_ne hji _ _).trans hid,
        (Function.update_of_ne hne _ _).trans he₀, hsock⟩
  · intro id₀ e₀ he₀
    by_cases heq : id₀ = id
    · subst heq
      change Function.update t.ids id₀ _ id₀ = some e₀ at he₀
      rw [Function.update_self] at he₀
      obtain rfl := Option.some_inj.mp he₀
      exact ⟨i, rfl, Function.update_self _ _ _, Function.update_self _ _ _⟩
    · obtain ⟨j, hsock, hbit, hconn⟩ :=
        h.own id₀ e₀ ((Function.update_of_ne heq _ _).symm.trans he₀)
      have hji : j ≠ i := by
        rintro rfl
        exact absurd (hempty.symm.trans hbit) (by simp)
      exact ⟨j, hsock, (Function.update_of_ne hji _ _).trans hbit,
        (Function.update_of_ne hji _ _).trans hconn⟩

theorem Inv.clear {t' : Table} (h : Inv t) {id : ℕ} {e : CmId} (he : t.ids id = some e)
    (hs : rcClear t id e = some t') : Inv t' := by
  rw [rcClear] at hs
  split at hs
  · rename_i hrange
    obtain rfl := Option.some_inj.mp hs
    obtain ⟨i, hi, hbit, hconn⟩ := h.own id e he
    have hslot : (⟨e.ctx.sockfd.toNat, hrange.2.2⟩ : Slot) = i := Fin.ext (by simp [hi])
    rw [hslot]
    refine ⟨?_, ?_⟩
    · intro j hj
      have hji : j ≠ i := by
        rintro rfl
        exact absurd ((Function.update_self _ _ _).symm.trans hj) (by simp)
      obtain ⟨id₀, e₀, hid, he₀, hsock⟩ :=
        h.slot j ((Function.update_of_ne hji _ _).symm.trans hj)
      have hne : id₀ ≠ id := by
        rintro rfl
        obtain rfl : e = e₀ := Option.some_inj.mp (he.symm.trans he₀)
        have : (j.val : ℤ) = i.val := hsock.symm.trans hi
        exact hji (Fin.ext (by omega))
      exact ⟨id₀, e₀, (Function.update_of_ne hji _ _).trans hid,
        (Function.update_of_ne hne _ _).trans he₀, hsock⟩
    · intro id₀ e₀ he₀
      have hne : id₀ ≠ id := by
        rintro rfl
        exact absurd ((Function.update_self _ _ _).symm.trans he₀) (by simp)
      obtain ⟨j, hsock, hbit', hconn'⟩ :=
        h.own id₀ e₀ ((Function.update_of_ne hne _ _).symm.trans he₀)
      have hji : j ≠ i := by
        rintro rfl
        exact hne (Option.some_inj.mp (hconn'.symm.trans hconn))
      exact ⟨j, hsock, (Function.update_of_ne hji _ _).trans hbit',
        (Function.update_of_ne hji _ _).trans hconn'⟩
  · exact absurd hs (by simp)

/-- Setup, the end of setup and the post calls leave a connection its slot. -/
theorem setupConnection_sockfd {v : Verbs} {s : Option Context} {r : Context × Conn}
    {id : RdmaCmId} {params : Option RdmaConnParam} {ctx : ConnContext}
    (hctx : id.context = some ctx) (h : setupConnection v s id params = .ok r) :
    r.2.ctx.sockfd = ctx.sockfd := by
  obtain ⟨s₁, ctx₁, ctx₂, hbuild, htake, hqueue, -⟩ := setupConnection_eq_ok hctx h
  have hbuilt : ctx₁.sockfd = ctx.sockfd := by
    rcases tryBuildDevice_cases hbuild with ⟨i, -, -, -, rfl⟩ | ⟨-, -, -, rfl⟩
    · rfl
    · rfl
  have htaken : ctx₂.sockfd = ctx₁.sockfd := by
    rcases takeMetadata_eq_ok htake with ⟨-, rfl⟩ | ⟨m, -, -, rfl⟩
    · rfl
    · rfl
  rw [hqueue]
  exact htaken.trans hbuilt

theorem rcSetState_sockfd (ctx : ConnContext) (state : RcState) :
    (rcSetState ctx state).sockfd = ctx.sockfd := by
  rw [rcSetState]
  split <;> rfl

theorem finalizeConnection_sockfd {ctx ctx' : ConnContext} {params : Option RdmaConnParam}
    (h : finalizeConnection ctx params = .ok ctx') : ctx'.sockfd = ctx.sockfd := by
  obtain ⟨ctx₁, h₁, h⟩ := Except.bind_eq_ok.mp h
  obtain rfl := Except.pure_eq_ok.mp h
  rw [rcSetState_sockfd]
  unfold finalMetadata at h₁
  split at h₁
  · exact congrArg _ (Except.ok.inj h₁).symm
  · split at h₁
    · exact congrArg _ (Except.ok.inj h₁).symm
    · obtain ⟨-, -, h₁⟩ := Except.bind_eq_ok.mp h₁
      rw [mrRemoteUpdate_eq] at h₁
      split at h₁
      · obtain rfl := Except.ok.inj h₁
        rfl
      · exact absurd h₁ (by simp)

theorem rcDisconnect_sockfd {s : Option Context} {r : Context × ConnContext} {ctx : ConnContext}
    (h : rcDisconnect L s ctx = .ok r) : r.2.sockfd = ctx.sockfd := by
  obtain ⟨s₁, -, h⟩ := Except.bind_eq_ok.mp h
  split at h
  · obtain rfl := Except.pure_eq_ok.mp h
    exact rcSetState_sockfd ctx .terminated
  · exact absurd h (by simp [throw, throwThe, MonadExceptOf.throw])

theorem Inv.step {a : Act} {t' : Table} (h : Inv t) (hs : step L t a = some t') : Inv t' := by
  cases a with
  | init id type alwaysPoll flags =>
    simp only [Broadcast.step] at hs
    split at hs
    · exact absurd hs (by simp)
    · rename_i hnew
      exact h.init hnew hs
  | setup id v s cmId params maxPost =>
    obtain ⟨e, he, hs⟩ := Option.bind_eq_some_iff.mp hs
    obtain ⟨r, hr, rfl⟩ := Option.map_eq_some_iff.mp hs
    exact h.put he (setupConnection_sockfd rfl (Except.toOption_eq_some.mp hr))
  | finalize id params =>
    obtain ⟨e, he, hs⟩ := Option.bind_eq_some_iff.mp hs
    obtain ⟨ctx, hctx, rfl⟩ := Option.map_eq_some_iff.mp hs
    exact h.put he (finalizeConnection_sockfd (Except.toOption_eq_some.mp hctx))
  | work id c =>
    obtain ⟨e, he, hs⟩ := Option.bind_eq_some_iff.mp hs
    split at hs
    · rename_i hkeep
      obtain rfl := Option.some_inj.mp hs
      exact h.put he hkeep.2.1
    · exact absurd hs (by simp)
  | disconnect id s =>
    obtain ⟨e, he, hs⟩ := Option.bind_eq_some_iff.mp hs
    obtain ⟨r, hr, rfl⟩ := Option.map_eq_some_iff.mp hs
    exact h.put he (rcDisconnect_sockfd (Except.toOption_eq_some.mp hr))
  | clear id =>
    obtain ⟨e, he, hs⟩ := Option.bind_eq_some_iff.mp hs
    exact h.clear he hs

theorem run_inv {as : List Act} (hr : Machine.run (step L) {} as = some t) : Inv t :=
  Machine.run_inv (fun _ _ _ hi hs => Inv.step hi hs) inv_empty hr

/-! ### The sweep -/

/-- The connections in the slots after `idx`, in order. -/
def occupied (t : Table) (idx : ℤ) : List ℕ := (setBitsAfter idx t.bitmap).filterMap t.connIds

/-- The connections for which `rc_ready` holds, in order. -/
def readyIds (t : Table) : List ℕ :=
  ((List.finRange MAX_CONNECTIONS).filter fun i : Slot => rcReady t i.val = .ok true).filterMap
    t.connIds

theorem getConnection_slot (t : Table) (i : Slot) :
    getConnection t i.val = .ok (if t.bitmap i then t.connIds i else none) := by
  have hle : ¬ ((i.val : ℤ) > MAX_CONNECTIONS) := by omega
  rw [getConnection, decide_eq_false hle]
  cases hbit : t.bitmap i with
  | false => simp [dieIf, readAt, hbit, bind, Except.bind, pure, Except.pure]
  | true => simp [dieIf, readAt, hbit, bind, Except.bind]

theorem Inv.rcReady_iff (h : Inv t) {i : Slot} :
    rcReady t i.val = .ok true ↔ t.bitmap i = true ∧
      ∃ id e, t.connIds i = some id ∧ t.ids id = some e ∧ e.ctx.state = .ready := by
  rw [rcReady, getConnection_slot]
  cases hbit : t.bitmap i with
  | false => simp [bind, Except.bind, pure, Except.pure]
  | true =>
    obtain ⟨id, e, hid, he, -⟩ := h.slot i hbit
    simp [deref, hid, he, bind, Except.bind, pure, Except.pure]

/-- What the iterator goes on to. -/
theorem Inv.next (h : Inv t) (idx : ℤ) :
    (if findNextSetBit idx t.bitmap ≥ 0 then getConnection t (findNextSetBit idx t.bitmap)
      else return none) = .ok (occupied t idx).head? ∧
    ∀ id ids, occupied t idx = id :: ids →
      ∃ e, t.ids id = some e ∧ ids = occupied t e.ctx.sockfd := by
  rw [occupied]
  rcases findNextSetBit_cases idx t.bitmap with ⟨hnil, hend⟩ | ⟨i, hcons, hnext⟩
  · rw [hnil, hend]
    exact ⟨rfl, by simp⟩
  · have hbit : t.bitmap i = true := by
      have hi : i ∈ setBitsAfter idx t.bitmap := hcons ▸ List.mem_cons_self
      exact (of_decide_eq_true (List.mem_filter.mp hi).2).2
    obtain ⟨id, e, hid, he, hsock⟩ := h.slot i hbit
    rw [hcons, hnext, if_pos (by omega), getConnection_slot, if_pos hbit, hid,
      List.filterMap_cons_some hid]
    refine ⟨rfl, ?_⟩
    rintro _ _ ⟨⟩
    exact ⟨e, he, hsock ▸ rfl⟩

theorem Inv.findFirstConnection (h : Inv t) :
    findNextConnection t none = .ok (occupied t (-1)).head? := by
  rw [← (h.next (-1)).1, findNextConnection]
  simp only [findFirstSetBit_eq, pure_bind]

theorem Inv.findNextConnection (h : Inv t) {id : ℕ} {e : CmId} (he : t.ids id = some e) :
    findNextConnection t (some id) = .ok (occupied t e.ctx.sockfd).head? := by
  rw [← (h.next e.ctx.sockfd).1, Broadcast.findNextConnection]
  simp only [he, deref, bind, Except.bind, pure, Except.pure]

/-- Two slots have two connections. -/
theorem Inv.nodup (h : Inv t) : (occupied t (-1)).Nodup := by
  rw [occupied, setBitsAfter_neg]
  refine List.pairwise_filterMap.mpr ?_
  refine (List.Nodup.filter t.bitmap (List.nodup_finRange _)).imp_of_mem ?_
  rintro i j hi hj hne id hid _ hid' rfl
  obtain ⟨id₀, e, hid₀, he, hsock⟩ := h.slot i (mem_setBits.mp hi)
  obtain ⟨id₁, e', hid₁, he', hsock'⟩ := h.slot j (mem_setBits.mp hj)
  obtain rfl := Option.some_inj.mp (hid₀.symm.trans hid)
  obtain rfl := Option.some_inj.mp (hid₁.symm.trans hid')
  obtain rfl := Option.some_inj.mp (he.symm.trans he')
  exact hne (Fin.ext (by omega))

variable {chain : List RdmaMeta} {localId remoteId : ℤ} {opcode : WrOpcode}

/-- The sweep over `ids`. -/
def sweep (chain : List RdmaMeta) (localId remoteId : ℤ) (opcode : WrOpcode) :
    List ℕ → Table → List (ℕ × UInt32) → List (ℕ × UInt32) × Except Stop Table
  | [], t, sent => (sent, .ok t)
  | id :: ids, t, sent =>
    match sendTo chain localId remoteId opcode t id with
    | .error e => (sent, .error e)
    | .ok (wrId, t) => sweep chain localId remoteId opcode ids t (sent ++ [(id, wrId)])

/-- A post leaves the connection its slot. -/
theorem sendRdmaOperation_sockfd {c c' : LiveConn} {wrId : UInt32}
    (h : c.sendRdmaOperation chain localId remoteId opcode = .ok (wrId, c')) :
    c'.conn.ctx.sockfd = c.conn.ctx.sockfd := by
  obtain ⟨localMr, remoteMr, reqs, last, -, -, -, hsubmit⟩ :=
    sendRdmaOperation_eq_ok (LiveConn.sendRdmaOperation_eq_ok_iff.mp h).1
  obtain ⟨iqp, wr, -, -, hctx⟩ := updateScurPost_eq_ok (submit_eq_ok hsubmit).1
  rw [hctx, takeIds_snd]
  rfl

theorem CmId.send_sockfd {e e' : CmId} {wrId : UInt32}
    (h : e.send chain localId remoteId opcode = .ok (wrId, e')) :
    e'.ctx.sockfd = e.ctx.sockfd := by
  rw [CmId.send] at h
  split at h
  · obtain ⟨⟨wrId', c⟩, hc, h⟩ := Except.bind_eq_ok.mp h
    obtain ⟨-, rfl⟩ := Prod.mk.inj (Except.pure_eq_ok.mp h)
    exact sendRdmaOperation_sockfd hc
  · obtain ⟨regions, -, h⟩ := Except.bind_eq_ok.mp h
    exact absurd h (by simp [throw, throwThe, MonadExceptOf.throw])

/-- A post on an id returns exactly when the id has its queue pair and the batch can be
posted there. -/
theorem CmId.exists_send_iff {e : CmId} :
    (∃ r, e.send chain localId remoteId opcode = .ok r) ↔
      ∃ qp, e.qp = some qp ∧ Postable { conn := { ctx := e.ctx, qp }, room := e.room } opcode
        chain localId remoteId := by
  rw [CmId.send]
  cases hqp : e.qp with
  | none =>
    constructor
    · rintro ⟨r, h⟩
      obtain ⟨regions, -, h⟩ := Except.bind_eq_ok.mp h
      exact absurd h (by simp [throw, throwThe, MonadExceptOf.throw])
    · rintro ⟨qp, h, -⟩
      exact absurd h (by simp)
  | some qp =>
    constructor
    · rintro ⟨r, h⟩
      obtain ⟨r', hr', -⟩ := Except.bind_eq_ok.mp h
      exact ⟨qp, rfl, postable_iff.mp ⟨r', hr'⟩⟩
    · rintro ⟨qp', hqp', hpost⟩
      obtain rfl := Option.some_inj.mp hqp'
      obtain ⟨r, hr⟩ := postable_iff.mpr hpost
      exact ⟨_, Except.bind_eq_ok.mpr ⟨r, hr, rfl⟩⟩

theorem sendTo_eq_ok {t' : Table} {id : ℕ} {wrId : UInt32}
    (h : sendTo chain localId remoteId opcode t id = .ok (wrId, t')) :
    ∃ e e', t.ids id = some e ∧ e.send chain localId remoteId opcode = .ok (wrId, e') ∧
      t' = t.put id e' := by
  obtain ⟨e, he, h⟩ := Except.bind_eq_ok.mp h
  obtain ⟨⟨wrId', e'⟩, hsend, h⟩ := Except.bind_eq_ok.mp h
  obtain ⟨rfl, rfl⟩ := Prod.mk.inj (Except.pure_eq_ok.mp h)
  exact ⟨e, e', deref_eq_ok.mp he, hsend, rfl⟩

/-- The loop is the sweep over the connections in the taken slots, with fuel and arrays for
them. -/
theorem Inv.broadcast_eq {room : Option ℕ} {fuel : ℕ} {idx : ℤ} {sent : List (ℕ × UInt32)}
    (h : Inv t) (hfuel : (occupied t idx).length ≤ fuel)
    (hroom : ∀ n ∈ room, sent.length + (occupied t idx).length ≤ n) :
    broadcast chain localId remoteId opcode room fuel t (occupied t idx).head? sent =
      some (sweep chain localId remoteId opcode (occupied t idx) t sent) := by
  induction fuel generalizing t idx sent with
  | zero =>
    rw [List.length_eq_zero_iff.mp (Nat.le_zero.mp hfuel)]
    rfl
  | succ fuel ih =>
    cases hids : occupied t idx with
    | nil => rfl
    | cons id ids =>
      obtain ⟨e, he, hrest⟩ := (h.next idx).2 id ids hids
      rw [hids, List.length_cons] at hfuel hroom
      rw [List.head?_cons, broadcast, sweep]
      cases hsend : sendTo chain localId remoteId opcode t id with
      | error stop => rfl
      | ok r =>
        obtain ⟨wrId, t'⟩ := r
        obtain ⟨e₀, e', he₀, hpost, rfl⟩ := sendTo_eq_ok hsend
        obtain rfl := Option.some_inj.mp (he.symm.trans he₀)
        have hsock := CmId.send_sockfd hpost
        have hinv : Inv (t.put id e') := h.put he hsock
        have hself : (t.put id e').ids id = some e' := Function.update_self _ _ _
        have hin : ¬ room.any (· ≤ sent.length) = true := by
          cases room with
          | none => simp
          | some n => simpa using by have := hroom n rfl; omega
        -- the slots are taken as before
        have hnext : occupied (t.put id e') e'.ctx.sockfd = ids := by
          rw [hrest, hsock]
          rfl
        simp only [if_neg hin, hinv.findNextConnection hself]
        rw [← hnext] at hfuel hroom ⊢
        exact ih hinv (by omega) fun n hn => by
          have := hroom n hn
          rw [List.length_append, List.length_singleton]
          omega

theorem length_occupied (t : Table) : (occupied t (-1)).length ≤ findBitmapWeight t.bitmap := by
  rw [← length_setBits, ← setBitsAfter_neg]
  exact List.length_filterMap_le _ _

theorem findBitmapWeight_le {n : ℕ} (bitmap : Fin n → Bool) : findBitmapWeight bitmap ≤ n :=
  List.countP_le_length.trans_eq List.length_finRange

theorem Inv.broadcastAll_eq (h : Inv t) (mode : Mode) {fuel : ℕ} (hfuel : MAX_CONNECTIONS ≤ fuel) :
    broadcastAll chain localId remoteId opcode mode fuel t =
      some (sweep chain localId remoteId opcode (occupied t (-1)) t []) := by
  have hlen := length_occupied t
  have hroom : ∀ n ∈ mode.room t, 0 + (occupied t (-1)).length ≤ n := by
    intro n hn
    cases mode with
    | async => exact absurd hn (by simp [Mode.room])
    | sync =>
      obtain rfl := Option.some_inj.mp hn
      rwa [Nat.zero_add]
  unfold broadcastAll
  rw [h.findFirstConnection]
  exact h.broadcast_eq ((hlen.trans (findBitmapWeight_le t.bitmap)).trans hfuel) hroom

section

variable (chain : List RdmaMeta) (localId remoteId : ℤ) (opcode : WrOpcode)

/-- The batch was posted once on each of `ids`, in order, and on no other. -/
structure PostedOn (ids : List ℕ) (t : Table) (sent : List (ℕ × UInt32)) (t' : Table) :
    Prop where
  order : sent.map Prod.fst = ids
  once : ∀ id ∈ ids, ∃ e wrId e', t.ids id = some e ∧
    e.send chain localId remoteId opcode = .ok (wrId, e') ∧ (id, wrId) ∈ sent ∧
    t'.ids id = some e'
  other : ∀ id ∉ ids, t'.ids id = t.ids id

/-- A broadcast returns, and has posted on the ready connections. -/
def Reaches (mode : Mode) (t : Table) : Prop :=
  ∀ fuel ≥ MAX_CONNECTIONS, ∃ sent t',
    broadcastAll chain localId remoteId opcode mode fuel t = some (sent, .ok t') ∧
      PostedOn chain localId remoteId opcode (readyIds t) t sent t'

/-- Every slot that is taken is of a ready connection that takes the batch. -/
def AllUsable (t : Table) : Prop :=
  ∀ i, t.bitmap i = true → ∃ id e qp, t.connIds i = some id ∧ t.ids id = some e ∧
    e.ctx.state = .ready ∧ e.qp = some qp ∧
    Postable { conn := { ctx := e.ctx, qp }, room := e.room } opcode chain localId remoteId

end

/-- A sweep over distinct connections posts on each as it found it. -/
theorem sweep_posted {ids : List ℕ} {t' : Table} {sent all : List (ℕ × UInt32)}
    (hn : ids.Nodup) (h : sweep chain localId remoteId opcode ids t sent = (all, .ok t')) :
    ∃ new, all = sent ++ new ∧ PostedOn chain localId remoteId opcode ids t new t' := by
  induction ids generalizing t sent with
  | nil =>
    obtain ⟨rfl, ht⟩ := Prod.mk.inj h
    obtain rfl := Except.ok.inj ht
    exact ⟨[], (List.append_nil _).symm, rfl, by simp, fun _ _ => rfl⟩
  | cons id ids ih =>
    obtain ⟨hid, hn⟩ := List.nodup_cons.mp hn
    rw [sweep] at h
    cases hsend : sendTo chain localId remoteId opcode t id with
    | error stop => simp [hsend] at h
    | ok r =>
      obtain ⟨wrId, t₁⟩ := r
      obtain ⟨e, e', he, hpost, rfl⟩ := sendTo_eq_ok hsend
      rw [hsend] at h
      obtain ⟨new, rfl, hnew⟩ := ih hn h
      have hself : (t.put id e').ids id = some e' := Function.update_self _ _ _
      have hkeep : ∀ id', id' ≠ id → (t.put id e').ids id' = t.ids id' :=
        fun id' hne => Function.update_of_ne hne _ _
      refine ⟨(id, wrId) :: new, by simp, ?_, ?_, ?_⟩
      · rw [List.map_cons, hnew.order]
      · intro id' hid'
        rcases List.mem_cons.mp hid' with rfl | hid'
        · exact ⟨e, wrId, e', he, hpost, List.mem_cons_self, (hnew.other id' hid).trans hself⟩
        · obtain ⟨e₁, w₁, e₁', he₁, hpost₁, hmem, hafter⟩ := hnew.once id' hid'
          have hne : id' ≠ id := fun heq => hid (heq ▸ hid')
          exact ⟨e₁, w₁, e₁', (hkeep id' hne).symm.trans he₁, hpost₁,
            List.mem_cons_of_mem _ hmem, hafter⟩
      · intro id' hid'
        obtain ⟨hne, hid'⟩ := not_or.mp (fun h => hid' (List.mem_cons.mpr h))
        exact (hnew.other id' hid').trans (hkeep id' hne)

theorem exists_sweep {ids : List ℕ} (sent : List (ℕ × UInt32)) (hn : ids.Nodup)
    (h : ∀ id ∈ ids, ∃ e r, t.ids id = some e ∧
      e.send chain localId remoteId opcode = .ok r) :
    ∃ all t', sweep chain localId remoteId opcode ids t sent = (all, .ok t') := by
  induction ids generalizing t sent with
  | nil => exact ⟨_, _, rfl⟩
  | cons id ids ih =>
    obtain ⟨hid, hn⟩ := List.nodup_cons.mp hn
    obtain ⟨e, ⟨wrId, e'⟩, he, hpost⟩ := h id List.mem_cons_self
    have hsend : sendTo chain localId remoteId opcode t id = .ok (wrId, t.put id e') := by
      simp only [sendTo, deref, he, hpost, bind, Except.bind, pure, Except.pure]
    rw [sweep, hsend]
    refine ih _ hn ?_
    intro id' hid'
    obtain ⟨e₁, r₁, he₁, hpost₁⟩ := h id' (List.mem_cons_of_mem _ hid')
    have hne : id' ≠ id := fun heq => hid (heq ▸ hid')
    exact ⟨e₁, r₁, (Function.update_of_ne hne _ _).trans he₁, hpost₁⟩

theorem mem_occupied {id : ℕ} :
    id ∈ occupied t (-1) ↔ ∃ i, t.bitmap i = true ∧ t.connIds i = some id := by
  simp [occupied, setBitsAfter_neg, mem_setBits]

theorem Inv.mem_readyIds (h : Inv t) {id : ℕ} :
    id ∈ readyIds t ↔ ∃ i e, t.bitmap i = true ∧ t.connIds i = some id ∧ t.ids id = some e ∧
      e.ctx.state = .ready := by
  simp only [readyIds, List.mem_filterMap, List.mem_filter, List.mem_finRange, true_and,
    decide_eq_true_eq, h.rcReady_iff]
  constructor
  · rintro ⟨i, ⟨hbit, id', e, hid', he, hready⟩, hid⟩
    obtain rfl := Option.some_inj.mp (hid'.symm.trans hid)
    exact ⟨i, e, hbit, hid, he, hready⟩
  · rintro ⟨i, e, hbit, hid, he, hready⟩
    exact ⟨i, ⟨hbit, id, e, hid, he, hready⟩, hid⟩

/-- If all slots that are taken are of ready connections, those are all there are. -/
theorem Inv.readyIds_eq (h : Inv t) (hu : AllUsable chain localId remoteId opcode t) :
    readyIds t = occupied t (-1) := by
  have hslots : ((List.finRange MAX_CONNECTIONS).filter fun i : Slot =>
      rcReady t i.val = .ok true) = setBits t.bitmap := by
    refine List.filter_congr ?_
    intro i _
    rw [Bool.eq_iff_iff, decide_eq_true_eq, h.rcReady_iff]
    refine ⟨And.left, fun hbit => ⟨hbit, ?_⟩⟩
    obtain ⟨id, e, -, hid, he, hready, -⟩ := hu i hbit
    exact ⟨id, e, hid, he, hready⟩
  rw [readyIds, hslots, occupied, setBitsAfter_neg]

theorem Inv.reaches_iff (h : Inv t) (mode : Mode) :
    Reaches chain localId remoteId opcode mode t ↔
      AllUsable chain localId remoteId opcode t := by
  constructor
  · intro hreach i hbit
    obtain ⟨sent, t', hall, hready⟩ := hreach MAX_CONNECTIONS le_rfl
    rw [h.broadcastAll_eq mode le_rfl] at hall
    obtain ⟨new, rfl, hswept⟩ := sweep_posted h.nodup (Option.some_inj.mp hall)
    have hids : readyIds t = occupied t (-1) := hready.order.symm.trans hswept.order
    obtain ⟨id, e, hid, he, -⟩ := h.slot i hbit
    have hmem : id ∈ occupied t (-1) := mem_occupied.mpr ⟨i, hbit, hid⟩
    obtain ⟨-, e₁, -, -, he₁, hstate⟩ := h.mem_readyIds.mp (hids ▸ hmem)
    obtain rfl := Option.some_inj.mp (he.symm.trans he₁)
    obtain ⟨e₂, wrId, e', he₂, hpost, -⟩ := hswept.once id hmem
    obtain rfl := Option.some_inj.mp (he.symm.trans he₂)
    obtain ⟨qp, hqp, hpostable⟩ := CmId.exists_send_iff.mp ⟨_, hpost⟩
    exact ⟨id, e, qp, hid, he, hstate, hqp, hpostable⟩
  · intro hu fuel hfuel
    obtain ⟨all, t', hsweep⟩ := exists_sweep [] h.nodup fun id hid => by
      obtain ⟨i, hbit, hconn⟩ := mem_occupied.mp hid
      obtain ⟨id', e, qp, hid', he, -, hqp, hpostable⟩ := hu i hbit
      obtain rfl := Option.some_inj.mp (hid'.symm.trans hconn)
      obtain ⟨r, hr⟩ := CmId.exists_send_iff.mpr ⟨qp, hqp, hpostable⟩
      exact ⟨e, r, he, hr⟩
    obtain ⟨new, rfl, hposted⟩ := sweep_posted h.nodup hsweep
    refine ⟨_, t', (h.broadcastAll_eq mode hfuel).trans (congrArg some hsweep), ?_⟩
    rw [h.readyIds_eq hu]
    exact hposted

/-- **A broadcast reaches the ready connections** and no other exactly where every slot that is
taken is of a ready connection on which the batch can be posted. -/
theorem broadcast_reaches_iff {as : List Act} (hr : Machine.run (step L) {} as = some t)
    (mode : Mode) (chain : List RdmaMeta) (localId remoteId : ℤ) (opcode : WrOpcode) :
    Reaches chain localId remoteId opcode mode t ↔
      AllUsable chain localId remoteId opcode t :=
  (run_inv hr).reaches_iff mode

/-! ### A connection that is not ready yet -/

theorem initConnection_eq {i : Slot} (hempty : t.bitmap i = false)
    (htaken : ∀ j < i, t.bitmap j = true) (id : ℕ) (type alwaysPoll flags : ℤ) :
    initConnection t id type alwaysPoll flags = some {
      bitmap := Function.update t.bitmap i true
      connIds := Function.update t.connIds i (some id)
      ids := Function.update t.ids id
        (some { ctx := initContext i.val type alwaysPoll flags }) } := by
  have hfind : findFirstEmptyBit t.bitmap = some i := by
    refine List.find?_eq_some_iff_getElem.mpr ⟨by simp [hempty], i.val, by simp, by simp, ?_⟩
    intro j hj
    simpa using htaken ⟨j, hj.trans i.isLt⟩ hj
  rw [initConnection, hfind]
  rfl

/-- Connection `id` in slot `i` is set up, registers its data region, and is ready. -/
def makeReady (id : ℕ) (i : Slot) : List Act :=
  [.setup id (Records.verbsGiving 9) none (Records.idOn id 5) none 16,
    .work id ⟨{ conn64 with ctx := { conn64.ctx with sockfd := i.val } }, 16⟩,
    .finalize id none]

def slot0 : Slot := ⟨0, by decide⟩
def slot1 : Slot := ⟨1, by decide⟩

/-- The table after the first `init_connection`. -/
def onePending : Table where
  bitmap := Function.update (fun _ => false) slot0 true
  connIds := Function.update (fun _ => none) slot0 (some 1)
  ids := Function.update (fun _ => none) 1 (some { ctx := initContext 0 0 1 0 })

theorem init_onePending : step Lookup.first {} (.init 1 0 1 0) = some onePending :=
  initConnection_eq (i := slot0) rfl (fun _ hj => absurd hj (Nat.not_lt_zero _)) 1 0 1 0

theorem below_slot1 : ∀ j : Slot, j < slot1 → onePending.bitmap j = true := by
  intro j hj
  obtain rfl : j = slot0 := Fin.ext (Nat.lt_one_iff.mp hj)
  exact Function.update_self slot0 true fun _ => false

/-- One connection, which is ready. -/
theorem broadcast_reaches_one :
    ∃ t, Machine.run (step Lookup.first) {} (.init 1 0 1 0 :: makeReady 1 slot0) = some t ∧
      rcReady t 0 = .ok true ∧ Reaches [meta8] 0 0 .send .sync t := by
  obtain ⟨t, hr, hbit, hready, e, he⟩ :
      ∃ t, Machine.run (step Lookup.first) {} (.init 1 0 1 0 :: makeReady 1 slot0) = some t ∧
        t.bitmap = Function.update (fun _ => false) slot0 true ∧ rcReady t 0 = .ok true ∧
        ∃ e, t.connIds slot0 = some 1 ∧ t.ids 1 = some e ∧ e.ctx.state = .ready ∧
          e.qp = some ring64 ∧ ∃ r, LiveConn.sendRdmaOperation
            { conn := { ctx := e.ctx, qp := ring64 }, room := e.room } [meta8] 0 0 .send =
              .ok r := by
    rw [Machine.run_cons, init_onePending]
    exact ⟨_, rfl, rfl, rfl, _, rfl, rfl, rfl, rfl, _, rfl⟩
  obtain ⟨hconn, he, hstate, hqp, hsend⟩ := he
  refine ⟨t, hr, hready, (broadcast_reaches_iff hr _ _ _ _ _).mpr ?_⟩
  intro i hi
  rw [hbit] at hi
  obtain rfl : i = slot0 := by
    by_contra hne
    rw [Function.update_of_ne hne] at hi
    exact absurd hi (by simp)
  exact ⟨1, e, ring64, hconn, he, hstate, hqp, postable_iff.mp hsend⟩

/-- Connection 1 has no queue pair yet when connection 2 is ready: the broadcast ends the
process on connection 1. -/
theorem pending_blocks :
    ∃ t, Machine.run (step Lookup.first) {}
        (.init 1 0 1 0 :: .init 2 0 1 0 :: makeReady 2 slot1) = some t ∧
      rcReady t 0 = .ok false ∧ rcReady t 1 = .ok true ∧
      sendTo [meta8] 0 0 .send t 1 =
        .error (.rcDie "failed to issue sync; no metadata available for remote mr\n") ∧
      ∀ mode, ¬ Reaches [meta8] 0 0 .send mode t := by
  obtain ⟨t, hr, hbit, hready0, hready1, hsend, e, he⟩ :
      ∃ t, Machine.run (step Lookup.first) {}
          (.init 1 0 1 0 :: .init 2 0 1 0 :: makeReady 2 slot1) = some t ∧
        t.bitmap slot0 = true ∧ rcReady t 0 = .ok false ∧ rcReady t 1 = .ok true ∧
        sendTo [meta8] 0 0 .send t 1 =
          .error (.rcDie "failed to issue sync; no metadata available for remote mr\n") ∧
        ∃ e, t.connIds slot0 = some 1 ∧ t.ids 1 = some e ∧ e.ctx.state = .pending := by
    have hslot1 : step Lookup.first onePending (.init 2 0 1 0) = some _ :=
      initConnection_eq (i := slot1) rfl below_slot1 2 0 1 0
    rw [Machine.run_cons, init_onePending, Option.bind_some, Machine.run_cons, hslot1]
    exact ⟨_, rfl, rfl, rfl, rfl, rfl, _, rfl, rfl, rfl⟩
  refine ⟨t, hr, hready0, hready1, hsend, ?_⟩
  intro mode hreach
  obtain ⟨hconn, he, hstate⟩ := he
  obtain ⟨id, e', qp, hid, he', hstate', -⟩ := ((run_inv hr).reaches_iff mode).mp hreach slot0 hbit
  obtain rfl := Option.some_inj.mp (hconn.symm.trans hid)
  obtain rfl := Option.some_inj.mp (he.symm.trans he')
  exact absurd (hstate.symm.trans hstate') (by simp)

end Broadcast

end Rdma
