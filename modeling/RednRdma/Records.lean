/-
The tables of connections (`connection.c`).

`setup_connection` enters a connection into two hash tables, by the number of its
queue pair and by its address, and `rc_disconnect` takes it out again.  A completion
is credited to the connection found under its queue pair number, in one table for all
devices, though the numbers are unique on a device only.

* `setupConnection_tables`, `rcDisconnect_tables` — what the two calls do to the tables;
* `Inv.setup`, `Inv.disconnect` — the tables are the records of the live connections;
* `credited_iff` — completions are credited to their own connection as long as no new
  queue pair has the number of a live one on another device;
* `credits_other` — two devices that give the same number.
-/
import RednRdma.Metadata
import RednRdma.Polling
import RednRdma.Lib.Machine
import RednRdma.Lib.Multimap

namespace Rdma

open Multimap

section

variable (L : Lookup UInt32 IdRecord)

/-- `find_connection_by_wc`. -/
def findConnectionByWc (s : Option Context) (wc : IbvWc) : Except Stop ℕ := do
  let s ← deref s
  match L.find s.idByQp wc.qpNum with
  | some entry => return entry.id
  | none => throw (.rcDie "hash lookup failed; id doesn't exist")

/-- `rc_disconnect`, up to where the queue pair is destroyed. -/
def rcDisconnect (s : Option Context) (ctx : ConnContext) :
    Except Stop (Context × ConnContext) := do
  let ctx := rcSetState ctx .terminated
  let s ← deref s
  match L.find s.idByQp ctx.qpNum with
  | some entry =>
    return ({ s with
      idByQp := s.idByQp.erase (entry.qpNum, entry)
      idByAddr := s.idByAddr.erase (entry.addr, entry) }, { ctx with bufferBindings := [] })
  | none => throw (.rcDie "hash delete failed; id doesn't exist")

end

section

variable {L : Lookup UInt32 IdRecord} {s : Context} {wc : IbvWc}

theorem findConnectionByWc_of_some {r : IdRecord} (h : L.find s.idByQp wc.qpNum = some r) :
    findConnectionByWc L (some s) wc = .ok r.id := by
  simp only [findConnectionByWc, deref, h, bind, Except.bind, pure, Except.pure]

theorem findConnectionByWc_of_none (h : L.find s.idByQp wc.qpNum = none) :
    findConnectionByWc L (some s) wc =
      .error (.rcDie "hash lookup failed; id doesn't exist") := by
  simp only [findConnectionByWc, deref, h, bind, Except.bind]
  rfl

end

/-- A connection that was set up is in both tables. -/
theorem setupConnection_tables {v : Verbs} {s : Option Context} {id : RdmaCmId}
    {params : Option RdmaConnParam} {s' : Context} {c : Conn}
    (h : setupConnection v s id params = .ok (s', c)) :
    ∃ r : IdRecord, r.id = id.handle ∧ r.qpNum = c.ctx.qpNum ∧
      s'.idByQp = (r.qpNum, r) :: (s.getD {}).idByQp ∧
      s'.idByAddr = (r.addr, r) :: (s.getD {}).idByAddr := by
  rw [setupConnection] at h
  obtain ⟨ctx₀, -, h⟩ := Except.bind_eq_ok.mp h
  obtain ⟨⟨s₁, ctx₁⟩, h₁, h⟩ := Except.bind_eq_ok.mp h
  obtain ⟨ctx₂, -, h⟩ := Except.bind_eq_ok.mp h
  obtain ⟨ctx₃, -, h⟩ := Except.bind_eq_ok.mp h
  obtain ⟨pd, -, h⟩ := Except.bind_eq_ok.mp h
  have htables : s₁.idByQp = (s.getD {}).idByQp ∧ s₁.idByAddr = (s.getD {}).idByAddr := by
    rcases tryBuildDevice_cases h₁ with ⟨i, -, -, rfl, -⟩ | ⟨-, -, rfl, -⟩
    · exact ⟨rfl, rfl⟩
    · exact ⟨rfl, rfl⟩
  split at h
  · exact absurd h (by simp)
  · rename_i qp hqp
    split at h
    · exact absurd h (by simp)
    · rename_i addr haddr
      obtain ⟨rfl, rfl⟩ := Prod.mk.inj (Except.ok.inj h)
      exact ⟨{ addr, qpNum := qp.qpNum, id := id.handle }, rfl, rfl,
        congrArg _ htables.1, congrArg _ htables.2⟩

theorem rcSetState_qpNum (ctx : ConnContext) (state : RcState) :
    (rcSetState ctx state).qpNum = ctx.qpNum := by
  rw [rcSetState]
  split <;> rfl

/-- The entry that is found goes from both tables. -/
theorem rcDisconnect_tables {L : Lookup UInt32 IdRecord} {s : Context} {ctx : ConnContext}
    {r : IdRecord} (hfind : L.find s.idByQp ctx.qpNum = some r) :
    ∃ ctx', rcDisconnect L (some s) ctx = .ok ({ s with
      idByQp := s.idByQp.erase (r.qpNum, r)
      idByAddr := s.idByAddr.erase (r.addr, r) }, ctx') := by
  rw [← rcSetState_qpNum ctx .terminated] at hfind
  refine ⟨{ rcSetState ctx .terminated with bufferBindings := [] }, ?_⟩
  simp only [rcDisconnect, deref, hfind, bind, Except.bind, pure, Except.pure]

namespace Records

/-- The process: its tables, and the connections that are set up and not disconnected. -/
structure State where
  tables : Option Context := none
  conns : List (ℕ × Conn) := []

inductive Act
  /-- `setup_connection`; the verbs library hands back what it likes. -/
  | setup (v : Verbs) (id : RdmaCmId) (params : Option RdmaConnParam)
  /-- `rc_disconnect`. -/
  | disconnect (handle : ℕ)

/-- The new connection is another one than those live, and on its device no live queue
pair has its number. -/
def Promised (s : State) (handle : ℕ) (c : Conn) : Prop :=
  ∀ e ∈ s.conns, e.1 ≠ handle ∧
    (e.2.ctx.devid = c.ctx.devid → e.2.ctx.qpNum ≠ c.ctx.qpNum)

instance (s : State) (handle : ℕ) (c : Conn) : Decidable (Promised s handle c) :=
  inferInstanceAs (Decidable (∀ e ∈ s.conns, _))

section

variable (L : Lookup UInt32 IdRecord)

def step (s : State) : Act → Option State
  | .setup v id params =>
    match setupConnection v s.tables id params with
    | .ok (tables, c) =>
      if Promised s id.handle c then
        some { tables := some tables, conns := (id.handle, c) :: s.conns }
      else none
    | .error _ => none
  | .disconnect handle =>
    match s.conns.find? fun e => e.1 = handle with
    | some (_, c) =>
      match rcDisconnect L s.tables c.ctx with
      | .ok (tables, _) =>
        some { tables := some tables, conns := s.conns.filter fun e => e.1 ≠ handle }
      | .error _ => none
    | none => none

/-- Each table has exactly one record per live connection, and a completion is credited to
the connection it belongs to. -/
structure Credited (s : State) : Prop where
  byQp : ((s.tables.getD {}).idByQp.map fun e => e.2.id).Perm (s.conns.map Prod.fst)
  byAddr : ((s.tables.getD {}).idByAddr.map fun e => e.2.id).Perm (s.conns.map Prod.fst)
  credit : ∀ e ∈ s.conns, ∀ wc : IbvWc, wc.qpNum = e.2.ctx.qpNum →
    findConnectionByWc L s.tables wc = .ok e.1

end

/-- A new queue pair has a number that no live one has, on whatever device. -/
def FreshQp (s : State) : Act → Prop
  | .setup v id params =>
    match setupConnection v s.tables id params with
    | .ok (_, c) => ∀ e ∈ s.conns, e.2.ctx.qpNum ≠ c.ctx.qpNum
    | .error _ => True
  | .disconnect _ => True

instance (s : State) (a : Act) : Decidable (FreshQp s a) := by
  unfold FreshQp
  split
  · split <;> infer_instance
  · infer_instance

/-! ### The invariant -/

/-- The tables are those of the records of the live connections, newest first, and no
queue pair number is live twice. -/
structure Inv (s : State) (recs : List IdRecord) : Prop where
  byQp : (s.tables.getD {}).idByQp = keyed IdRecord.qpNum recs
  byAddr : (s.tables.getD {}).idByAddr = keyed IdRecord.addr recs
  conns : (recs.map fun r => (r.id, r.qpNum)) = s.conns.map fun e => (e.1, e.2.ctx.qpNum)
  handles : (recs.map IdRecord.id).Nodup
  qpNums : (recs.map IdRecord.qpNum).Nodup
  tables : s.tables = none → s.conns = []

theorem init_inv : Inv {} [] where
  byQp := rfl
  byAddr := rfl
  conns := rfl
  handles := List.nodup_nil
  qpNums := List.nodup_nil
  tables := fun _ => rfl

section

variable {L : Lookup UInt32 IdRecord} {s s' : State} {recs : List IdRecord}

theorem Inv.handles_eq (h : Inv s recs) : recs.map IdRecord.id = s.conns.map Prod.fst := by
  have hfst := congrArg (List.map Prod.fst) h.conns
  rwa [List.map_map, List.map_map] at hfst

/-- A live connection has its record. -/
theorem Inv.exists_record (h : Inv s recs) {e : ℕ × Conn} (he : e ∈ s.conns) :
    ∃ r ∈ recs, r.id = e.1 ∧ r.qpNum = e.2.ctx.qpNum := by
  have hmem : (e.1, e.2.ctx.qpNum) ∈ recs.map fun r => (r.id, r.qpNum) := by
    rw [h.conns]
    exact List.mem_map_of_mem he
  obtain ⟨r, hr, heq⟩ := List.mem_map.mp hmem
  obtain ⟨hid, hqp⟩ := Prod.mk.inj heq
  exact ⟨r, hr, hid, hqp⟩

theorem Inv.exists_conn (h : Inv s recs) {r : IdRecord} (hr : r ∈ recs) :
    ∃ e ∈ s.conns, r.id = e.1 ∧ r.qpNum = e.2.ctx.qpNum := by
  have hmem : (r.id, r.qpNum) ∈ s.conns.map fun e => (e.1, e.2.ctx.qpNum) := by
    rw [← h.conns]
    exact List.mem_map_of_mem hr
  obtain ⟨e, he, heq⟩ := List.mem_map.mp hmem
  obtain ⟨hid, hqp⟩ := Prod.mk.inj heq
  exact ⟨e, he, hid.symm, hqp.symm⟩

theorem Inv.exists_tables (h : Inv s recs) {e : ℕ × Conn} (he : e ∈ s.conns) :
    ∃ t, s.tables = some t := by
  cases ht : s.tables with
  | none => exact absurd he (by simp [h.tables ht])
  | some t => exact ⟨t, rfl⟩

theorem Inv.credited (h : Inv s recs) : Credited L s := by
  refine ⟨?_, ?_, ?_⟩
  · rw [h.byQp, keyed, List.map_map, ← h.handles_eq]
    exact List.Perm.refl _
  · rw [h.byAddr, keyed, List.map_map, ← h.handles_eq]
    exact List.Perm.refl _
  · intro e he wc hwc
    obtain ⟨t, ht⟩ := h.exists_tables he
    obtain ⟨r, hr, hid, hqp⟩ := h.exists_record he
    have hfind : L.find t.idByQp wc.qpNum = some r := by
      have hbyQp := h.byQp
      rw [ht] at hbyQp
      rw [show t.idByQp = _ from hbyQp, hwc, ← hqp]
      exact Lookup.find_keyed h.qpNums hr
    rw [ht, ← hid]
    exact findConnectionByWc_of_some hfind

theorem step_setup_eq_some {v : Verbs} {id : RdmaCmId} {params : Option RdmaConnParam}
    (hs : step L s (.setup v id params) = some s') :
    ∃ tables c, setupConnection v s.tables id params = .ok (tables, c) ∧
      Promised s id.handle c ∧
      s' = { tables := some tables, conns := (id.handle, c) :: s.conns } := by
  simp only [step] at hs
  split at hs
  · rename_i tables c hsetup
    split at hs
    · rename_i hprom
      exact ⟨tables, c, hsetup, hprom, (Option.some_inj.mp hs).symm⟩
    · exact absurd hs (by simp)
  · exact absurd hs (by simp)

theorem Inv.setup {v : Verbs} {id : RdmaCmId} {params : Option RdmaConnParam}
    (h : Inv s recs) (hc : FreshQp s (.setup v id params))
    (hs : step L s (.setup v id params) = some s') : ∃ r, Inv s' (r :: recs) := by
  obtain ⟨tables, c, hsetup, hprom, rfl⟩ := step_setup_eq_some hs
  obtain ⟨r, hid, hqp, hbyQp, hbyAddr⟩ := setupConnection_tables hsetup
  have hfresh : ∀ e ∈ s.conns, e.2.ctx.qpNum ≠ c.ctx.qpNum := by
    simpa only [FreshQp, hsetup] using hc
  refine ⟨r, ?_, ?_, ?_, ?_, ?_, fun hnone => absurd hnone (by simp)⟩
  · show tables.idByQp = _
    rw [hbyQp, h.byQp]
    rfl
  · show tables.idByAddr = _
    rw [hbyAddr, h.byAddr]
    rfl
  · rw [List.map_cons, List.map_cons, h.conns, hid, hqp]
  · rw [List.map_cons, List.nodup_cons, h.handles_eq, hid]
    refine ⟨?_, h.handles_eq ▸ h.handles⟩
    intro hmem
    obtain ⟨e, he, heq⟩ := List.mem_map.mp hmem
    exact (hprom e he).1 heq
  · rw [List.map_cons, List.nodup_cons]
    refine ⟨?_, h.qpNums⟩
    intro hmem
    obtain ⟨r', hr', heq⟩ := List.mem_map.mp hmem
    obtain ⟨e, he, -, hqp'⟩ := h.exists_conn hr'
    exact hfresh e he (by rw [← hqp', heq, hqp])

/-- Records and connections go together. -/
theorem Inv.filter (h : Inv s recs) (handle : ℕ) :
    ((recs.filter fun r => r.id ≠ handle).map fun r => (r.id, r.qpNum)) =
      (s.conns.filter fun e => e.1 ≠ handle).map fun e => (e.1, e.2.ctx.qpNum) := by
  have hfilter := congrArg (List.filter fun x : ℕ × UInt32 => x.1 ≠ handle) h.conns
  rw [List.filter_map, List.filter_map] at hfilter
  exact hfilter

theorem Inv.disconnect {handle : ℕ} (h : Inv s recs)
    (hs : step L s (.disconnect handle) = some s') :
    ∃ recs', Inv s' recs' := by
  simp only [step] at hs
  split at hs
  · rename_i handle' c hfound
    have he : (handle', c) ∈ s.conns := List.mem_of_find?_eq_some hfound
    have hhandle : handle' = handle := by simpa using List.find?_some hfound
    obtain ⟨t, ht⟩ := h.exists_tables he
    obtain ⟨r, hr, hid, hqp⟩ := h.exists_record he
    have hbyQp := h.byQp
    have hbyAddr := h.byAddr
    rw [ht] at hs hbyQp hbyAddr
    change t.idByQp = _ at hbyQp
    change t.idByAddr = _ at hbyAddr
    -- the record found is the connection's own
    have hfind : L.find t.idByQp c.ctx.qpNum = some r := by
      rw [hbyQp, ← hqp]
      exact Lookup.find_keyed h.qpNums hr
    obtain ⟨ctx', hdisc⟩ := rcDisconnect_tables hfind
    rw [hdisc] at hs
    obtain rfl := Option.some_inj.mp hs
    have hnodup : recs.Nodup := List.Nodup.of_map _ h.handles
    have herase : recs.erase r = recs.filter fun r' => r'.id ≠ handle := by
      rw [hnodup.erase_eq_filter]
      refine List.filter_congr ?_
      intro r' hr'
      by_cases heq : r' = r
      · simp [heq, hid, hhandle]
      · have hne : r'.id ≠ handle := by
          intro hid'
          refine heq (List.inj_on_of_nodup_map h.handles hr' hr ?_)
          rw [hid', hid, hhandle]
        simp [heq, hne]
    refine ⟨recs.erase r, ?_, ?_, ?_, ?_, ?_, fun hnone => absurd hnone (by simp)⟩
    · show t.idByQp.erase (r.qpNum, r) = _
      rw [hbyQp, erase_keyed]
    · show t.idByAddr.erase (r.addr, r) = _
      rw [hbyAddr, erase_keyed]
    · rw [herase]
      exact h.filter handle
    · exact h.handles.sublist (List.erase_sublist.map _)
    · exact h.qpNums.sublist (List.erase_sublist.map _)
  · exact absurd hs (by simp)

theorem Inv.step {a : Act} (h : Inv s recs) (hc : FreshQp s a)
    (hs : Records.step L s a = some s') : ∃ recs', Inv s' recs' := by
  cases a with
  | setup v id params =>
    obtain ⟨r, hr⟩ := h.setup hc hs
    exact ⟨_, hr⟩
  | disconnect handle => exact h.disconnect hs

/-- With a number that is live twice, one of the two gets the other's completions. -/
theorem not_credited {a : Act} (hc : ¬ FreshQp s a) (hs : Records.step L s a = some s') :
    ¬ Credited L s' := by
  cases a with
  | disconnect handle => exact absurd trivial hc
  | setup v id params =>
    obtain ⟨tables, c, hsetup, hprom, rfl⟩ := step_setup_eq_some hs
    obtain ⟨e, he, hqp⟩ : ∃ e ∈ s.conns, e.2.ctx.qpNum = c.ctx.qpNum := by
      simpa only [FreshQp, hsetup, not_forall, not_not, exists_prop] using hc
    intro hcred
    let wc : IbvWc := { wrId := 0, recv := false, qpNum := c.ctx.qpNum }
    have hnew := hcred.credit (id.handle, c) List.mem_cons_self wc rfl
    have hold := hcred.credit e (List.mem_cons_of_mem _ he) wc hqp.symm
    exact (hprom e he).1 (Except.ok.inj (hold.symm.trans hnew))

/-- **Completions are credited to their own connection**, and the tables have one record
per live connection, throughout a run exactly when every new queue pair has a number
that no live queue pair has on any device. -/
theorem credited_iff {as : List Act} (hr : Machine.run (Records.step L) {} as = some s) :
    Machine.Along (Records.step L) (Credited L) {} as ↔
      Machine.Meets (Records.step L) FreshQp {} as := by
  refine Machine.along_iff_meets (I := fun s => ∃ recs, Inv s recs) ?_ ?_ ?_ ⟨[], init_inv⟩ hr
  · rintro t ⟨recs, hi⟩
    exact hi.credited
  · rintro t a t' ⟨recs, hi⟩ hc hs
    exact hi.step hc hs
  · intro t a t' _ hc hs
    exact not_credited hc hs

end

/-! ### Two devices -/

theorem ring64_log : ring64.log = [] := rfl

/-- A verbs library whose next queue pair has a given number. -/
def verbsGiving (qpNum : UInt32) : Verbs where
  ibvAllocPd verbs := some (verbs + 100)
  ibvCreateCompChannel _ := some 1
  ibvCreateCq _ _ _ := some 2
  mlx5dvInitCq _ := { cqn := 3 }
  rdmaCreateQp _ _ := some
    { qpNum, queue := ring64, buf := 0x20000, queue_log := ring64_log, buf_pos := by decide }

/-- The id of a client on a device. -/
def idOn (handle verbs : ℕ) : RdmaCmId where
  handle
  verbs
  srcStorage := { family := AF_INET, ipv4 := { port := 0, addr := 0x0a000001 } }
  context := some (initContext handle 0 1 0)

/-- Two devices whose numbers differ, one connection on each. -/
theorem credited_apart :
    Machine.Along (Records.step Lookup.first) (Credited Lookup.first) {}
      [.setup (verbsGiving 9) (idOn 1 5) none, .setup (verbsGiving 10) (idOn 2 6) none,
        .disconnect 1] := by
  obtain ⟨s, hr⟩ : ∃ s, Machine.run (Records.step Lookup.first) {}
      [.setup (verbsGiving 9) (idOn 1 5) none, .setup (verbsGiving 10) (idOn 2 6) none,
        .disconnect 1] = some s := ⟨_, rfl⟩
  exact (credited_iff hr).mpr (by decide)

/-- Both devices give the number 9: a completion of connection 1 is credited to
connection 2. -/
theorem credits_other : ∃ s c,
    Machine.run (Records.step Lookup.first) {}
      [.setup (verbsGiving 9) (idOn 1 5) none, .setup (verbsGiving 9) (idOn 2 6) none] = some s ∧
      (1, c) ∈ s.conns ∧ c.ctx.qpNum = 9 ∧ c.ctx.devid = 0 ∧
      findConnectionByWc Lookup.first s.tables { wrId := 0, recv := false, qpNum := 9 } = .ok 2 :=
  ⟨_, _, rfl, List.mem_cons_of_mem _ List.mem_cons_self, rfl, rfl, rfl⟩

end Records

end Rdma
