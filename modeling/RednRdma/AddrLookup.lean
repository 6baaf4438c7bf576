/-
Connections looked up by their address (`connection.c`).

`setup_connection` enters a connection into `id_by_addr` under its source address, and does not
look whether the address is there.  The source address of an accepted connection is that of
the listener.

* `setupConnection_addr` — the key of the new record;
* `Inv.establish`, `Inv.disconnect` — the table is that of the live connections, no address
  twice;
* `faithful_iff` — a lookup returns the connection asked for as long as no address is shared
  and each disconnect finds its own record;
* `accepted_twice` — two connections from one listener.
-/
import RednRdma.Records

namespace Rdma

open Multimap

/-- `find_connection_by_addr`. -/
def findConnectionByAddr (A : Lookup SockaddrIn IdRecord) (s : Option Context)
    (addr : SockaddrIn) : Except Stop ℕ := do
  let s ← deref s
  match A.find s.idByAddr addr with
  | some entry => return entry.id
  | none => throw (.rcDie "hash lookup failed; id doesn't exist")

/-- The record at the head of `id_by_addr` is under the source address. -/
theorem setupConnection_addr {v : Verbs} {s : Option Context} {id : RdmaCmId}
    {params : Option RdmaConnParam} {s' : Context} {c : Conn}
    (h : setupConnection v s id params = .ok (s', c)) :
    ∃ addr, copyIpv4Sockaddr id.srcStorage = some addr ∧
      (s'.idByAddr.head?.map Prod.fst) = some addr := by
  rw [setupConnection] at h
  obtain ⟨ctx₀, -, h⟩ := Except.bind_eq_ok.mp h
  obtain ⟨⟨s₁, ctx₁⟩, -, h⟩ := Except.bind_eq_ok.mp h
  obtain ⟨ctx₂, -, h⟩ := Except.bind_eq_ok.mp h
  obtain ⟨ctx₃, -, h⟩ := Except.bind_eq_ok.mp h
  obtain ⟨pd, -, h⟩ := Except.bind_eq_ok.mp h
  split at h
  · exact absurd h (by simp)
  · split at h
    · exact absurd h (by simp)
    · rename_i addr haddr
      obtain ⟨rfl, -⟩ := Prod.mk.inj (Except.ok.inj h)
      exact ⟨addr, haddr, rfl⟩

namespace AddrLookup

/-- The process: its tables, and the connections that are set up and not disconnected. -/
structure State where
  tables : Option Context := none
  conns : List (RdmaCmId × Conn) := []

inductive Act
  /-- `setup_connection` on the way to a server. -/
  | connect (v : Verbs) (id : RdmaCmId)
  /-- `setup_connection` for a request that the listener takes. -/
  | accept (v : Verbs) (id : RdmaCmId) (params : RdmaConnParam)
  /-- `rc_disconnect`. -/
  | disconnect (handle : ℕ)

/-- The same process, its connections without their addresses. -/
def State.records (s : State) : Records.State where
  tables := s.tables
  conns := s.conns.map fun e => (e.1.handle, e.2)

def establish (s : State) (v : Verbs) (id : RdmaCmId) (params : Option RdmaConnParam) :
    Option State :=
  match setupConnection v s.tables id params with
  | .ok (tables, c) =>
    if Records.Promised s.records id.handle c then
      some { tables := some tables, conns := (id, c) :: s.conns }
    else none
  | .error _ => none

section

variable (L : Lookup UInt32 IdRecord) (A : Lookup SockaddrIn IdRecord)
  (listener : SockaddrStorage)

def step (s : State) : Act → Option State
  | .connect v id => establish s v id none
  | .accept v id params =>
    if id.srcStorage = listener then establish s v id (some params) else none
  | .disconnect handle =>
    match s.conns.find? fun e => e.1.handle = handle with
    | some (_, c) =>
      match rcDisconnect L s.tables c.ctx with
      | .ok (tables, _) =>
        some { tables := some tables, conns := s.conns.filter fun e => e.1.handle ≠ handle }
      | .error _ => none
    | none => none

/-- Looked up by its source address, every live connection is found. -/
def Faithful (s : State) : Prop :=
  ∀ e ∈ s.conns, ∀ addr, copyIpv4Sockaddr e.1.srcStorage = some addr →
    findConnectionByAddr A s.tables addr = .ok e.1.handle

/-- The source address of a new connection is that of no live one, and the record that a
disconnect finds under the number of the queue pair is the connection's own. -/
def Unshared (s : State) : Act → Prop
  | .connect _ id | .accept _ id _ =>
    ∀ e ∈ s.conns, copyIpv4Sockaddr e.1.srcStorage ≠ copyIpv4Sockaddr id.srcStorage
  | .disconnect handle =>
    ∀ e ∈ s.conns, e.1.handle = handle →
      ∀ r ∈ L.find (s.tables.getD {}).idByQp e.2.ctx.qpNum, r.id = handle

instance (s : State) (a : Act) : Decidable (Unshared L s a) := by
  cases a with
  | connect v id => exact inferInstanceAs (Decidable (∀ e ∈ s.conns, _))
  | accept v id params => exact inferInstanceAs (Decidable (∀ e ∈ s.conns, _))
  | disconnect handle => exact inferInstanceAs (Decidable (∀ e ∈ s.conns, _))

end

/-! ### The invariant -/

/-- The tables are those of the records of the live connections, newest first, and no source
address is live twice. -/
structure Inv (s : State) (recs : List IdRecord) : Prop where
  byQp : (s.tables.getD {}).idByQp = keyed IdRecord.qpNum recs
  byAddr : (s.tables.getD {}).idByAddr = keyed IdRecord.addr recs
  conns : (recs.map fun r => (r.id, r.qpNum, some r.addr)) =
    s.conns.map fun e => (e.1.handle, e.2.ctx.qpNum, copyIpv4Sockaddr e.1.srcStorage)
  handles : (recs.map IdRecord.id).Nodup
  addrs : (recs.map IdRecord.addr).Nodup
  tables : s.tables = none → s.conns = []

theorem init_inv : Inv {} [] where
  byQp := rfl
  byAddr := rfl
  conns := rfl
  handles := List.nodup_nil
  addrs := List.nodup_nil
  tables := fun _ => rfl

/-- `r` is the record of the connection `e`. -/
def RecordOf (r : IdRecord) (e : RdmaCmId × Conn) : Prop :=
  r.id = e.1.handle ∧ r.qpNum = e.2.ctx.qpNum ∧ copyIpv4Sockaddr e.1.srcStorage = some r.addr

variable {L : Lookup UInt32 IdRecord} {A : Lookup SockaddrIn IdRecord}
  {listener : SockaddrStorage} {s s' : State} {recs : List IdRecord}

theorem Inv.exists_record (h : Inv s recs) {e : RdmaCmId × Conn} (he : e ∈ s.conns) :
    ∃ r ∈ recs, RecordOf r e := by
  have hmem := List.mem_map_of_mem (f := fun e : RdmaCmId × Conn =>
    (e.1.handle, e.2.ctx.qpNum, copyIpv4Sockaddr e.1.srcStorage)) he
  rw [← h.conns] at hmem
  obtain ⟨r, hr, heq⟩ := List.mem_map.mp hmem
  obtain ⟨hid, hrest⟩ := Prod.mk.inj heq
  obtain ⟨hqp, haddr⟩ := Prod.mk.inj hrest
  exact ⟨r, hr, hid, hqp, haddr.symm⟩

theorem Inv.exists_conn (h : Inv s recs) {r : IdRecord} (hr : r ∈ recs) :
    ∃ e ∈ s.conns, RecordOf r e := by
  have hmem := List.mem_map_of_mem (f := fun r : IdRecord => (r.id, r.qpNum, some r.addr)) hr
  rw [h.conns] at hmem
  obtain ⟨e, he, heq⟩ := List.mem_map.mp hmem
  obtain ⟨hid, hrest⟩ := Prod.mk.inj heq
  obtain ⟨hqp, haddr⟩ := Prod.mk.inj hrest
  exact ⟨e, he, hid.symm, hqp.symm, haddr⟩

theorem Inv.exists_tables (h : Inv s recs) {e : RdmaCmId × Conn} (he : e ∈ s.conns) :
    ∃ t, s.tables = some t := by
  cases ht : s.tables with
  | none => exact absurd he (by simp [h.tables ht])
  | some t => exact ⟨t, rfl⟩

/-- What a lookup in the process's table returns. -/
theorem findConnectionByAddr_eq {t : Context} (ht : s.tables = some t) {addr : SockaddrIn}
    {handle : ℕ} :
    findConnectionByAddr A s.tables addr = .ok handle ↔
      ∃ r, A.find t.idByAddr addr = some r ∧ r.id = handle := by
  rw [findConnectionByAddr, ht]
  simp only [deref, bind, Except.bind]
  cases A.find t.idByAddr addr with
  | none => simp [throw, throwThe, MonadExceptOf.throw]
  | some r => simp [pure, Except.pure]

theorem Inv.faithful (h : Inv s recs) : Faithful A s := by
  intro e he addr haddr
  obtain ⟨t, ht⟩ := h.exists_tables he
  obtain ⟨r, hr, hid, -, hsrc⟩ := h.exists_record he
  obtain rfl : addr = r.addr := Option.some_inj.mp (haddr.symm.trans hsrc)
  have hbyAddr := h.byAddr
  rw [ht] at hbyAddr
  refine (findConnectionByAddr_eq ht).mpr ⟨r, ?_, hid⟩
  rw [show t.idByAddr = _ from hbyAddr]
  exact Lookup.find_keyed h.addrs hr

/-! ### A connection is set up -/

theorem establish_eq_some {v : Verbs} {id : RdmaCmId} {params : Option RdmaConnParam}
    (hs : establish s v id params = some s') :
    ∃ tables c, setupConnection v s.tables id params = .ok (tables, c) ∧
      Records.Promised s.records id.handle c ∧
      s' = { tables := some tables, conns := (id, c) :: s.conns } := by
  rw [establish] at hs
  split at hs
  · rename_i tables c hsetup
    split at hs
    · rename_i hprom
      exact ⟨tables, c, hsetup, hprom, (Option.some_inj.mp hs).symm⟩
    · exact absurd hs (by simp)
  · exact absurd hs (by simp)

theorem handle_ne {id : RdmaCmId} {c : Conn} (hprom : Records.Promised s.records id.handle c)
    {e : RdmaCmId × Conn} (he : e ∈ s.conns) : e.1.handle ≠ id.handle :=
  (hprom (e.1.handle, e.2) (List.mem_map_of_mem (f := fun e : RdmaCmId × Conn =>
    (e.1.handle, e.2)) he)).1

theorem Inv.establish {v : Verbs} {id : RdmaCmId} {params : Option RdmaConnParam}
    (h : Inv s recs)
    (hc : ∀ e ∈ s.conns, copyIpv4Sockaddr e.1.srcStorage ≠ copyIpv4Sockaddr id.srcStorage)
    (hs : establish s v id params = some s') : ∃ recs', Inv s' recs' := by
  obtain ⟨tables, c, hsetup, hprom, rfl⟩ := establish_eq_some hs
  obtain ⟨r, hid, hqp, hbyQp, hbyAddr⟩ := setupConnection_tables hsetup
  obtain ⟨addr, hsrc, hhead⟩ := setupConnection_addr hsetup
  rw [hbyAddr] at hhead
  obtain rfl : r.addr = addr := Option.some_inj.mp hhead
  refine ⟨r :: recs, ?_, ?_, ?_, ?_, ?_, fun hnone => absurd hnone (by simp)⟩
  · show tables.idByQp = _
    rw [hbyQp, h.byQp]
    rfl
  · show tables.idByAddr = _
    rw [hbyAddr, h.byAddr]
    rfl
  · rw [List.map_cons, List.map_cons, h.conns, hid, hqp, hsrc]
  · rw [List.map_cons, List.nodup_cons]
    refine ⟨?_, h.handles⟩
    intro hmem
    obtain ⟨r', hr', heq⟩ := List.mem_map.mp hmem
    obtain ⟨e, he, hid', -⟩ := h.exists_conn hr'
    exact handle_ne hprom he (by rw [← hid', heq, hid])
  · rw [List.map_cons, List.nodup_cons]
    refine ⟨?_, h.addrs⟩
    intro hmem
    obtain ⟨r', hr', heq⟩ := List.mem_map.mp hmem
    obtain ⟨e, he, -, -, hsrc'⟩ := h.exists_conn hr'
    exact hc e he (by rw [hsrc', hsrc, heq])

/-- Of two connections with one address a lookup finds one. -/
theorem not_faithful_of_establish {v : Verbs} {id : RdmaCmId} {params : Option RdmaConnParam}
    (hc : ¬ ∀ e ∈ s.conns, copyIpv4Sockaddr e.1.srcStorage ≠ copyIpv4Sockaddr id.srcStorage)
    (hs : establish s v id params = some s') : ¬ Faithful A s' := by
  obtain ⟨tables, c, hsetup, hprom, rfl⟩ := establish_eq_some hs
  obtain ⟨addr, hsrc, -⟩ := setupConnection_addr hsetup
  obtain ⟨e, he, hsame⟩ : ∃ e ∈ s.conns,
      copyIpv4Sockaddr e.1.srcStorage = copyIpv4Sockaddr id.srcStorage := by
    simpa only [not_forall, not_not, exists_prop] using hc
  intro hfaithful
  have hnew := hfaithful (id, c) List.mem_cons_self addr hsrc
  have hold := hfaithful e (List.mem_cons_of_mem _ he) addr (hsame.trans hsrc)
  exact handle_ne hprom he (Except.ok.inj (hold.symm.trans hnew))

/-! ### A connection is disconnected -/

/-- The connection, and the record that its queue pair's number finds, which goes from the
tables. -/
theorem step_disconnect_eq_some {handle : ℕ}
    (hs : step L listener s (.disconnect handle) = some s') :
    ∃ e ∈ s.conns, e.1.handle = handle ∧ ∃ t r, s.tables = some t ∧
      L.find t.idByQp e.2.ctx.qpNum = some r ∧
      s' = { tables := some { t with
               idByQp := t.idByQp.erase (r.qpNum, r)
               idByAddr := t.idByAddr.erase (r.addr, r) }
             conns := s.conns.filter fun e => e.1.handle ≠ handle } := by
  simp only [step] at hs
  split at hs
  · rename_i id c hfound
    have he : (id, c) ∈ s.conns := List.mem_of_find?_eq_some hfound
    have hhandle : id.handle = handle := by simpa using List.find?_some hfound
    refine ⟨(id, c), he, hhandle, ?_⟩
    cases ht : s.tables with
    | none =>
      rw [ht] at hs
      simp [rcDisconnect, deref, bind, Except.bind] at hs
    | some t =>
      rw [ht] at hs
      cases hfind : L.find t.idByQp c.ctx.qpNum with
      | none =>
        rw [← rcSetState_qpNum c.ctx .terminated] at hfind
        simp [rcDisconnect, deref, bind, Except.bind, hfind, throw, throwThe,
          MonadExceptOf.throw] at hs
      | some r =>
        obtain ⟨ctx', hdisc⟩ := rcDisconnect_tables hfind
        rw [hdisc] at hs
        exact ⟨t, r, rfl, hfind, (Option.some_inj.mp hs).symm⟩
  · exact absurd hs (by simp)

/-- Records and connections go together. -/
theorem Inv.filter (h : Inv s recs) (handle : ℕ) :
    ((recs.filter fun r => r.id ≠ handle).map fun r => (r.id, r.qpNum, some r.addr)) =
      (s.conns.filter fun e => e.1.handle ≠ handle).map fun e =>
        (e.1.handle, e.2.ctx.qpNum, copyIpv4Sockaddr e.1.srcStorage) := by
  have hfilter := congrArg
    (List.filter fun x : ℕ × UInt32 × Option SockaddrIn => x.1 ≠ handle) h.conns
  rw [List.filter_map, List.filter_map] at hfilter
  exact hfilter

/-- A record is the only one with its handle. -/
theorem Inv.erase_eq_filter (h : Inv s recs) {r : IdRecord} (hr : r ∈ recs) :
    recs.erase r = recs.filter fun r' => r'.id ≠ r.id := by
  rw [(List.Nodup.of_map _ h.handles).erase_eq_filter]
  refine List.filter_congr ?_
  intro r' hr'
  by_cases heq : r' = r
  · simp [heq]
  · have hne : r'.id ≠ r.id := fun hid => heq (List.inj_on_of_nodup_map h.handles hr' hr hid)
    simp [heq, hne]

/-- What a disconnect does to the tables of the records: the one it finds is taken out. -/
theorem Inv.disconnect_eq {handle : ℕ} (h : Inv s recs)
    (hs : step L listener s (.disconnect handle) = some s') :
    ∃ e ∈ s.conns, e.1.handle = handle ∧ ∃ r ∈ recs,
      L.find (s.tables.getD {}).idByQp e.2.ctx.qpNum = some r ∧
      s'.conns = s.conns.filter (fun e => e.1.handle ≠ handle) ∧
      ∃ t', s'.tables = some t' ∧ t'.idByQp = keyed IdRecord.qpNum (recs.erase r) ∧
        t'.idByAddr = keyed IdRecord.addr (recs.erase r) := by
  obtain ⟨e, he, hhandle, t, r, ht, hfind, rfl⟩ := step_disconnect_eq_some hs
  have hget : s.tables.getD {} = t := by rw [ht, Option.getD_some]
  have hbyQp := hget ▸ h.byQp
  have hbyAddr := hget ▸ h.byAddr
  have hr : r ∈ recs := by
    rw [hbyQp] at hfind
    exact (Lookup.of_find_keyed hfind).1
  refine ⟨e, he, hhandle, r, hr, hget.symm ▸ hfind, rfl, _, rfl, ?_, ?_⟩
  · show t.idByQp.erase (r.qpNum, r) = _
    rw [hbyQp, erase_keyed]
  · show t.idByAddr.erase (r.addr, r) = _
    rw [hbyAddr, erase_keyed]

theorem Inv.disconnect {handle : ℕ} (h : Inv s recs) (hc : Unshared L s (.disconnect handle))
    (hs : step L listener s (.disconnect handle) = some s') : ∃ recs', Inv s' recs' := by
  obtain ⟨e, he, hhandle, r, hr, hfind, hconns, t', ht', hbyQp, hbyAddr⟩ := h.disconnect_eq hs
  have hown : r.id = handle := hc e he hhandle r hfind
  refine ⟨recs.erase r, ?_, ?_, ?_, ?_, ?_, fun hnone => absurd (ht'.symm.trans hnone) (by simp)⟩
  · rw [ht']
    exact hbyQp
  · rw [ht']
    exact hbyAddr
  · rw [h.erase_eq_filter hr, hown, hconns]
    exact h.filter handle
  · exact h.handles.sublist (List.erase_sublist.map _)
  · exact h.addrs.sublist (List.erase_sublist.map _)

/-- A record that is taken out for another connection is missed by its own. -/
theorem not_faithful_of_disconnect {handle : ℕ} (h : Inv s recs)
    (hc : ¬ Unshared L s (.disconnect handle))
    (hs : step L listener s (.disconnect handle) = some s') : ¬ Faithful A s' := by
  obtain ⟨e, he, hhandle, r, hr, hfind, hconns, t', ht', -, hbyAddr⟩ := h.disconnect_eq hs
  have hother : r.id ≠ handle := by
    intro hown
    refine hc ?_
    intro e' he' hhandle' r' hfind'
    -- there is one connection with the handle, and so one record is found
    obtain ⟨re, hre, hid, hqp, -⟩ := h.exists_record he
    obtain ⟨re', hre', hid', hqp', -⟩ := h.exists_record he'
    have hsame : re' = re := List.inj_on_of_nodup_map h.handles hre' hre
      (by rw [hid, hid', hhandle, hhandle'])
    rw [← hqp', hsame, hqp, hfind] at hfind'
    obtain rfl := Option.some_inj.mp hfind'
    exact hown
  obtain ⟨d, hd, hid, -, hsrc⟩ := h.exists_conn hr
  have hlive : d ∈ s'.conns := by
    rw [hconns, List.mem_filter]
    exact ⟨hd, by simpa [← hid] using hother⟩
  intro hfaithful
  obtain ⟨b, hb, hbid⟩ := (findConnectionByAddr_eq ht').mp (hfaithful d hlive r.addr hsrc)
  rw [hbyAddr, h.erase_eq_filter hr] at hb
  have hne := (List.mem_filter.mp (Lookup.of_find_keyed hb).1).2
  exact absurd (hbid.trans hid.symm) (by simpa using hne)

/-! ### Runs -/

theorem step_accept_eq {v : Verbs} {id : RdmaCmId} {params : RdmaConnParam}
    (hs : step L listener s (.accept v id params) = some s') :
    establish s v id (some params) = some s' := by
  simp only [step] at hs
  split at hs
  · exact hs
  · exact absurd hs (by simp)

theorem Inv.step {a : Act} (h : Inv s recs) (hc : Unshared L s a)
    (hs : AddrLookup.step L listener s a = some s') : ∃ recs', Inv s' recs' := by
  cases a with
  | connect v id => exact h.establish hc hs
  | accept v id params => exact h.establish hc (step_accept_eq hs)
  | disconnect handle => exact h.disconnect hc hs

theorem Inv.not_faithful {a : Act} (h : Inv s recs) (hc : ¬ Unshared L s a)
    (hs : AddrLookup.step L listener s a = some s') : ¬ Faithful A s' := by
  cases a with
  | connect v id => exact not_faithful_of_establish hc hs
  | accept v id params => exact not_faithful_of_establish hc (step_accept_eq hs)
  | disconnect handle => exact not_faithful_of_disconnect h hc hs

/-- **A lookup by source address is faithful** throughout a run exactly when no connection is
set up with the source address of a live one and every disconnect finds its own record. -/
theorem faithful_iff {L : Lookup UInt32 IdRecord} {A : Lookup SockaddrIn IdRecord}
    {listener : SockaddrStorage} {as : List Act} {s : State}
    (hr : Machine.run (AddrLookup.step L listener) {} as = some s) :
    Machine.Along (AddrLookup.step L listener) (Faithful A) {} as ↔
      Machine.Meets (AddrLookup.step L listener) (Unshared L) {} as := by
  refine Machine.along_iff_meets (I := fun s => ∃ recs, Inv s recs) ?_ ?_ ?_ ⟨[], init_inv⟩ hr
  · rintro t ⟨recs, hi⟩
    exact hi.faithful
  · rintro t a t' ⟨recs, hi⟩ hc hs
    exact hi.step hc hs
  · rintro t a t' ⟨recs, hi⟩ hc hs
    exact hi.not_faithful hc hs

/-- The address of the listener. -/
def listenerAddr : SockaddrStorage :=
  { family := AF_INET, ipv4 := { port := 18515, addr := 0x0a000001 } }

/-- An id that the listener hands out. -/
def acceptedId (handle : ℕ) : RdmaCmId :=
  { Records.idOn handle 5 with srcStorage := listenerAddr }

/-- A connection to a server, one that is accepted, and the first is gone. -/
def apart : List Act :=
  [.connect (Records.verbsGiving 9) (Records.idOn 1 5),
    .accept (Records.verbsGiving 10) (acceptedId 2) ⟨none, 0⟩, .disconnect 1]

theorem faithful_apart :
    Machine.Along (AddrLookup.step Lookup.first listenerAddr) (Faithful Lookup.first) {} apart := by
  obtain ⟨s, hr⟩ : ∃ s, Machine.run (AddrLookup.step Lookup.first listenerAddr) {} apart = some s :=
    ⟨_, rfl⟩
  exact (faithful_iff hr).mpr (by decide)

/-- The listener's address finds connection 2, and connection 1 is not found any more. -/
theorem accepted_twice : ∃ s e addr,
    Machine.run (AddrLookup.step Lookup.first listenerAddr) {}
      [.accept (Records.verbsGiving 9) (acceptedId 1) ⟨none, 0⟩,
        .accept (Records.verbsGiving 10) (acceptedId 2) ⟨none, 0⟩] = some s ∧
      e ∈ s.conns ∧ e.1.handle = 1 ∧ copyIpv4Sockaddr e.1.srcStorage = some addr ∧
      findConnectionByAddr Lookup.first s.tables addr = .ok 2 ∧ ¬ Faithful Lookup.first s := by
  refine ⟨_, _, _, rfl, List.mem_cons_of_mem _ List.mem_cons_self, rfl, rfl, rfl, ?_⟩
  intro hfaithful
  have hfound := hfaithful _ (List.mem_cons_of_mem _ List.mem_cons_self) _ rfl
  exact absurd (Except.ok.inj hfound) (by decide)

end AddrLookup

end Rdma
