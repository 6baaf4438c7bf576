/-
Finding a posted WQE in the ring (`verbs.c`, `mr.c`).

The self-modifying programs patch WQEs in place, through the address that
`IBV_FIND_WQE` or `IBV_GET_WQE` returns or through the region of `register_wq`.

* `lookup_blind` — after `setup_connection` no lookup sees the ring: nothing
  ever sets `sq_start` and `sq_wqe_cnt`;
* `lookup_sound_iff` — given these two fields, a run of single requests keeps
  the lookup sound exactly when no WQE is laid over the recorded start of an
  older one other than by its own first block.
-/
import RednRdma.Setup
import RednRdma.Shadow

namespace Rdma

/-! ### After setup -/

/-- The address of a block of the driver's ring. -/
def ringAddr (iqp : Mlx5dvQp) (slot : ℕ) : ℕ := iqp.sqBuf + SEND_WQE_BB * slot

/-- What a connection owes its user about the WQE posted last and the region
registered for its queue. -/
structure RingVisible (s : Context) (pd : ConnContext) (c : Conn) : Prop where
  find : ∀ iqp p, c.ctx.iqp = some iqp → c.qp.log.getLast? = some p →
    ibvFindWqe c.ctx p.data.wrId.toUInt32 = some (ringAddr iqp p.pos)
  get : ∀ iqp p, c.ctx.iqp = some iqp → c.qp.log.getLast? = some p →
    ibvGetWqe c.ctx (UInt32.ofNat p.pos) = ringAddr iqp p.pos
  region : ∀ iqp r, c.ctx.iqp = some iqp → registerWq s c.ctx pd = .ok r →
    r.addr = iqp.sqBuf ∧ r.length = iqp.sqWqeCnt.toNat * iqp.sqStride.toNat

/-- Posting leaves the fields the lookups read alone. -/
theorem ringView_run {c₀ c : Conn} {calls : List PostCall}
    (hr : Machine.run callStep c₀ calls = some c) :
    c.ctx.sqStart = c₀.ctx.sqStart ∧ c.ctx.sqWqeCnt = c₀.ctx.sqWqeCnt ∧
      c.ctx.iqp = c₀.ctx.iqp :=
  Machine.run_inv (I := fun c => c.ctx.sqStart = c₀.ctx.sqStart ∧
      c.ctx.sqWqeCnt = c₀.ctx.sqWqeCnt ∧ c.ctx.iqp = c₀.ctx.iqp)
    (fun c₁ call c₂ ⟨hstart, hcnt, hiqp⟩ hs => by
      obtain ⟨ret, hx⟩ := callStep_eq_some hs
      obtain ⟨wrs, hp, -⟩ := exec_posted hx
      exact ⟨hp.sqStart.trans hstart, hp.sqWqeCnt.trans hcnt, hp.iqp.trans hiqp⟩)
    ⟨rfl, rfl, rfl⟩ hr

theorem ibvFindWqe_of_sqWqeCnt_eq_zero {ctx : ConnContext} (h : ctx.sqWqeCnt = 0)
    (w : UInt32) : ibvFindWqe ctx w = none := by
  have hnone : findSlot ctx w = none := findSlot_eq_none.mpr (by simp [h])
  rw [ibvFindWqe, hnone]
  rfl

theorem registerWq_eq_ok {s : Context} {wq pd : ConnContext} {r : MrRequest}
    (h : registerWq s wq pd = .ok r) :
    ∃ iqp, wq.iqp = some iqp ∧ r.addr = wq.sqStart ∧
      r.length = wq.sqWqeCnt * iqp.sqStride.toNat := by
  rw [registerWq] at h
  obtain ⟨dom, -, h⟩ := Except.bind_eq_ok.mp h
  obtain ⟨iqp, hiqp, h⟩ := Except.bind_eq_ok.mp h
  obtain rfl := Except.pure_eq_ok.mp h
  exact ⟨iqp, deref_eq_ok.mp hiqp, rfl, rfl⟩

/-- **Lookups after setup are blind**: on a connection that was just set up,
after any run of posting calls, `IBV_FIND_WQE` finds no id, `IBV_GET_WQE` returns
no address of the ring, and `register_wq` registers nothing of it. -/
theorem lookup_blind {v : Verbs} {s : Option Context} {id : RdmaCmId}
    {params : Option RdmaConnParam} {s' : Context} {c₀ c : Conn} {calls : List PostCall}
    {sockfd type alwaysPoll flags : ℤ}
    (hctx : id.context = some (initContext sockfd type alwaysPoll flags))
    (hset : setupConnection v s id params = .ok (s', c₀))
    (hr : Machine.run callStep c₀ calls = some c) :
    ∃ iqp, c.ctx.iqp = some iqp ∧
      (∀ w, ibvFindWqe c.ctx w = none) ∧
      (∀ slot : UInt32, ibvGetWqe c.ctx slot ≠ ringAddr iqp slot.toNat) ∧
      (∀ s pd r, registerWq s c.ctx pd = .ok r →
        r.addr ≠ iqp.sqBuf ∧ r.length ≠ iqp.sqWqeCnt.toNat * iqp.sqStride.toNat) := by
  obtain ⟨hview, -, -, buf, hbuf, hiqp⟩ := setupConnection_ring hctx hset
  obtain ⟨hstart, hcnt, hiqp'⟩ := ringView_run hr
  have hstart0 : c.ctx.sqStart = 0 := hstart.trans hview.sqStart
  have hcnt0 : c.ctx.sqWqeCnt = 0 := hcnt.trans hview.sqWqeCnt
  refine ⟨_, hiqp'.trans hiqp, ibvFindWqe_of_sqWqeCnt_eq_zero hcnt0, ?_, ?_⟩
  · intro slot
    show c.ctx.sqStart + slot.toNat * SEND_WQE_BB ≠ buf + SEND_WQE_BB * slot.toNat
    rw [hstart0, Nat.mul_comm]
    omega
  · intro s pd r hreg
    obtain ⟨iqp, -, haddr, hlength⟩ := registerWq_eq_ok hreg
    rw [haddr, hlength, hstart0, hcnt0, Nat.zero_mul]
    refine ⟨hbuf.ne, Nat.ne_of_lt ?_⟩
    exact Nat.mul_pos (DriverQp.wqeCnt_pos _) (show 0 < (64 : UInt32).toNat by decide)

/-- A provider that creates a queue pair on `ring64`. -/
def verbs64 : Verbs where
  ibvAllocPd := some
  ibvCreateCompChannel _ := some 1
  ibvCreateCq _ _ _ := some 2
  mlx5dvInitCq _ := { cqn := 3 }
  rdmaCreateQp _ _ := some
    { qpNum := 9, queue := ring64, buf := 0x10000, queue_log := rfl, buf_pos := by decide }

/-- A client's id after `init_connection`. -/
def clientId : RdmaCmId where
  handle := 1
  verbs := 5
  srcStorage := { family := AF_INET, ipv4 := { port := 0, addr := 0x0a000001 } }
  context := some (initContext 0 1 1 0)

/-- A `SEND` with no data and the given id. -/
def emptySend (wrId : UInt64) : WorkRequest := { wrId, opcode := .send, sgList := [] }

theorem lookup_blind_emptySend : ∃ s' c₀ c,
    setupConnection verbs64 none clientId none = .ok (s', c₀) ∧
      Machine.run callStep c₀ [.post [emptySend 1]] = some c ∧ ibvFindWqe c.ctx 1 = none := by
  obtain ⟨s', c₀, hset⟩ : ∃ s' c₀, setupConnection verbs64 none clientId none = .ok (s', c₀) :=
    ⟨_, _, rfl⟩
  obtain ⟨c, hr⟩ : ∃ c, Machine.run callStep c₀ [.post [emptySend 1]] = some c := by
    obtain ⟨-, rfl⟩ := Prod.mk.inj (Except.ok.inj hset)
    exact ⟨_, rfl⟩
  obtain ⟨iqp, -, hfind, -⟩ := lookup_blind rfl hset hr
  exact ⟨s', c₀, c, hset, hr, hfind 1⟩

/-- The WQE of id 1 is at the start of the ring, and `IBV_FIND_WQE` returns
`NULL` for it. -/
theorem setup_hides_ring : ∃ s' c₀ c,
    setupConnection verbs64 none clientId none = .ok (s', c₀) ∧
      Machine.run callStep c₀ [.post [emptySend 1]] = some c ∧
      ¬ RingVisible s' c.ctx c := by
  refine ⟨_, _, _, rfl, rfl, ?_⟩
  intro h
  have hfind := h.find _ _ rfl rfl
  exact absurd hfind (by decide)

/-! ### With the ring view set -/

/-- The lookup is sound: what it returns is the first block of a WQE with that id
that is still whole, and an id whose WQE was overwritten is not found. -/
structure LookupSound (c : Conn) : Prop where
  found : ∀ w ≠ 0, ∀ a, ibvFindWqe c.ctx w = some a →
    ∃ k p, Ring.Resident c.qp.wqeCnt.toNat c.qp.log k p ∧ p.data.wrId = w.toUInt64 ∧
      a = getSendWqe c.ctx p.pos
  lost : ∀ w ≠ 0, ∀ (k : ℕ) (p : Ring.Placed WorkRequest), c.qp.log[k]? = some p →
    p.data.wrId = w.toUInt64 → ¬ Ring.Resident c.qp.wqeCnt.toNat c.qp.log k p →
    ibvFindWqe c.ctx w = none

/-- A connection nothing has been posted on, with the ring view set. -/
structure FreshView (c : Conn) : Prop where
  fresh : Fresh c
  sqWqeCnt : c.ctx.sqWqeCnt = c.qp.wqeCnt.toNat
  sqWrid : ∀ i, c.ctx.sqWrid i = 0

/-- The id is a 32-bit one, not zero, and new to the connection. -/
def NewId (c : Conn) (w : UInt64) : Prop :=
  w ≠ 0 ∧ w.toUInt32.toUInt64 = w ∧ ∀ p ∈ c.qp.log, p.data.wrId ≠ w

instance (c : Conn) (w : UInt64) : Decidable (NewId c w) :=
  inferInstanceAs (Decidable (_ ∧ _ ∧ _))

/-- One request that is not inline, under a new id. -/
def postFresh (c : Conn) (wr : WorkRequest) : Option Conn :=
  if wr.flags.inl = false ∧ NewId c wr.wrId then callStep c (.post [wr]) else none

/-- No block of the WQE about to be posted, except its first, has an id
recorded. -/
def SparesIds (c : Conn) (wr : WorkRequest) : Prop :=
  ∀ d < divRoundUp (shadowSize wr * 16) SEND_WQE_BB, 0 < d →
    c.ctx.sqWrid ((c.qp.idx + d) % c.qp.wqeCnt.toNat) = 0

instance (c : Conn) (wr : WorkRequest) : Decidable (SparesIds c wr) :=
  inferInstanceAs (Decidable (∀ d < _, 0 < d → _))

/-- What a run of single requests keeps, whatever their sizes. -/
structure RingInv (c : Conn) : Prop where
  shadow : ShadowInv c
  sqWqeCnt : c.ctx.sqWqeCnt = c.qp.wqeCnt.toNat
  wound : c.qp.Wound
  tiled : Ring.Tiled c.qp.wqeCnt.toNat c.qp.log
  len_le : ∀ p ∈ c.qp.log, p.len ≤ c.qp.wqeCnt.toNat
  ids : (c.qp.log.map fun p => p.data.wrId).Nodup
  ids_fit : ∀ p ∈ c.qp.log, p.data.wrId ≠ 0 ∧ p.data.wrId.toUInt32.toUInt64 = p.data.wrId

/-- Every recorded id is that of a whole WQE, at its first block. -/
structure LookupInv (c : Conn) : Prop where
  ring : RingInv c
  recorded : ∀ i, c.ctx.sqWrid i ≠ 0 →
    ∃ k p, Ring.Resident c.qp.wqeCnt.toNat c.qp.log k p ∧ p.pos = i ∧
      p.data.wrId = c.ctx.sqWrid i

theorem FreshView.lookupInv {c : Conn} (h : FreshView c) : LookupInv c where
  ring :=
    { shadow := h.fresh.shadowInv
      sqWqeCnt := h.sqWqeCnt
      wound := by simp [DriverQp.Wound, h.fresh.qpPost, h.fresh.log]
      tiled := by rw [h.fresh.log]; exact Ring.tiled_nil
      len_le := by simp [h.fresh.log]
      ids := by simp [h.fresh.log]
      ids_fit := by simp [h.fresh.log] }
  recorded i hi := absurd (h.sqWrid i) hi

/-- The ids tell the requests of the queue apart. -/
theorem RingInv.eq_of_wrId_eq {c : Conn} (h : RingInv c) {k m : ℕ}
    {p q : Ring.Placed WorkRequest} (hp : c.qp.log[k]? = some p) (hq : c.qp.log[m]? = some q)
    (hid : p.data.wrId = q.data.wrId) : k = m ∧ p = q := by
  have hlt : k < (c.qp.log.map fun p => p.data.wrId).length := by
    rw [List.length_map]
    exact (List.getElem?_eq_some_iff.mp hp).1
  have hkm : k = m := by
    refine (List.getElem?_inj hlt h.ids).mp ?_
    rw [List.getElem?_map, List.getElem?_map, hp, hq, Option.map_some, Option.map_some, hid]
  subst hkm
  exact ⟨rfl, Option.some_inj.mp (hp.symm.trans hq)⟩

theorem LookupInv.sound {c : Conn} (h : LookupInv c) : LookupSound c := by
  have hfound : ∀ w ≠ 0, ∀ a, ibvFindWqe c.ctx w = some a →
      ∃ k p, Ring.Resident c.qp.wqeCnt.toNat c.qp.log k p ∧ p.data.wrId = w.toUInt64 ∧
        a = getSendWqe c.ctx p.pos := by
    intro w hw a ha
    obtain ⟨i, hi, rfl⟩ := Option.map_eq_some_iff.mp ha
    obtain ⟨-, hid⟩ := findSlot_eq_some hi
    have hne : c.ctx.sqWrid i ≠ 0 := by
      rw [hid]
      exact fun h0 => hw (UInt32.toUInt64_inj.mp h0)
    obtain ⟨k, p, hres, hpos, hpid⟩ := h.recorded i hne
    exact ⟨k, p, hres, hpid.trans hid, by rw [hpos]⟩
  refine ⟨hfound, ?_⟩
  intro w hw k p hk hid hgone
  rcases hfind : ibvFindWqe c.ctx w with _ | a
  · rfl
  · -- the WQE found has the id of the one overwritten, so it is the same
    obtain ⟨m, q, hres, hqid, -⟩ := hfound w hw a hfind
    obtain ⟨rfl, rfl⟩ := h.ring.eq_of_wrId_eq hk hres.1 (hid.trans hqid.symm)
    exact absurd hres hgone

/-! ### One request -/

theorem postFresh_posted {c c' : Conn} {wr : WorkRequest} (hs : postFresh c wr = some c') :
    wr.flags.inl = false ∧ NewId c wr.wrId ∧ ∃ ret, Posted true false c ret c' [wr] := by
  rw [postFresh] at hs
  split at hs
  · rename_i hg
    obtain ⟨ret, hx⟩ := callStep_eq_some hs
    obtain ⟨wrs, hp, hands⟩ := exec_posted hx
    obtain rfl : wrs = [wr] := hands
    exact ⟨hg.1, hg.2, ret, hp⟩
  · exact absurd hs (by simp)

/-- The two views of the ring after one request: the id is recorded at the block
the driver lays the WQE out from. -/
theorem RingInv.post_eq {c c' : Conn} {wr : WorkRequest} (h : RingInv c)
    (hs : postFresh c wr = some c') :
    c'.qp.wqeCnt = c.qp.wqeCnt ∧
      c'.ctx.sqWrid = Function.update c.ctx.sqWrid c.qp.idx wr.wrId ∧
      c'.qp.log = c.qp.log ++
        [⟨c.qp.idx, divRoundUp (shadowSize wr * 16) SEND_WQE_BB, wr⟩] ∧
      divRoundUp (shadowSize wr * 16) SEND_WQE_BB ≤ c.qp.wqeCnt.toNat := by
  obtain ⟨hinl, -, ret, hp⟩ := postFresh_posted hs
  have hone : c.qp.postOne wr = some c'.qp := by
    simpa [DriverQp.postList, Option.bind_eq_some_iff] using hp.qp
  obtain ⟨size, hsize, hcnt, -, -, -, -, hlog⟩ := DriverQp.postOne_eq_some hone
  have hblocks := blocks_eq_of_sizesAgree hsize (sizesAgree_of_not_inl hinl)
  have hle := DriverQp.blocks_le hinl hsize
  rw [hblocks] at hlog hle
  obtain ⟨iqp, hiqp, hview⟩ := h.shadow.view
  obtain ⟨ctx, hup, -, hwrid⟩ := hp.shadow rfl
  refine ⟨hcnt, ?_, hlog, hle⟩
  -- both sides take the index from the same `scur_post`
  rw [hwrid, (updateScurPost_ok hiqp hup).1, h.shadow.scurPost, hview]
  rfl

theorem RingInv.step {c c' : Conn} {wr : WorkRequest} (h : RingInv c)
    (hs : postFresh c wr = some c') : RingInv c' := by
  obtain ⟨hinl, hnew, ret, hp⟩ := postFresh_posted hs
  obtain ⟨hcnt, -, hlog, hle⟩ := h.post_eq hs
  have hone : c.qp.postOne wr = some c'.qp := by
    simpa [DriverQp.postList, Option.bind_eq_some_iff] using hp.qp
  refine ⟨h.shadow.posted hp (sizesAgree_of_not_inl hinl), ?_, h.wound.postOne hone, ?_, ?_, ?_, ?_⟩
  · rw [hp.sqWqeCnt, h.sqWqeCnt, hcnt]
  · rw [hlog, hcnt]
    exact h.tiled.concat h.wound.idx_eq_total_mod
  · intro p hmem
    rw [hlog] at hmem
    rw [hcnt]
    rcases List.mem_append.mp hmem with hmem | hmem
    · exact h.len_le p hmem
    · rw [List.mem_singleton.mp hmem]
      exact hle
  · rw [hlog, List.map_append, List.nodup_append]
    refine ⟨h.ids, by simp, ?_⟩
    intro w hw w' hw' heq
    obtain ⟨p, hmem, rfl⟩ := List.mem_map.mp hw
    obtain rfl : w' = wr.wrId := by simpa using hw'
    exact hnew.2.2 p hmem heq
  · intro p hmem
    rw [hlog] at hmem
    rcases List.mem_append.mp hmem with hmem | hmem
    · exact h.ids_fit p hmem
    · rw [List.mem_singleton.mp hmem]
      exact ⟨hnew.1, hnew.2.1⟩

/-- A WQE that spares the recorded ids evicts only the one it starts over. -/
theorem LookupInv.step {c c' : Conn} {wr : WorkRequest} (h : LookupInv c)
    (hspare : SparesIds c wr) (hs : postFresh c wr = some c') : LookupInv c' := by
  obtain ⟨hcnt, hwrid, hlog, hle⟩ := h.ring.post_eq hs
  refine ⟨h.ring.step hs, ?_⟩
  intro i hi
  rw [hwrid] at hi ⊢
  rw [hlog, hcnt]
  by_cases hidx : i = c.qp.idx
  · subst hidx
    refine ⟨_, _, Ring.resident_last _ _, rfl, ?_⟩
    simp
  · rw [Function.update_of_ne hidx] at hi ⊢
    obtain ⟨k, p, hres, hpos, hid⟩ := h.recorded i hi
    refine ⟨k, p, Ring.resident_concat.mpr (Or.inl ⟨hres, ?_⟩), hpos, hid⟩
    intro hover
    -- the new WQE would have to cover the block where this id is recorded
    have hmem : p ∈ c.qp.log := List.mem_of_getElem? hres.1
    obtain ⟨d, hd, hcell⟩ := Ring.covers_of_overlap h.ring.tiled
      h.ring.wound.idx_eq_total_mod hres (h.ring.len_le p hmem) hover
    rcases Nat.eq_zero_or_pos d with rfl | hpos'
    · refine hidx ?_
      rw [← hpos, ← hcell, Nat.add_zero]
      exact (Nat.mod_eq_of_lt c.qp.idx_lt).symm ▸ rfl
    · refine hi ?_
      rw [← hpos, ← hcell]
      exact hspare d hd hpos'

/-- A WQE laid over a recorded id leaves it to be found in its own middle. -/
theorem LookupInv.unsound {c c' : Conn} {wr : WorkRequest} (h : LookupInv c)
    (hspare : ¬ SparesIds c wr) (hs : postFresh c wr = some c') : ¬ LookupSound c' := by
  intro hsound
  obtain ⟨hcnt, hwrid, hlog, hle⟩ := h.ring.post_eq hs
  have h' := h.ring.step hs
  obtain ⟨d, hd, hdpos, hne⟩ : ∃ d < divRoundUp (shadowSize wr * 16) SEND_WQE_BB, 0 < d ∧
      c.ctx.sqWrid ((c.qp.idx + d) % c.qp.wqeCnt.toNat) ≠ 0 := by
    simpa [SparesIds] using hspare
  obtain ⟨k, p, hres, hpos, hid⟩ := h.recorded _ hne
  have hmem : p ∈ c.qp.log := List.mem_of_getElem? hres.1
  obtain ⟨hw0, hfit⟩ := h.ring.ids_fit p hmem
  -- the entry is still there, at a block of the new WQE
  have hother : p.pos ≠ c.qp.idx := by
    intro heq
    have hmod : c.qp.idx % c.qp.wqeCnt.toNat = (c.qp.idx + d) % c.qp.wqeCnt.toNat := by
      rw [← hpos, heq, Nat.mod_eq_of_lt c.qp.idx_lt]
    -- the new WQE is no longer than the ring
    have := Nat.ModEq.add_le_of_lt hmod (by omega)
    omega
  have hentry : c'.ctx.sqWrid p.pos = p.data.wrId := by
    rw [hwrid, Function.update_of_ne hother, hpos, hid]
  have hlt : p.pos < c'.ctx.sqWqeCnt := by
    rw [h'.sqWqeCnt, hcnt, hpos]
    exact Nat.mod_lt _ c.qp.wqeCnt_pos
  have hw : p.data.wrId.toUInt32 ≠ 0 := fun h0 => hw0 (by rw [← hfit, h0]; rfl)
  -- so the lookup returns something, which can only be the WQE overwritten
  obtain ⟨a, ha⟩ : ∃ a, ibvFindWqe c'.ctx p.data.wrId.toUInt32 = some a := by
    rcases hfind : findSlot c'.ctx p.data.wrId.toUInt32 with _ | i
    · exact absurd (hentry.trans hfit.symm) (findSlot_eq_none.mp hfind _ hlt)
    · exact ⟨_, by rw [ibvFindWqe, hfind]; rfl⟩
  obtain ⟨m, q, hres', hqid, -⟩ := hsound.found _ hw a ha
  have hklt : k < c.qp.log.length := (List.getElem?_eq_some_iff.mp hres.1).1
  have hk : c'.qp.log[k]? = some p := by
    rw [hlog, List.getElem?_append_left hklt, hres.1]
  obtain ⟨rfl, rfl⟩ := h'.eq_of_wrId_eq hk hres'.1 (hqid.trans hfit).symm
  rw [hlog, hcnt] at hres'
  rcases Ring.resident_concat.mp hres' with ⟨-, hover⟩ | ⟨heq, -⟩
  · refine hover (Ring.overlap_of_covers (j := p.pos) ?_ ⟨d, hd, hpos.symm⟩)
    refine ⟨0, h.ring.shadow.len_pos p hmem, ?_⟩
    rw [Nat.add_zero, hpos, Nat.mod_mod]
  · omega

/-! ### Runs -/

/-- **The exact condition for sound lookups**: along a run of single requests of
any sizes `IBV_FIND_WQE` stays sound if and only if every WQE spares the ids
recorded under its later blocks. -/
theorem lookup_sound_iff {c c' : Conn} {wrs : List WorkRequest} (h : FreshView c)
    (hr : Machine.run postFresh c wrs = some c') :
    Machine.Along postFresh LookupSound c wrs ↔ Machine.Meets postFresh SparesIds c wrs :=
  Machine.along_iff_meets (fun _ hi => hi.sound) (fun _ _ _ hi hc hs => hi.step hc hs)
    (fun _ _ _ hi hc hs => hi.unsound hc hs) h.lookupInv hr

/-- A queue of four blocks. -/
def ring4 : DriverQp where
  wqeCnt := 4
  maxGs := 8
  maxInlineData := 0
  wqeCnt_pow := ⟨2, by decide, rfl⟩
  maxGs_fits := by decide

/-- A connection on it, with the ring view set. -/
def conn4 : Conn where
  ctx :=
    { iqp := some { sqBuf := 0x10000, sqWqeCnt := 4, sqStride := 64 }
      sqStart := 0x10000
      sqWqeCnt := 4 }
  qp := ring4

theorem conn4_freshView : FreshView conn4 :=
  ⟨⟨⟨_, rfl, rfl⟩, rfl, rfl, rfl⟩, rfl, fun _ => rfl⟩

/-- A `SEND` of `n` messages of 8 bytes. -/
def gatherSend (wrId : UInt64) (n : ℕ) : WorkRequest :=
  { wrId, opcode := .send, sgList := List.replicate n { addr := 0x1000, length := 8, lkey := 7 } }

theorem lookup_sound_lap :
    Machine.Along postFresh LookupSound conn4
      [gatherSend 1 1, gatherSend 2 6, gatherSend 3 1, gatherSend 4 1] :=
  (lookup_sound_iff conn4_freshView rfl).mpr (by decide)

/-- Four one-block WQEs fill the ring, and a two-block one starts the next lap:
id 2 is still found, in its second block. -/
theorem lookup_finds_interior :
    FreshView conn4 ∧ ∃ c,
      Machine.run postFresh conn4
        [gatherSend 1 1, gatherSend 2 1, gatherSend 3 1, gatherSend 4 1, gatherSend 5 6] = some c ∧
      ibvFindWqe c.ctx 2 = some (getSendWqe c.ctx 1) ∧
      c.qp.log.getLast? = some ⟨0, 2, gatherSend 5 6⟩ ∧ ¬ LookupSound c := by
  obtain ⟨c, hr⟩ : ∃ c, Machine.run postFresh conn4
      ([gatherSend 1 1, gatherSend 2 1, gatherSend 3 1, gatherSend 4 1] ++ [gatherSend 5 6]) =
        some c :=
    Option.isSome_iff_exists.mp (by decide)
  obtain ⟨c₄, h₄, hlast⟩ := (Machine.run_append_eq_some postFresh).mp hr
  have hinv : LookupInv c₄ :=
    Machine.run_inv_of_meets (fun _ _ _ hi hc hs => hi.step hc hs) conn4_freshView.lookupInv
      (by decide) h₄
  have hspare : ∀ c ∈ Machine.run postFresh conn4
        [gatherSend 1 1, gatherSend 2 1, gatherSend 3 1, gatherSend 4 1],
      ¬ SparesIds c (gatherSend 5 6) := by decide
  have hseen : ∀ c ∈ Machine.run postFresh conn4
        [gatherSend 1 1, gatherSend 2 1, gatherSend 3 1, gatherSend 4 1, gatherSend 5 6],
      ibvFindWqe c.ctx 2 = some (getSendWqe c.ctx 1) ∧
        c.qp.log.getLast? = some ⟨0, 2, gatherSend 5 6⟩ := by decide
  obtain ⟨c', hpost, hnil⟩ := (Machine.run_cons_eq_some postFresh).mp hlast
  obtain rfl := Option.some_inj.mp hnil
  exact ⟨conn4_freshView, c', hr, (hseen c' hr).1, (hseen c' hr).2,
    hinv.unsound (hspare c₄ h₄) hpost⟩

end Rdma
