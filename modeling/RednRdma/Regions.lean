/-
Registering memory for a connection (`mr.c`), and the parameters it offers to the peer
(`connection.c`).

`mr_register` runs once a connection is set up.  A data region is registered the first
time and kept in `mr_regions`, for every later connection of the process; the message
buffers are registered for each connection.  `build_rc_params` advertises the regions.

* `mrRegister_eq_ok` — where each region of the connection comes from, and what
  `mr_register` leaves alone;
* `buildRcParams_eq_ok` — the metadata is that of the local regions;
* `inOwnDomain_iff` — every region of every connection is registered in the domain of
  that connection exactly when no connection takes a region from the cache that another
  device has registered.
-/
import RednRdma.Records

namespace Rdma

abbrev IBV_ACCESS_LOCAL_WRITE : ℕ := 1
abbrev IBV_ACCESS_REMOTE_WRITE : ℕ := 2
abbrev IBV_ACCESS_REMOTE_READ : ℕ := 4
abbrev IBV_ACCESS_REMOTE_ATOMIC : ℕ := 8

/-- `sizeof(struct message)`. -/
abbrev SIZEOF_MESSAGE : ℕ := 48

/-- `mr_regions`: the data regions the process has registered. -/
abbrev MrRegions := Fin MAX_MR → Option IbvMr

/-- What one call of `mr_register` gets from the verbs library and the allocator: the two
keys of its `k`-th registration, the address of its `k`-th buffer. -/
structure Registrar where
  ibvRegMr : ℕ → MrRequest → Option (UInt32 × UInt32)
  posixMemalign : ℕ → ℕ → Option UInt64

/-- `ibv_reg_mr`, which reads through the domain it is given. -/
def Registrar.regMr (v : Registrar) (k : ℕ) (r : MrRequest) : Except Stop (Option IbvMr) := do
  let pd ← deref r.pd
  return (v.ibvRegMr k r).map fun keys =>
    { addr := r.addr.toUInt64, length := r.length.toUInt64, lkey := keys.1, rkey := keys.2, pd }

/-- Data region `i` is registered once, and kept. -/
def registerOnce (v : Registrar) (s : Context) (ctx : ConnContext) (m : MrContext)
    (regions : MrRegions) (i : Fin MAX_MR) : Except Stop MrRegions :=
  match regions i with
  | some _ => .ok regions
  | none => do
    dieIf (m.physical ≠ 0) "physical MRs not supported"
    let pd ← rcGetPd s ctx
    let mr ← v.regMr i
      { pd, addr := m.addr.toNat, length := m.length.toNat
        access := IBV_ACCESS_LOCAL_WRITE ||| IBV_ACCESS_REMOTE_WRITE |||
          IBV_ACCESS_REMOTE_ATOMIC ||| IBV_ACCESS_REMOTE_READ }
    return Function.update regions i mr

/-- A turn of the loop of `mr_register` over the data regions. -/
def registerRegion (v : Registrar) (s : Context) (mrs : ℕ → MrContext)
    (st : MrRegions × ConnContext) (i : ℕ) : Except Stop (MrRegions × ConnContext) :=
  if h : i < MAX_MR then do
    let regions ← registerOnce v s st.2 (mrs i) st.1 ⟨i, h⟩
    match regions ⟨i, h⟩ with
    | none => .error (.rcDie "ibv_reg_mr failed")
    | some mr =>
      .ok (regions, { st.2 with
        localMr := Function.update st.2.localMr ⟨i, h⟩ (some mr)
        localMrReady := Function.update st.2.localMrReady ⟨i, h⟩ true })
  else .error (.rcDie "memory region type outside of MAX_MR")

/-- A message buffer of the connection: allocated, then registered. -/
def registerMessage (v : Registrar) (s : Context) (ctx : ConnContext) (k size access : ℕ) :
    Except Stop (UInt64 × IbvMr) := do
  match v.posixMemalign k size with
  | none => .error (.rcDie "posix_memalign failed")
  | some addr =>
    let pd ← rcGetPd s ctx
    match ← v.regMr (MAX_MR + k) { pd, addr := addr.toNat, length := size, access } with
    | none => .error (.rcDie "ibv_reg_mr failed")
    | some mr => .ok (addr, mr)

/-- A turn of the loop of `mr_register` over the message buffers. -/
def registerBuffer (v : Registrar) (s : Context) (msgSize : ℕ) (ctx : ConnContext)
    (i : Fin MAX_BUFFER) : Except Stop ConnContext := do
  let size := SIZEOF_MESSAGE + msgSize
  let send ← registerMessage v s ctx (2 * i) size IBV_ACCESS_LOCAL_WRITE
  let rcv ← registerMessage v s ctx (2 * i + 1) size
    (IBV_ACCESS_LOCAL_WRITE ||| IBV_ACCESS_REMOTE_WRITE)
  return { ctx with
    msgSend := Function.update ctx.msgSend i send.1
    msgSendMr := Function.update ctx.msgSendMr i (some send.2)
    msgRcv := Function.update ctx.msgRcv i rcv.1
    msgRcvMr := Function.update ctx.msgRcvMr i (some rcv.2) }

/-- `mr_register`. -/
def mrRegister (v : Registrar) (s : Context) (regions : MrRegions) (ctx : ConnContext)
    (mrs : ℕ → MrContext) (numMrs : ℤ) (msgSize : ℕ) : Except Stop (MrRegions × ConnContext) := do
  let (regions, ctx) ←
    (List.range numMrs.toNat).foldlM (registerRegion v s mrs) (regions, ctx)
  let ctx := { ctx with localMrToSync := findFirstSetBit ctx.localMrReady }
  let ctx ← (List.finRange MAX_BUFFER).foldlM (registerBuffer v s msgSize) ctx
  return (regions, ctx)

/-- `build_rc_params`: the metadata, and its length. -/
def buildRcParams (numMrs : ℤ) (ctx : ConnContext) : Except Stop RdmaConnParam := do
  let rcMeta : RcMetadata :=
    { flags := ctx.flags, type := ctx.appType, mrCount := numMrs
      addr := fun _ => 0, length := fun _ => 0, rkey := fun _ => 0 }
  let rcMeta ← (List.range rcMeta.mrCount.toNat).foldlM (fun rcMeta i => do
    if h : i < MAX_MR then
      let mr ← deref (ctx.localMr ⟨i, h⟩)
      return { rcMeta with
        addr := Function.update rcMeta.addr ⟨i, h⟩ mr.addr
        length := Function.update rcMeta.length ⟨i, h⟩ mr.length
        rkey := Function.update rcMeta.rkey ⟨i, h⟩ mr.rkey }
    else throw .fault) rcMeta
  dieIf (RC_METADATA_SIZE > 56) "metadata length greater than max allowed size\n"
  return { privateData := some rcMeta, privateDataLen := RC_METADATA_SIZE }

/-! ### What registration does -/

/-- Registering touches the tables of local regions and the message buffers only. -/
def Registering (ctx ctx' : ConnContext) : Prop :=
  ctx' = { ctx with
    localMr := ctx'.localMr
    localMrReady := ctx'.localMrReady
    localMrToSync := ctx'.localMrToSync
    msgSend := ctx'.msgSend
    msgSendMr := ctx'.msgSendMr
    msgRcv := ctx'.msgRcv
    msgRcvMr := ctx'.msgRcvMr }

theorem Registering.trans {a b c : ConnContext} (h : Registering a b) (h' : Registering b c) :
    Registering a c := by
  rw [Registering] at h h'
  rw [h] at h'
  exact h'

theorem rcGetPd_congr {s : Context} {ctx ctx' : ConnContext} (h : ctx'.devid = ctx.devid) :
    rcGetPd s ctx' = rcGetPd s ctx := by
  rw [rcGetPd, rcGetPd, h]

theorem Registering.devid {ctx ctx' : ConnContext} (h : Registering ctx ctx') :
    ctx'.devid = ctx.devid := by
  rw [h]

/-- The first `n` data regions: each is in the cache and in the connection, and is the one
cached before or one registered in the connection's domain. -/
structure Registration (s : Context) (regions regions' : MrRegions) (ctx ctx' : ConnContext)
    (n : ℕ) : Prop where
  count : n ≤ MAX_MR
  region : ∀ i : Fin MAX_MR, i.val < n → ∃ mr, regions' i = some mr ∧
    ctx'.localMr i = some mr ∧ ctx'.localMrReady i = true ∧
    (regions i = some mr ∨ regions i = none ∧ rcGetPd s ctx = .ok (some mr.pd))
  rest : ∀ i : Fin MAX_MR, n ≤ i.val → regions' i = regions i ∧
    ctx'.localMr i = ctx.localMr i ∧ ctx'.localMrReady i = ctx.localMrReady i
  frame : Registering ctx ctx'

section

variable {v : Registrar} {s : Context} {mrs : ℕ → MrContext} {regions regions' : MrRegions}
  {ctx ctx' : ConnContext}

theorem regMr_eq_ok {k : ℕ} {r : MrRequest} {mr : IbvMr} (h : v.regMr k r = .ok (some mr)) :
    r.pd = some mr.pd := by
  obtain ⟨pd, hpd, h⟩ := Except.bind_eq_ok.mp h
  rw [Except.pure_eq_ok, Option.map_eq_some_iff] at h
  obtain ⟨keys, -, rfl⟩ := h
  exact deref_eq_ok.mp hpd

theorem registerOnce_eq_ok {m : MrContext} {i : Fin MAX_MR} {mr : IbvMr}
    (h : registerOnce v s ctx m regions i = .ok regions') (hmr : regions' i = some mr) :
    (regions i = some mr ∨ regions i = none ∧ rcGetPd s ctx = .ok (some mr.pd)) ∧
      regions' = Function.update regions i (some mr) := by
  rw [registerOnce] at h
  split at h
  · obtain rfl := Except.ok.inj h
    exact ⟨Or.inl hmr, (Function.update_eq_self_iff.mpr hmr.symm).symm⟩
  · rename_i hnone
    obtain ⟨-, -, h⟩ := Except.bind_eq_ok.mp h
    obtain ⟨pd, hpd, h⟩ := Except.bind_eq_ok.mp h
    obtain ⟨mr', hmr', h⟩ := Except.bind_eq_ok.mp h
    obtain rfl := Except.pure_eq_ok.mp h
    rw [Function.update_self] at hmr
    subst hmr
    obtain rfl : pd = some mr.pd := regMr_eq_ok hmr'
    exact ⟨Or.inr ⟨hnone, hpd⟩, rfl⟩

theorem registerRegion_eq_ok {i : ℕ}
    (h : registerRegion v s mrs (regions, ctx) i = .ok (regions', ctx')) :
    ∃ (hi : i < MAX_MR) (mr : IbvMr),
      (regions ⟨i, hi⟩ = some mr ∨
        regions ⟨i, hi⟩ = none ∧ rcGetPd s ctx = .ok (some mr.pd)) ∧
      regions' = Function.update regions ⟨i, hi⟩ (some mr) ∧
      ctx' = { ctx with
        localMr := Function.update ctx.localMr ⟨i, hi⟩ (some mr)
        localMrReady := Function.update ctx.localMrReady ⟨i, hi⟩ true } := by
  rw [registerRegion] at h
  split at h
  · rename_i hi
    obtain ⟨regions₁, h₁, h⟩ := Except.bind_eq_ok.mp h
    split at h
    · exact absurd h (by simp)
    · rename_i mr hmr
      obtain ⟨rfl, rfl⟩ := Prod.mk.inj (Except.ok.inj h)
      obtain ⟨horigin, hregions⟩ := registerOnce_eq_ok h₁ hmr
      exact ⟨hi, mr, horigin, hregions, rfl⟩
  · exact absurd h (by simp)

theorem registerRegions_eq_ok {n : ℕ}
    (h : (List.range n).foldlM (registerRegion v s mrs) (regions, ctx) = .ok (regions', ctx')) :
    Registration s regions regions' ctx ctx' n := by
  induction n generalizing regions' ctx' with
  | zero =>
    obtain ⟨rfl, rfl⟩ := Prod.mk.inj (Except.ok.inj h)
    exact ⟨Nat.zero_le _, fun i hi => absurd hi (Nat.not_lt_zero _), fun i _ => ⟨rfl, rfl, rfl⟩,
      rfl⟩
  | succ n ih =>
    rw [List.range_succ, List.foldlM_append] at h
    obtain ⟨⟨regions₁, ctx₁⟩, h₁, h⟩ := Except.bind_eq_ok.mp h
    have hfirst := ih h₁
    rw [List.foldlM_cons] at h
    obtain ⟨⟨regions₂, ctx₂⟩, h₂, h⟩ := Except.bind_eq_ok.mp h
    obtain ⟨rfl, rfl⟩ := Prod.mk.inj (Except.ok.inj h)
    obtain ⟨hn, mr, horigin, rfl, rfl⟩ := registerRegion_eq_ok h₂
    have hrest := hfirst.rest ⟨n, hn⟩ (le_refl n)
    rw [hrest.1, rcGetPd_congr hfirst.frame.devid] at horigin
    refine ⟨hn, ?_, ?_, ?_⟩
    · intro i hi
      by_cases heq : i = ⟨n, hn⟩
      · subst heq
        exact ⟨mr, Function.update_self .., Function.update_self .., Function.update_self ..,
          horigin⟩
      · have hne : i.val ≠ n := fun hval => heq (Fin.ext hval)
        obtain ⟨mr', hmr'⟩ := hfirst.region i (by omega)
        refine ⟨mr', ?_⟩
        simpa only [Function.update_of_ne heq] using hmr'
    · intro i hi
      have hne : i ≠ ⟨n, hn⟩ := by
        rintro rfl
        exact absurd hi (Nat.not_succ_le_self n)
      simpa only [Function.update_of_ne hne] using hfirst.rest i (by omega)
    · exact hfirst.frame.trans rfl

theorem registerBuffer_eq_ok {msgSize : ℕ} {i : Fin MAX_BUFFER}
    (h : registerBuffer v s msgSize ctx i = .ok ctx') :
    Registering ctx ctx' ∧ ctx'.localMr = ctx.localMr ∧ ctx'.localMrReady = ctx.localMrReady := by
  obtain ⟨send, -, h⟩ := Except.bind_eq_ok.mp h
  obtain ⟨rcv, -, h⟩ := Except.bind_eq_ok.mp h
  obtain rfl := Except.pure_eq_ok.mp h
  exact ⟨rfl, rfl, rfl⟩

theorem registerBuffers_eq_ok {msgSize : ℕ} {is : List (Fin MAX_BUFFER)}
    (h : is.foldlM (registerBuffer v s msgSize) ctx = .ok ctx') :
    Registering ctx ctx' ∧ ctx'.localMr = ctx.localMr ∧ ctx'.localMrReady = ctx.localMrReady := by
  induction is generalizing ctx with
  | nil =>
    obtain rfl := Except.ok.inj h
    exact ⟨rfl, rfl, rfl⟩
  | cons i is ih =>
    rw [List.foldlM_cons] at h
    obtain ⟨ctx₁, h₁, h⟩ := Except.bind_eq_ok.mp h
    obtain ⟨hframe, hmr, hready⟩ := registerBuffer_eq_ok h₁
    obtain ⟨hframe', hmr', hready'⟩ := ih h
    exact ⟨hframe.trans hframe', hmr'.trans hmr, hready'.trans hready⟩

/-- `mr_register`. -/
theorem mrRegister_eq_ok {numMrs : ℤ} {msgSize : ℕ}
    (h : mrRegister v s regions ctx mrs numMrs msgSize = .ok (regions', ctx')) :
    Registration s regions regions' ctx ctx' numMrs.toNat := by
  obtain ⟨⟨regions₁, ctx₁⟩, h₁, h⟩ := Except.bind_eq_ok.mp h
  obtain ⟨ctx₂, h₂, h⟩ := Except.bind_eq_ok.mp h
  obtain ⟨rfl, rfl⟩ := Prod.mk.inj (Except.pure_eq_ok.mp h)
  have hdata := registerRegions_eq_ok h₁
  obtain ⟨hframe, hmr, hready⟩ := registerBuffers_eq_ok h₂
  have hsync : Registering ctx₁ { ctx₁ with
      localMrToSync := findFirstSetBit ctx₁.localMrReady } := rfl
  refine ⟨hdata.count, ?_, ?_, (hdata.frame.trans hsync).trans hframe⟩
  · intro i hi
    rw [hmr, hready]
    exact hdata.region i hi
  · intro i hi
    rw [hmr, hready]
    exact hdata.rest i hi

end

/-- The key of a request is that of the region it names. -/
theorem withLkey_lkey {mr : IbvMr} {sges sges' : List Sge}
    (h : withLkey (some mr) sges = .ok sges') : ∀ sge ∈ sges', sge.lkey = mr.lkey := by
  unfold withLkey at h
  split at h
  · obtain rfl := Except.pure_eq_ok.mp h
    exact fun sge hsge => absurd hsge List.not_mem_nil
  · obtain ⟨mr', hmr', h⟩ := Except.bind_eq_ok.mp h
    obtain rfl := Option.some_inj.mp (deref_eq_ok.mp hmr')
    obtain rfl := Except.pure_eq_ok.mp h
    intro sge hsge
    obtain ⟨sge', -, rfl⟩ := List.mem_map.mp hsge
    rfl

/-- The metadata of a connection is that of its local regions. -/
theorem buildRcParams_eq_ok {numMrs : ℤ} {ctx : ConnContext} {params : RdmaConnParam}
    (h : buildRcParams numMrs ctx = .ok params) :
    params.privateDataLen = RC_METADATA_SIZE ∧ ∃ rcMeta, params.privateData = some rcMeta ∧
      rcMeta.flags = ctx.flags ∧ rcMeta.type = ctx.appType ∧ rcMeta.mrCount = numMrs ∧
      ∀ i : Fin MAX_MR, i.val < numMrs.toNat → ∃ mr, ctx.localMr i = some mr ∧
        rcMeta.addr i = mr.addr ∧ rcMeta.length i = mr.length ∧ rcMeta.rkey i = mr.rkey := by
  have hturns : ∀ (n : ℕ) (m m' : RcMetadata), (List.range n).foldlM (fun rcMeta i =>
      if h : i < MAX_MR then do
        let mr ← deref (ctx.localMr ⟨i, h⟩)
        Except.ok { rcMeta with
          addr := Function.update rcMeta.addr ⟨i, h⟩ mr.addr
          length := Function.update rcMeta.length ⟨i, h⟩ mr.length
          rkey := Function.update rcMeta.rkey ⟨i, h⟩ mr.rkey }
      else Except.error Stop.fault) m = .ok m' →
      m'.flags = m.flags ∧ m'.type = m.type ∧ m'.mrCount = m.mrCount ∧
      ∀ i : Fin MAX_MR, i.val < n → ∃ mr, ctx.localMr i = some mr ∧
        m'.addr i = mr.addr ∧ m'.length i = mr.length ∧ m'.rkey i = mr.rkey := by
    intro n
    induction n with
    | zero =>
      intro m m' h
      obtain rfl := Except.ok.inj h
      exact ⟨rfl, rfl, rfl, fun i hi => absurd hi (Nat.not_lt_zero _)⟩
    | succ n ih =>
      intro m m' h
      rw [List.range_succ, List.foldlM_append] at h
      obtain ⟨m₁, h₁, h⟩ := Except.bind_eq_ok.mp h
      obtain ⟨hflags, htype, hcount, hentry⟩ := ih m m₁ h₁
      rw [List.foldlM_cons] at h
      obtain ⟨m₂, h₂, h⟩ := Except.bind_eq_ok.mp h
      obtain rfl := Except.ok.inj h
      split at h₂
      · rename_i hn
        obtain ⟨mr, hmr, h₂⟩ := Except.bind_eq_ok.mp h₂
        obtain rfl := Except.ok.inj h₂
        refine ⟨hflags, htype, hcount, ?_⟩
        intro i hi
        by_cases heq : i = ⟨n, hn⟩
        · subst heq
          exact ⟨mr, deref_eq_ok.mp hmr, Function.update_self .., Function.update_self ..,
            Function.update_self ..⟩
        · have hne : i.val ≠ n := fun hval => heq (Fin.ext hval)
          simpa only [Function.update_of_ne heq] using hentry i (by omega)
      · exact absurd h₂ (by simp)
  obtain ⟨rcMeta, hloop, h⟩ := Except.bind_eq_ok.mp h
  obtain ⟨-, -, h⟩ := Except.bind_eq_ok.mp h
  obtain rfl := Except.pure_eq_ok.mp h
  obtain ⟨hflags, htype, hcount, hentry⟩ := hturns _ _ rcMeta hloop
  exact ⟨rfl, rcMeta, rfl, hflags, htype, hcount, hentry⟩

/-! ### The device of a connection -/

/-- `j` is the place of a device in the table `t'` that has come from `t`. -/
structure OnDevice (t t' : Context) (verbs : ℕ) (j : Fin MAX_DEVICES) : Prop where
  lt : j.val < t'.nDev
  ctx : t'.ctx j = some verbs
  grown : ∀ k : Fin MAX_DEVICES, k.val < t.nDev →
    k.val < t'.nDev ∧ t'.ctx k = t.ctx k ∧ t'.pd k = t.pd k
  only : ∀ k : Fin MAX_DEVICES, k.val < t'.nDev → k.val < t.nDev ∨ k = j
  fresh : ∀ k : Fin MAX_DEVICES, k.val < t.nDev → t.ctx k = some verbs → j.val < t.nDev

theorem tryBuildDevice_onDevice {v : Verbs} {s : Option Context} {s' : Context} {verbs : ℕ}
    {ctx ctx' : ConnContext} (h : tryBuildDevice v s verbs ctx = .ok (s', ctx')) :
    ∃ j : Fin MAX_DEVICES, ctx' = { ctx with devid := j.val } ∧
      OnDevice (s.getD {}) s' verbs j := by
  rcases tryBuildDevice_cases h with ⟨j, hj, hctx, rfl, rfl⟩ | ⟨hroom, hnew, rfl, rfl⟩
  · exact ⟨j, rfl, hj, hctx, fun k hk => ⟨hk, rfl, rfl⟩, fun k hk => Or.inl hk, fun _ _ _ => hj⟩
  · refine ⟨⟨_, hroom⟩, rfl, Nat.lt_succ_self _, Function.update_self .., ?_, ?_, ?_⟩
    · intro k hk
      have hne : k ≠ ⟨(s.getD {}).nDev, hroom⟩ := by
        rintro rfl
        exact absurd hk (lt_irrefl _)
      exact ⟨Nat.lt_succ_of_lt hk, Function.update_of_ne hne .., Function.update_of_ne hne ..⟩
    · intro k hk
      rcases Nat.lt_succ_iff_lt_or_eq.mp hk with hlt | heq
      · exact Or.inl hlt
      · exact Or.inr (Fin.ext heq)
    · intro k hk hctx
      exact absurd hctx (hnew k hk)

theorem rcGetPd_device {t : Context} {ctx : ConnContext} {j : Fin MAX_DEVICES}
    (h : ctx.devid = j.val) : rcGetPd t ctx = .ok (t.pd j) := by
  have hle : ¬ ctx.devid > MAX_DEVICES - 1 := by omega
  have hread : 0 ≤ ctx.devid ∧ ctx.devid.toNat < MAX_DEVICES := by omega
  have hval : ctx.devid.toNat = j.val := by omega
  have hfin : (⟨ctx.devid.toNat, hread.2⟩ : Fin MAX_DEVICES) = j := Fin.ext hval
  rw [rcGetPd, dieIf, decide_eq_false hle, readAt, dif_pos hread, hfin]
  rfl

/-- A connection that is set up has a device, and no local region yet. -/
theorem setupConnection_onDevice {v : Verbs} {s : Option Context} {id : RdmaCmId}
    {params : Option RdmaConnParam} {s' : Context} {c : Conn} {ctx : ConnContext}
    (hctx : id.context = some ctx) (h : setupConnection v s id params = .ok (s', c)) :
    c.ctx.localMrReady = ctx.localMrReady ∧
      ∃ j : Fin MAX_DEVICES, c.ctx.devid = j.val ∧ OnDevice (s.getD {}) s' id.verbs j := by
  obtain ⟨s₁, ctx₁, ctx₂, hbuild, htake, hqueue, hnDev, hctxs, hpd⟩ := setupConnection_eq_ok hctx h
  obtain ⟨j, rfl, hdev⟩ := tryBuildDevice_onDevice hbuild
  have hkeep : ctx₂.localMrReady = ctx.localMrReady ∧ ctx₂.devid = j.val := by
    rcases takeMetadata_eq_ok htake with ⟨-, rfl⟩ | ⟨rcMeta, -, -, rfl⟩
    · exact ⟨rfl, rfl⟩
    · exact ⟨rfl, rfl⟩
  rw [hqueue]
  refine ⟨hkeep.1, j, hkeep.2, ?_⟩
  obtain ⟨hlt, hcj, hgrown, honly, hfresh⟩ := hdev
  rw [← hnDev] at hlt honly
  rw [← hctxs] at hcj
  refine ⟨hlt, hcj, ?_, honly, hfresh⟩
  rw [hnDev, hctxs, hpd]
  exact hgrown

namespace Regions

/-- The process: its tables, its cache of regions, and the connections it has set up. -/
structure State where
  tables : Option Context := none
  regions : MrRegions := fun _ => none
  conns : List ConnContext := []

/-- A connection to be set up: its id and what `init_connection` is called with, the
metadata of the peer, the regions of the application, and what the library hands back. -/
structure Act where
  verbs : Verbs
  registrar : Registrar
  id : RdmaCmId
  sockfd : ℤ
  type : ℤ
  alwaysPoll : ℤ
  flags : ℤ
  params : Option RdmaConnParam
  mrs : ℕ → MrContext
  numMrs : ℤ
  msgSize : ℕ

/-- The id with its context. -/
def Act.cmId (a : Act) : RdmaCmId :=
  { a.id with context := some (initContext a.sockfd a.type a.alwaysPoll a.flags) }

/-- A protection domain is allocated for one device only. -/
def Apart (t : Context) : Prop :=
  ∀ i j : Fin MAX_DEVICES, t.pd i ≠ none → t.pd i = t.pd j → i = j

instance (t : Context) : Decidable (Apart t) :=
  inferInstanceAs (Decidable (∀ _ _ : Fin MAX_DEVICES, _))

/-- `setup_connection`, and `mr_register` from the callback. -/
def step (s : State) (a : Act) : Option State :=
  match setupConnection a.verbs s.tables a.cmId a.params with
  | .error _ => none
  | .ok (tables, c) =>
    match mrRegister a.registrar tables s.regions c.ctx a.mrs a.numMrs a.msgSize with
    | .error _ => none
    | .ok (regions, ctx) =>
      if Apart tables then some { tables := some tables, regions, conns := ctx :: s.conns }
      else none

/-- Region `i` of the connection is `mr`, of the domain `rc_get_pd` returns. -/
def LocalIn (s : State) (ctx : ConnContext) (i : Fin MAX_MR) (mr : IbvMr) : Prop :=
  ctx.localMr i = some mr ∧
    (deref s.tables).bind (fun t => rcGetPd t ctx) = .ok (some mr.pd)

/-- Every region of every connection was registered in the connection's own domain, so the
keys that go into its requests and to its peer are valid there. -/
structure InOwnDomain (s : State) : Prop where
  region : ∀ ctx ∈ s.conns, ∀ i, ctx.localMrReady i = true → ∃ mr, LocalIn s ctx i mr
  lkey : ∀ ctx ∈ s.conns, ∀ i, ctx.localMrReady i = true → ∀ sges sges',
    withLkey (ctx.localMr i) sges = .ok sges' →
    ∀ sge ∈ sges', ∃ mr, LocalIn s ctx i mr ∧ sge.lkey = mr.lkey
  rkey : ∀ ctx ∈ s.conns, ∀ i, ctx.localMrReady i = true → ∀ numMrs params rcMeta,
    buildRcParams numMrs ctx = .ok params → params.privateData = some rcMeta →
    i.val < numMrs.toNat → ∃ mr, LocalIn s ctx i mr ∧ rcMeta.rkey i = mr.rkey

/-- The keys are those of the regions. -/
theorem inOwnDomain_of_region {s : State}
    (h : ∀ ctx ∈ s.conns, ∀ i, ctx.localMrReady i = true → ∃ mr, LocalIn s ctx i mr) :
    InOwnDomain s := by
  refine ⟨h, ?_, ?_⟩
  · intro ctx hctx i hi sges sges' hkeys sge hsge
    obtain ⟨mr, hmr⟩ := h ctx hctx i hi
    exact ⟨mr, hmr, withLkey_lkey (hmr.1 ▸ hkeys) sge hsge⟩
  · intro ctx hctx i hi numMrs params rcMeta hbuild hdata hlt
    obtain ⟨mr, hmr⟩ := h ctx hctx i hi
    obtain ⟨-, rcMeta', hdata', -, -, -, hentry⟩ := buildRcParams_eq_ok hbuild
    obtain rfl : rcMeta' = rcMeta := Option.some_inj.mp (hdata'.symm.trans hdata)
    obtain ⟨mr', hmr', -, -, hrkey⟩ := hentry i hlt
    obtain rfl : mr' = mr := Option.some_inj.mp (hmr'.symm.trans hmr.1)
    exact ⟨mr', hmr, hrkey⟩

/-- Of the regions the connection needs, those in the cache are of its own device. -/
def OwnRegions (s : State) (a : Act) : Prop :=
  ∀ i : Fin MAX_MR, i.val < a.numMrs.toNat → ∀ mr ∈ s.regions i,
    ∃ j : Fin MAX_DEVICES, j.val < (s.tables.getD {}).nDev ∧
      (s.tables.getD {}).ctx j = some a.id.verbs ∧ (s.tables.getD {}).pd j = some mr.pd

instance (s : State) (a : Act) : Decidable (OwnRegions s a) :=
  inferInstanceAs (Decidable (∀ _ : Fin MAX_MR, _))

/-- No device is in the table twice, every cached region has a device, and so has every
connection. -/
structure Inv (s : State) : Prop where
  devices : ∀ i j : Fin MAX_DEVICES, i.val < (s.tables.getD {}).nDev →
    j.val < (s.tables.getD {}).nDev → (s.tables.getD {}).ctx i = (s.tables.getD {}).ctx j → i = j
  regions : ∀ i, ∀ mr, s.regions i = some mr →
    ∃ j : Fin MAX_DEVICES, j.val < (s.tables.getD {}).nDev ∧
      (s.tables.getD {}).pd j = some mr.pd
  devid : ∀ ctx ∈ s.conns, s.tables ≠ none ∧
    ∃ j : Fin MAX_DEVICES, ctx.devid = j.val ∧ j.val < (s.tables.getD {}).nDev
  own : ∀ ctx ∈ s.conns, ∀ i, ctx.localMrReady i = true → ∃ mr, LocalIn s ctx i mr

theorem init_inv : Inv {} where
  devices := fun i j hi => absurd hi (Nat.not_lt_zero _)
  regions := fun i mr h => absurd h (by simp)
  devid := fun ctx h => absurd h List.not_mem_nil
  own := fun ctx h => absurd h List.not_mem_nil

/-- What a step does: the connection gets its device, then its regions. -/
theorem step_eq_some {s s' : State} {a : Act} (hs : step s a = some s') :
    ∃ (tables : Context) (regions : MrRegions) (c ctx : ConnContext) (j : Fin MAX_DEVICES),
      s' = { tables := some tables, regions, conns := ctx :: s.conns } ∧
      Apart tables ∧ OnDevice (s.tables.getD {}) tables a.id.verbs j ∧
      c.devid = j.val ∧ (∀ i, c.localMrReady i = false) ∧
      Registration tables s.regions regions c ctx a.numMrs.toNat := by
  rw [step] at hs
  split at hs
  · exact absurd hs (by simp)
  · rename_i tables c hsetup
    split at hs
    · exact absurd hs (by simp)
    · rename_i regions ctx hreg
      split at hs
      · rename_i hapart
        obtain ⟨hready, j, hdevid, hdev⟩ := setupConnection_onDevice rfl hsetup
        exact ⟨tables, regions, c.ctx, ctx, j, (Option.some_inj.mp hs).symm, hapart, hdev, hdevid,
          fun i => congrFun hready i, mrRegister_eq_ok hreg⟩
      · exact absurd hs (by simp)

section

variable {s s' : State} {a : Act}

/-- Once all its regions are of its device, a connection that was just set up is as it
should be. -/
theorem registration_own {tables : Context} {regions regions' : MrRegions}
    {c ctx : ConnContext} {j : Fin MAX_DEVICES} {n : ℕ} (hdevid : c.devid = j.val)
    (hready : ∀ i, c.localMrReady i = false)
    (hreg : Registration tables regions regions' c ctx n)
    (hown : ∀ i : Fin MAX_MR, i.val < n → ∀ mr, regions i = some mr →
      tables.pd j = some mr.pd) (i : Fin MAX_MR) (hi : ctx.localMrReady i = true) :
    ∃ mr, ctx.localMr i = some mr ∧ rcGetPd tables ctx = .ok (some mr.pd) := by
  have hlt : i.val < n := by
    by_contra hge
    have hrest := (hreg.rest i (by omega)).2.2
    rw [hi, hready i] at hrest
    exact absurd hrest (by simp)
  obtain ⟨mr, -, hmr, -, horigin⟩ := hreg.region i hlt
  refine ⟨mr, hmr, ?_⟩
  rw [rcGetPd_congr hreg.frame.devid]
  rcases horigin with hcached | ⟨-, hpd⟩
  · rw [rcGetPd_device hdevid, hown i hlt mr hcached]
  · exact hpd

/-- The device table, one connection on. -/
theorem Inv.devices_next (h : Inv s) {tables : Context} {j : Fin MAX_DEVICES} {verbs : ℕ}
    (hdev : OnDevice (s.tables.getD {}) tables verbs j) (i k : Fin MAX_DEVICES)
    (hi : i.val < tables.nDev) (hk : k.val < tables.nDev)
    (heq : tables.ctx i = tables.ctx k) : i = k := by
  -- an old entry for the device is the one that was found
  have hold : ∀ m : Fin MAX_DEVICES, m.val < (s.tables.getD {}).nDev →
      tables.ctx m = tables.ctx j → m = j := by
    intro m hm hmj
    rw [(hdev.grown m hm).2.1, hdev.ctx] at hmj
    have hj := hdev.fresh m hm hmj
    refine h.devices m j hm hj ?_
    rw [hmj, ← hdev.ctx, (hdev.grown j hj).2.1]
  rcases hdev.only i hi with hi' | rfl
  · rcases hdev.only k hk with hk' | rfl
    · rw [(hdev.grown i hi').2.1, (hdev.grown k hk').2.1] at heq
      exact h.devices i k hi' hk' heq
    · exact hold i hi' heq
  · rcases hdev.only k hk with hk' | rfl
    · exact (hold k hk' heq.symm).symm
    · rfl

theorem Inv.step (h : Inv s) (hc : OwnRegions s a) (hs : Regions.step s a = some s') :
    Inv s' := by
  obtain ⟨tables, regions, c, ctx, j, rfl, -, hdev, hdevid, hready, hreg⟩ := step_eq_some hs
  have hdevices := h.devices_next hdev
  refine ⟨hdevices, ?_, ?_, ?_⟩
  · intro i mr hmr
    show ∃ k : Fin MAX_DEVICES, k.val < tables.nDev ∧ tables.pd k = some mr.pd
    have hcached : ∀ mr, s.regions i = some mr →
        ∃ k : Fin MAX_DEVICES, k.val < tables.nDev ∧ tables.pd k = some mr.pd := by
      intro mr hold
      obtain ⟨k, hk, hpd⟩ := h.regions i mr hold
      obtain ⟨hlt, -, hpd'⟩ := hdev.grown k hk
      exact ⟨k, hlt, hpd'.trans hpd⟩
    by_cases hi : i.val < a.numMrs.toNat
    · obtain ⟨mr', hmr', -, -, horigin⟩ := hreg.region i hi
      obtain rfl : mr' = mr := Option.some_inj.mp (hmr'.symm.trans hmr)
      rcases horigin with hold | ⟨-, hpd⟩
      · exact hcached mr' hold
      · rw [rcGetPd_device hdevid] at hpd
        exact ⟨j, hdev.lt, Except.ok.inj hpd⟩
    · exact hcached mr ((hreg.rest i (by omega)).1 ▸ hmr)
  · intro ctx' hctx'
    refine ⟨Option.some_ne_none _, ?_⟩
    rcases List.mem_cons.mp hctx' with rfl | hmem
    · exact ⟨j, hreg.frame.devid.trans hdevid, hdev.lt⟩
    · obtain ⟨-, k, hk, hlt⟩ := h.devid ctx' hmem
      exact ⟨k, hk, (hdev.grown k hlt).1⟩
  · intro ctx' hctx' i hi
    show ∃ mr, ctx'.localMr i = some mr ∧ rcGetPd tables ctx' = .ok (some mr.pd)
    rcases List.mem_cons.mp hctx' with rfl | hmem
    · refine registration_own hdevid hready hreg ?_ i hi
      intro i hi mr hmr
      obtain ⟨k, hk, hverbs, hpd⟩ := hc i hi mr hmr
      obtain ⟨hlt, hctx, hpd'⟩ := hdev.grown k hk
      -- the device is in the table once
      obtain rfl : k = j := by
        refine hdevices k j hlt hdev.lt ?_
        rw [hctx, hverbs, hdev.ctx]
      exact hpd'.trans hpd
    · -- nothing changes for the connections already there
      obtain ⟨hsome, k, hk, hlt⟩ := h.devid ctx' hmem
      obtain ⟨mr, hmr, hpd⟩ := h.own ctx' hmem i hi
      obtain ⟨t, ht⟩ := Option.ne_none_iff_exists'.mp hsome
      have hgrown := hdev.grown k hlt
      rw [ht] at hpd hgrown
      refine ⟨mr, hmr, ?_⟩
      rw [rcGetPd_device hk, hgrown.2.2, ← rcGetPd_device hk]
      exact hpd

/-- A region of another device. -/
theorem not_inOwnDomain (h : Inv s) (hc : ¬ OwnRegions s a)
    (hs : Regions.step s a = some s') : ¬ InOwnDomain s' := by
  obtain ⟨tables, regions, c, ctx, j, rfl, hapart, hdev, hdevid, -, hreg⟩ := step_eq_some hs
  intro hown
  refine hc ?_
  intro i hi mr hmr
  obtain ⟨mr', hmr', hlocal, hready, horigin⟩ := hreg.region i hi
  have hmr : s.regions i = some mr := hmr
  obtain rfl : mr' = mr := by
    rcases horigin with hold | ⟨hnone, -⟩
    · exact Option.some_inj.mp (hold.symm.trans hmr)
    · exact absurd (hnone.symm.trans hmr) (by simp)
  obtain ⟨mr'', hlocal', hpd⟩ := hown.region ctx List.mem_cons_self i hready
  obtain rfl : mr' = mr'' := Option.some_inj.mp (hlocal.symm.trans hlocal')
  have hpdj : tables.pd j = some mr'.pd := by
    have hget : rcGetPd tables ctx = .ok (some mr'.pd) := hpd
    rw [rcGetPd_congr hreg.frame.devid, rcGetPd_device hdevid] at hget
    exact Except.ok.inj hget
  obtain ⟨k, hk, hpdk⟩ := h.regions i mr' hmr
  obtain ⟨-, hctx, hpd'⟩ := hdev.grown k hk
  -- the domain is that of one device
  obtain rfl : k = j := by
    refine hapart k j ?_ ?_
    · rw [hpd', hpdk]
      exact Option.some_ne_none _
    · rw [hpd', hpdk, hpdj]
  exact ⟨k, hk, hctx.symm.trans hdev.ctx, hpdk⟩

/-- **Every local region is in the domain of its connection** throughout a run exactly
when every region that a connection takes from the cache is of its own device. -/
theorem inOwnDomain_iff {as : List Act} (hr : Machine.run step {} as = some s) :
    Machine.Along step InOwnDomain {} as ↔ Machine.Meets step OwnRegions {} as :=
  Machine.along_iff_meets (I := Inv) (fun _ hi => inOwnDomain_of_region hi.own)
    (fun _ _ _ hi hc hs => hi.step hc hs)
    (fun _ _ _ hi hc hs => not_inOwnDomain hi hc hs) init_inv hr

end

/-! ### Two devices -/

/-- A library that registers whatever it is asked to. -/
def registrar : Registrar where
  ibvRegMr k _ := some (UInt32.ofNat k, UInt32.ofNat (k + 16))
  posixMemalign k _ := some (UInt64.ofNat (0x4000 + 64 * k))

/-- A client connecting on a device, with two regions. -/
def connect (handle verbs : ℕ) : Act where
  verbs := Records.verbsGiving 9
  registrar
  id := Records.idOn handle verbs
  sockfd := handle
  type := 0
  alwaysPoll := 1
  flags := 0
  params := none
  mrs := fun i => { addr := UInt64.ofNat (0x100000 * (i + 1)), length := 4096 }
  numMrs := 2
  msgSize := 8

/-- Two connections on one device. -/
theorem inOwnDomain_one_device :
    Machine.Along step InOwnDomain {} [connect 1 5, connect 2 5] := by
  obtain ⟨s, hr⟩ : ∃ s, Machine.run step {} [connect 1 5, connect 2 5] = some s := ⟨_, rfl⟩
  exact (inOwnDomain_iff hr).mpr (by decide)

/-- The second device gets the regions of the first: its connection has domain 106, its
regions are of domain 105. -/
theorem region_of_other_device : ∃ s ctx mr,
    Machine.run step {} [connect 1 5, connect 2 6] = some s ∧ ctx ∈ s.conns ∧
      ctx.localMrReady 0 = true ∧ ctx.localMr 0 = some mr ∧ mr.pd = 105 ∧
      (deref s.tables).bind (fun t => rcGetPd t ctx) = .ok (some 106) :=
  ⟨_, _, _, rfl, List.mem_cons_self, rfl, rfl, rfl, rfl⟩

end Regions

end Rdma
