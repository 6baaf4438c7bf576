/-
What an agent has been told of the other (`connection.c`, `mr.c`).

The initiator's metadata travel with its request and are taken over by
`setup_connection` of the accepting side, the acceptor's with the answer and by
`finalize_connection`.  Both describe the regions their process keeps in `mr_regions`,
which never change once they are registered; so what one side was told stays what the
other has.

* `AgentInv` — what holds of an agent next to the other one, id by id;
* `AgentInv.grow` — the other agent may move on;
* `IdInv.init` — `init_connection` keeps it, on both threads;
* `proceed_inv` — so does every call of the event loop, if metadata are built after
  `init_connection` has stored the application type.
-/
import RednRdma.Agents

namespace Rdma

namespace Agents

open Multimap

/-! ### What a side is told -/

/-- `m` describes the first `n` regions of a process. -/
structure Offers (n : ℤ) (regions : MrRegions) (m : RcMetadata) : Prop where
  count : m.mrCount = n
  entry : ∀ i : Fin MAX_MR, i.val < n.toNat → ∃ mr, regions i = some mr ∧
    m.addr i = mr.addr ∧ m.length i = mr.length ∧ m.rkey i = mr.rkey

/-- `remote_mr[i]` has what the peer's region has. -/
def Describes (r : MrContext) (mr : IbvMr) : Prop :=
  r.addr = mr.addr ∧ r.length = mr.length ∧ r.rkey = mr.rkey

/-- The tables of the connection have the first `n` regions of the peer. -/
def Informed (n : ℤ) (regions : MrRegions) (ctx : ConnContext) : Prop :=
  ∀ i : Fin MAX_MR, i.val < n.toNat → ctx.remoteMrReady i = true ∧
    ∃ mr r, regions i = some mr ∧ ctx.remoteMr i = some r ∧ Describes r mr

/-- They have no more than that. -/
def Sound (n : ℤ) (ctx : ConnContext) : Prop :=
  ∀ i : Fin MAX_MR, ctx.remoteMrReady i = true → i.val < n.toNat

/-- The first `n` local regions are registered. -/
def HasRegions (n : ℤ) (ctx : ConnContext) : Prop :=
  ∀ i : Fin MAX_MR, i.val < n.toNat → ∃ mr, ctx.localMr i = some mr

/-- The regions a process keeps, one step on. -/
def Kept (regions regions' : MrRegions) : Prop :=
  ∀ i mr, regions i = some mr → regions' i = some mr

/-- The context says the same of the peer. -/
structure SameRemote (ctx ctx' : ConnContext) : Prop where
  remoteMr : ctx'.remoteMr = ctx.remoteMr
  remoteMrReady : ctx'.remoteMrReady = ctx.remoteMrReady
  flags : ctx'.flags = ctx.flags
  appType : ctx'.appType = ctx.appType

section

variable {n : ℤ} {regions regions' : MrRegions} {m : RcMetadata} {ctx ctx' : ConnContext}

theorem Offers.mono (h : Offers n regions m) (hk : Kept regions regions') :
    Offers n regions' m := by
  refine ⟨h.count, ?_⟩
  intro i hi
  obtain ⟨mr, hmr, hdata⟩ := h.entry i hi
  exact ⟨mr, hk i mr hmr, hdata⟩

theorem Informed.mono (h : Informed n regions ctx) (hk : Kept regions regions') :
    Informed n regions' ctx := by
  intro i hi
  obtain ⟨hready, mr, r, hmr, hdata⟩ := h i hi
  exact ⟨hready, mr, r, hk i mr hmr, hdata⟩

theorem Informed.same (h : Informed n regions ctx) (hs : SameRemote ctx ctx') :
    Informed n regions ctx' := by
  intro i hi
  rw [hs.remoteMr, hs.remoteMrReady]
  exact h i hi

theorem Sound.same (h : Sound n ctx) (hs : SameRemote ctx ctx') : Sound n ctx' := by
  intro i hi
  rw [hs.remoteMrReady] at hi
  exact h i hi

/-- Taking over the metadata. -/
theorem withRemote_informed (h : Offers n regions m) :
    Informed n regions (withRemote ctx m m.mrCount.toNat) := by
  intro i hi
  obtain ⟨mr, hmr, hdata⟩ := h.entry i hi
  have hlt : i.val < m.mrCount.toNat := h.count ▸ hi
  exact ⟨if_pos hlt, mr, m.record i, hmr, if_pos hlt, hdata⟩

theorem withRemote_sound (h : Offers n regions m) (hs : Sound n ctx) :
    Sound n (withRemote ctx m m.mrCount.toNat) := by
  intro i hi
  by_contra hge
  have hnot : ¬ i.val < m.mrCount.toNat := h.count ▸ hge
  rw [show (withRemote ctx m m.mrCount.toNat).remoteMrReady i = ctx.remoteMrReady i from
    if_neg hnot] at hi
  exact hge (hs i hi)

theorem rcSetState_same (ctx : ConnContext) (state : RcState) :
    SameRemote ctx (rcSetState ctx state) ∧ (rcSetState ctx state).localMr = ctx.localMr := by
  rw [rcSetState]
  split
  · exact ⟨⟨rfl, rfl, rfl, rfl⟩, rfl⟩
  · exact ⟨⟨rfl, rfl, rfl, rfl⟩, rfl⟩

theorem rcSetState_state (state : RcState) : (rcSetState ctx state).state = state := by
  rw [rcSetState]
  split
  · assumption
  · rfl

end

/-! ### The invariant -/

/-- The context has been stored, and no other will be. -/
def Stage.past : Stage → Bool
  | stored _ | typed _ | done => true
  | _ => false

/-- `ctx->app_type = type` has been stored. -/
def Stage.hasType : Stage → Bool
  | typed _ | done => true
  | _ => false

/-- The id may call `rdma_connect`, or has called it. -/
def Cm.calling : Cm → Bool
  | idle | connecting _ | arrived _ => true
  | _ => false

/-- The other agent has been told of the regions of this one. -/
def Cm.told : Cm → Bool
  | connecting _ | arrived _ | accepted _ => true
  | _ => false

/-- The request of `peer` is under way to its new id. -/
def Offered (nO : ℤ) (o : Agent) (id peer : ℕ) (params : RdmaConnParam) : Prop :=
  (o.ids peer).cm = .arrived id ∧ ∃ args m, (o.ids peer).args = some args ∧
    params.privateData = some m ∧ Offers nO o.regions m ∧
    m.flags = args.flags ∧ m.type = args.type

/-- The request of `peer` has been taken over. -/
def Welcomed (nO : ℤ) (o : Agent) (peer : ℕ) (ctx : ConnContext) : Prop :=
  Informed nO o.regions ctx ∧ ∃ args, (o.ids peer).args = some args ∧
    ctx.flags = args.flags ∧ ctx.appType = args.type

/-- The `ESTABLISHED` of an id. -/
def Replied (nO : ℤ) (o : Agent) (id : ℕ) (cm : Cm) (params : RdmaConnParam) : Prop :=
  (params.privateData = none ∧ ∃ peer, cm = .accepted peer) ∨
  ∃ m peer, params.privateData = some m ∧ Offers nO o.regions m ∧ cm = .arrived peer ∧
    (o.ids peer).cm = .accepted id

/-- A connection that is ready has an id on the other side. -/
def Joined (nO : ℤ) (o : Agent) (id : ℕ) (cm : Cm) (ctx : ConnContext) : Prop :=
  (∃ peer, cm = .accepted peer) ∨
  Informed nO o.regions ctx ∧ ∃ peer, cm = .arrived peer ∧ (o.ids peer).cm = .accepted id

/-- What holds of the context of an id. -/
structure CtxInv (n nO : ℤ) (regions : MrRegions) (o : Agent) (id : ℕ) (stage : Stage)
    (args : Option ConnArgs) (cm : Cm) (ctx : ConnContext) : Prop where
  past : stage.past = true
  regions : ∀ i mr, ctx.localMr i = some mr → regions i = some mr
  told : cm.told = true → HasRegions n ctx
  carried : ∀ g, args = some g →
    ctx.flags = g.flags ∧ ctx.appType = if stage.hasType then g.type else 0
  sound : Sound nO ctx
  welcomed : ∀ peer, cm = .accepted peer → Welcomed nO o peer ctx
  ready : ctx.state = .ready → Joined nO o id cm ctx

/-- What holds of an event that waits to be taken. -/
def EventInv (nO : ℤ) (o : Agent) (id : ℕ) (args : Option ConnArgs) (cm : Cm) :
    CmEvent → Prop
  | .addrResolved | .routeResolved => args ≠ none
  | .established params => Replied nO o id cm params
  | _ => True

/-- What holds of an id. -/
structure IdInv (n nO : ℤ) (regions : MrRegions) (o : Agent) (id : ℕ) (w : IdState) :
    Prop where
  unborn : w.stage = .unborn → w.args = none ∧ w.cm = .idle
  calling : w.args ≠ none → w.cm.calling = true
  moved : w.args ≠ none → w.cm ≠ .idle → w.stage.past = true
  context : ∀ ctx, w.context = some ctx →
    CtxInv n nO regions o id w.stage w.args w.cm ctx
  sent : ∀ params, w.cm = .connecting params → ∃ args m, w.args = some args ∧
    params.privateData = some m ∧ Offers n regions m ∧
    m.flags = args.flags ∧ m.type = args.type
  offered : ∀ peer params, w.cm = .offered peer params →
    w.stage.past = false ∧ Offered nO o id peer params
  linked : ∀ peer, w.cm = .request peer ∨ w.cm = .accepted peer →
    (o.ids peer).cm = .arrived id
  queue : ∀ e ∈ w.queue, EventInv nO o id w.args w.cm e

/-- The id the event loop works on, if any. -/
def LoopPc.id : LoopPc → ℕ
  | resolveRoute id | init id _ | setup id _ | preConn id _ | answer id _ | finalize id _
  | disconnect id | clear id _ | erase id _ => id
  | idle | left => 0

/-- What holds of that id before the next call. -/
def PcInv (n nO : ℤ) (o : Agent) (w : IdState) : LoopPc → Prop
  | .resolveRoute _ | .setup _ none | .preConn _ false => w.args ≠ none
  | .init id params | .setup id (some params) =>
    ∃ peer, w.cm = .request peer ∧ Offered nO o id peer params
  | .preConn _ true =>
    ∃ peer ctx, w.cm = .request peer ∧ w.context = some ctx ∧ Welcomed nO o peer ctx
  | .answer _ false => w.args ≠ none ∧ ∃ ctx, w.context = some ctx ∧ HasRegions n ctx
  | .answer _ true =>
    ∃ peer ctx, w.cm = .request peer ∧ w.context = some ctx ∧ Welcomed nO o peer ctx ∧
      HasRegions n ctx
  | .finalize id params => Replied nO o id w.cm params
  | _ => True

/-- What holds of an agent next to the other one. -/
structure AgentInv (n nO : ℤ) (ag o : Agent) : Prop where
  ids : ∀ id, IdInv n nO ag.regions o id (ag.ids id)
  pc : PcInv n nO o (ag.ids ag.pc.id) ag.pc

theorem init_agentInv (n nO : ℤ) : AgentInv n nO {} {} := by
  refine ⟨fun id => ⟨fun _ => ⟨rfl, rfl⟩, fun h => absurd rfl h, fun h => absurd rfl h, ?_, ?_,
    ?_, ?_, ?_⟩, trivial⟩
  · intro ctx hctx
    exact absurd hctx (by simp)
  · intro params hcm
    exact absurd hcm (by simp)
  · intro peer params hcm
    exact absurd hcm (by simp)
  · rintro peer (hcm | hcm)
    · exact absurd hcm (by simp)
    · exact absurd hcm (by simp)
  · intro e he
    exact absurd he List.not_mem_nil

/-! ### What the other agent may do -/

/-- What one agent says of the other is not taken back: regions, arguments and the end of
a handshake stay. -/
structure Grows (o o' : Agent) : Prop where
  regions : Kept o.regions o'.regions
  args : ∀ id args, (o.ids id).args = some args → (o'.ids id).args = some args
  arrived : ∀ id peer, (o.ids id).cm = .arrived peer → (o'.ids id).cm = .arrived peer
  accepted : ∀ id peer, (o.ids id).cm = .accepted peer → (o'.ids id).cm = .accepted peer

section

variable {n nO : ℤ} {ag ag' o o' : Agent} {id peer : ℕ} {params : RdmaConnParam}
  {ctx ctx' : ConnContext} {w : IdState}

theorem Offered.grow (h : Offered nO o id peer params) (hg : Grows o o') :
    Offered nO o' id peer params := by
  obtain ⟨hcm, args, m, hargs, hdata, hoffers, hcarry⟩ := h
  exact ⟨hg.arrived peer id hcm, args, m, hg.args peer args hargs, hdata,
    hoffers.mono hg.regions, hcarry⟩

theorem Welcomed.grow (h : Welcomed nO o peer ctx) (hg : Grows o o') :
    Welcomed nO o' peer ctx := by
  obtain ⟨hinf, args, hargs, hcarry⟩ := h
  exact ⟨hinf.mono hg.regions, args, hg.args peer args hargs, hcarry⟩

theorem Welcomed.same (h : Welcomed nO o peer ctx) (hs : SameRemote ctx ctx') :
    Welcomed nO o peer ctx' := by
  obtain ⟨hinf, args, hargs, hflags, htype⟩ := h
  exact ⟨hinf.same hs, args, hargs, hs.flags.trans hflags, hs.appType.trans htype⟩

theorem Replied.grow {cm : Cm} (h : Replied nO o id cm params) (hg : Grows o o') :
    Replied nO o' id cm params := by
  rcases h with hnone | ⟨m, peer, hdata, hoffers, hcm, hacc⟩
  · exact Or.inl hnone
  · exact Or.inr ⟨m, peer, hdata, hoffers.mono hg.regions, hcm, hg.accepted peer id hacc⟩

theorem Joined.grow {cm : Cm} (h : Joined nO o id cm ctx) (hg : Grows o o') :
    Joined nO o' id cm ctx := by
  rcases h with hacc | ⟨hinf, peer, hcm, hacc⟩
  · exact Or.inl hacc
  · exact Or.inr ⟨hinf.mono hg.regions, peer, hcm, hg.accepted peer id hacc⟩

theorem Joined.same {cm : Cm} (h : Joined nO o id cm ctx) (hs : SameRemote ctx ctx') :
    Joined nO o id cm ctx' := by
  rcases h with hacc | ⟨hinf, harr⟩
  · exact Or.inl hacc
  · exact Or.inr ⟨hinf.same hs, harr⟩

theorem EventInv.grow {args : Option ConnArgs} {cm : Cm} {e : CmEvent}
    (h : EventInv nO o id args cm e) (hg : Grows o o') : EventInv nO o' id args cm e := by
  cases e with
  | established params => exact Replied.grow h hg
  | _ => exact h

/-- No `ESTABLISHED` waits for an id whose handshake is not over. -/
theorem EventInv.of_open {args : Option ConnArgs} {cm cm' : Cm} {e : CmEvent}
    (h : EventInv nO o id args cm e) (harrived : ∀ peer, cm ≠ .arrived peer)
    (haccepted : ∀ peer, cm ≠ .accepted peer) : EventInv nO o id args cm' e := by
  cases e with
  | established params =>
    rcases h with ⟨-, peer, hcm⟩ | ⟨m, peer, -, -, hcm, -⟩
    · exact absurd hcm (haccepted peer)
    · exact absurd hcm (harrived peer)
  | _ => exact h

theorem CtxInv.grow {regions : MrRegions} {stage : Stage} {args : Option ConnArgs} {cm : Cm}
    (h : CtxInv n nO regions o id stage args cm ctx) (hg : Grows o o') :
    CtxInv n nO regions o' id stage args cm ctx :=
  { h with
    welcomed := fun peer hcm => (h.welcomed peer hcm).grow hg
    ready := fun hready => (h.ready hready).grow hg }

theorem IdInv.grow {regions : MrRegions} (h : IdInv n nO regions o id w) (hg : Grows o o') :
    IdInv n nO regions o' id w :=
  { h with
    context := fun ctx hctx => (h.context ctx hctx).grow hg
    offered := fun peer params hcm =>
      ⟨(h.offered peer params hcm).1, (h.offered peer params hcm).2.grow hg⟩
    linked := fun peer hcm => hg.arrived peer id (h.linked peer hcm)
    queue := fun e he => (h.queue e he).grow hg }

theorem PcInv.grow {pc : LoopPc} (h : PcInv n nO o w pc) (hg : Grows o o') :
    PcInv n nO o' w pc := by
  cases pc with
  | init id params =>
    obtain ⟨peer, hcm, hoff⟩ := h
    exact ⟨peer, hcm, hoff.grow hg⟩
  | setup id params =>
    cases params with
    | none => exact h
    | some params =>
      obtain ⟨peer, hcm, hoff⟩ := h
      exact ⟨peer, hcm, hoff.grow hg⟩
  | preConn id accepting =>
    cases accepting with
    | false => exact h
    | true =>
      obtain ⟨peer, ctx, hcm, hctx, hwel⟩ := h
      exact ⟨peer, ctx, hcm, hctx, hwel.grow hg⟩
  | answer id accepting =>
    cases accepting with
    | false => exact h
    | true =>
      obtain ⟨peer, ctx, hcm, hctx, hwel, hreg⟩ := h
      exact ⟨peer, ctx, hcm, hctx, hwel.grow hg, hreg⟩
  | finalize id params => exact Replied.grow h hg
  | _ => trivial

/-- The other agent moves. -/
theorem AgentInv.grow (h : AgentInv n nO ag o) (hg : Grows o o') : AgentInv n nO ag o' :=
  ⟨fun id => (h.ids id).grow hg, h.pc.grow hg⟩

/-! ### One id of an agent changes -/

theorem CtxInv.kept {regions regions' : MrRegions} {stage : Stage} {args : Option ConnArgs}
    {cm : Cm} (h : CtxInv n nO regions o id stage args cm ctx) (hk : Kept regions regions') :
    CtxInv n nO regions' o id stage args cm ctx :=
  { h with regions := fun i mr hmr => hk i mr (h.regions i mr hmr) }

theorem IdInv.kept {regions regions' : MrRegions} (h : IdInv n nO regions o id w)
    (hk : Kept regions regions') : IdInv n nO regions' o id w := by
  refine { h with context := fun ctx hctx => (h.context ctx hctx).kept hk, sent := ?_ }
  intro params hcm
  obtain ⟨args, m, hargs, hdata, hoffers, hcarry⟩ := h.sent params hcm
  exact ⟨args, m, hargs, hdata, hoffers.mono hk, hcarry⟩

theorem Kept.refl (regions : MrRegions) : Kept regions regions := fun _ _ h => h

/-- Id `id` becomes `w`, and the event loop is at the place of `ag'`. -/
theorem AgentInv.put (h : AgentInv n nO ag o) (hk : Kept ag.regions ag'.regions)
    (hids : ag'.ids = Function.update ag.ids id w) (hw : IdInv n nO ag'.regions o id w)
    (hpc : PcInv n nO o (ag'.ids ag'.pc.id) ag'.pc) : AgentInv n nO ag' o := by
  refine ⟨?_, hpc⟩
  intro k
  rw [hids]
  by_cases hkid : k = id
  · rw [hkid, Function.update_self]
    exact hw
  · rw [Function.update_of_ne hkid]
    exact (h.ids k).kept hk

theorem Grows.put (hk : Kept ag.regions ag'.regions)
    (hids : ag'.ids = Function.update ag.ids id w)
    (hargs : ∀ args, (ag.ids id).args = some args → w.args = some args)
    (harrived : ∀ peer, (ag.ids id).cm = .arrived peer → w.cm = .arrived peer)
    (haccepted : ∀ peer, (ag.ids id).cm = .accepted peer → w.cm = .accepted peer) :
    Grows ag ag' := by
  have hself : ag'.ids id = w := by rw [hids, Function.update_self]
  have hne : ∀ k, k ≠ id → ag'.ids k = ag.ids k := by
    intro k hkid
    rw [hids, Function.update_of_ne hkid]
  refine ⟨hk, ?_, ?_, ?_⟩
  · intro k args h
    by_cases hkid : k = id
    · rw [hkid, hself]
      exact hargs args (hkid ▸ h)
    · rw [hne k hkid]
      exact h
  · intro k peer h
    by_cases hkid : k = id
    · rw [hkid, hself]
      exact harrived peer (hkid ▸ h)
    · rw [hne k hkid]
      exact h
  · intro k peer h
    by_cases hkid : k = id
    · rw [hkid, hself]
      exact haccepted peer (hkid ▸ h)
    · rw [hne k hkid]
      exact h

/-- The event loop is at the id that has changed. -/
theorem PcInv.of_put (hids : ag'.ids = Function.update ag.ids id w) (hid : ag'.pc.id = id)
    (h : PcInv n nO o w ag'.pc) : PcInv n nO o (ag'.ids ag'.pc.id) ag'.pc := by
  rw [hid, hids, Function.update_self]
  exact h

theorem Grows.of_eq (hregions : ag'.regions = ag.regions) (hids : ag'.ids = ag.ids) :
    Grows ag ag' := by
  refine ⟨hregions ▸ Kept.refl _, ?_, ?_, ?_⟩
  · exact fun k args h => hids ▸ h
  · exact fun k peer h => hids ▸ h
  · exact fun k peer h => hids ▸ h

/-- A change the event loop does not notice. -/
structure Quiet (w w' : IdState) : Prop where
  args : w.args ≠ none → w'.args ≠ none
  cm : w'.cm = w.cm ∨ w.cm = .idle ∨ ∃ params, w.cm = .connecting params
  context : ∀ ctx, w.context = some ctx → ∃ ctx', w'.context = some ctx' ∧
    ctx'.localMr = ctx.localMr ∧ ((∃ peer, w.cm = .request peer) → ctx' = ctx)

theorem Quiet.cm_eq {w' : IdState} {cm : Cm} (h : Quiet w w') (hcm : w.cm = cm)
    (hidle : cm ≠ .idle) (hconn : ∀ params, cm ≠ .connecting params) : w'.cm = cm := by
  rcases h.cm with heq | heq | ⟨params, heq⟩
  · exact heq.trans hcm
  · exact absurd (hcm.symm.trans heq) hidle
  · exact absurd (hcm.symm.trans heq) (hconn params)

theorem PcInv.quiet {w' : IdState} {pc : LoopPc} (h : PcInv n nO o w pc) (hq : Quiet w w') :
    PcInv n nO o w' pc := by
  have hrequest : ∀ {peer}, w.cm = .request peer → w'.cm = .request peer :=
    fun hcm => hq.cm_eq hcm (by simp) (by simp)
  cases pc with
  | resolveRoute id => exact hq.args h
  | init id params =>
    obtain ⟨peer, hcm, hoff⟩ := h
    exact ⟨peer, hrequest hcm, hoff⟩
  | setup id params =>
    cases params with
    | none => exact hq.args h
    | some params =>
      obtain ⟨peer, hcm, hoff⟩ := h
      exact ⟨peer, hrequest hcm, hoff⟩
  | preConn id accepting =>
    cases accepting with
    | false => exact hq.args h
    | true =>
      obtain ⟨peer, ctx, hcm, hctx, hwel⟩ := h
      obtain ⟨ctx', hctx', -, hsame⟩ := hq.context ctx hctx
      obtain rfl := hsame ⟨peer, hcm⟩
      exact ⟨peer, ctx', hrequest hcm, hctx', hwel⟩
  | answer id accepting =>
    cases accepting with
    | false =>
      obtain ⟨hargs, ctx, hctx, hreg⟩ := h
      obtain ⟨ctx', hctx', hlocal, -⟩ := hq.context ctx hctx
      refine ⟨hq.args hargs, ctx', hctx', ?_⟩
      intro i hi
      rw [hlocal]
      exact hreg i hi
    | true =>
      obtain ⟨peer, ctx, hcm, hctx, hwel, hreg⟩ := h
      obtain ⟨ctx', hctx', -, hsame⟩ := hq.context ctx hctx
      obtain rfl := hsame ⟨peer, hcm⟩
      exact ⟨peer, ctx', hrequest hcm, hctx', hwel, hreg⟩
  | finalize id params =>
    rcases h with ⟨hnone, peer, hcm⟩ | ⟨m, peer, hdata, hoffers, hcm, hacc⟩
    · exact Or.inl ⟨hnone, peer, hq.cm_eq hcm (by simp) (by simp)⟩
    · exact Or.inr ⟨m, peer, hdata, hoffers, hq.cm_eq hcm (by simp) (by simp), hacc⟩
  | _ => trivial

/-- The event loop stays where it is. -/
theorem AgentInv.put_quiet (h : AgentInv n nO ag o) (hregions : ag'.regions = ag.regions)
    (hids : ag'.ids = Function.update ag.ids id w) (hpc : ag'.pc = ag.pc)
    (hw : IdInv n nO ag.regions o id w) (hq : Quiet (ag.ids id) w) : AgentInv n nO ag' o := by
  have hk : Kept ag.regions ag'.regions := hregions ▸ Kept.refl _
  refine h.put hk hids (hregions ▸ hw) ?_
  have hold := h.pc
  rw [hids, hpc]
  by_cases hid : ag.pc.id = id
  · rw [hid] at hold ⊢
    rw [Function.update_self]
    exact hold.quiet hq
  · rw [Function.update_of_ne hid]
    exact hold

/-! ### `init_connection` -/

/-- What one store of `init_connection` does to its id. -/
def InitStep (args : ConnArgs) (w w' : IdState) : Prop :=
  w' = w ∨
  (∃ i stage, w.stage = .scan i ∧ stage ≠ .unborn ∧ stage.past = false ∧
    w' = { w with stage }) ∨
  (∃ i, w.stage = .claimed i ∧ w' = { w with
    stage := .stored i
    context := some (initContext 0 0 args.alwaysPoll args.flags) }) ∨
  (∃ i, w.stage = .stored i ∧ w' = { w with
    stage := .typed i
    context := w.context.map fun ctx =>
      { ctx with
        sockfd := i.val
        appType := args.type } }) ∨
  (∃ i, w.stage = .typed i ∧ w' = { w with stage := .done })

theorem initStep_eq_ok {args : ConnArgs} (h : initStep ag id args = .ok ag') :
    ∃ w', InitStep args (ag.ids id) w' ∧ ag'.ids = Function.update ag.ids id w' ∧
      ag'.regions = ag.regions ∧ ag'.pc = ag.pc := by
  rw [initStep] at h
  dsimp only at h
  split at h
  · rename_i i hstage
    split at h
    · split at h
      · obtain rfl := Except.ok.inj h
        exact ⟨_, Or.inr (Or.inl ⟨i, _, hstage, by simp, rfl, rfl⟩), rfl, rfl, rfl⟩
      · obtain rfl := Except.ok.inj h
        exact ⟨_, Or.inr (Or.inl ⟨i, _, hstage, by simp, rfl, rfl⟩), rfl, rfl, rfl⟩
    · exact absurd h (by simp)
  · rename_i i hstage
    obtain rfl := Except.ok.inj h
    exact ⟨_, Or.inr (Or.inr (Or.inl ⟨i, hstage, rfl⟩)), rfl, rfl, rfl⟩
  · rename_i i hstage
    obtain rfl := Except.ok.inj h
    exact ⟨_, Or.inr (Or.inr (Or.inr (Or.inl ⟨i, hstage, rfl⟩))), rfl, rfl, rfl⟩
  · rename_i i hstage
    obtain rfl := Except.ok.inj h
    exact ⟨_, Or.inr (Or.inr (Or.inr (Or.inr ⟨i, hstage, rfl⟩))), rfl, rfl, rfl⟩
  · obtain rfl := Except.ok.inj h
    exact ⟨_, Or.inl rfl, (Function.update_eq_self id ag.ids).symm, rfl, rfl⟩

theorem InitStep.keeps {args : ConnArgs} {w' : IdState} (h : InitStep args w w') :
    w'.args = w.args ∧ w'.cm = w.cm ∧ w'.queue = w.queue := by
  rcases h with rfl | ⟨i, stage, -, -, -, rfl⟩ | ⟨i, -, rfl⟩ | ⟨i, -, rfl⟩ | ⟨i, -, rfl⟩
  · exact ⟨rfl, rfl, rfl⟩
  · exact ⟨rfl, rfl, rfl⟩
  · exact ⟨rfl, rfl, rfl⟩
  · exact ⟨rfl, rfl, rfl⟩
  · exact ⟨rfl, rfl, rfl⟩

theorem Stage.ne_unborn {stage : Stage} (h : stage.past = true) : stage ≠ .unborn := by
  rintro rfl
  exact Bool.false_ne_true h

/-- No context before one is stored. -/
theorem IdInv.context_none {regions : MrRegions} (h : IdInv n nO regions o id w)
    (hstage : w.stage.past = false) : w.context = none := by
  cases hctx : w.context with
  | none => rfl
  | some ctx => exact absurd (h.context ctx hctx).past (by simp [hstage])

/-- Nobody has been told of an id without a context. -/
theorem IdInv.cm_idle {regions : MrRegions} (h : IdInv n nO regions o id w)
    (hargs : w.args ≠ none) (hstage : w.stage.past = false) : w.cm = .idle := by
  by_contra hcm
  exact Bool.false_ne_true (hstage.symm.trans (h.moved hargs hcm))

theorem Cm.not_accepted_of_calling {cm : Cm} (h : cm.calling = true) (peer : ℕ) :
    cm ≠ .accepted peer := by
  rintro rfl
  exact absurd h (by simp [Cm.calling])

/-- The application runs it with the arguments of `add_connection`, the event loop for a
request it has taken. -/
theorem IdInv.init {regions : MrRegions} {args : ConnArgs} {w' : IdState}
    (h : IdInv n nO regions o id w)
    (hown : w.args = some args ∨ ∃ peer, w.cm = .request peer)
    (hstep : InitStep args w w') : IdInv n nO regions o id w' := by
  have hnotaccepted : ∀ peer, w.cm ≠ .accepted peer := by
    rintro peer hcm
    rcases hown with hargs | ⟨p, hreq⟩
    · exact Cm.not_accepted_of_calling (h.calling (by simp [hargs])) peer hcm
    · exact absurd (hreq.symm.trans hcm) (by simp)
  have hnotoffered : ∀ peer params, w.cm ≠ .offered peer params := by
    rintro peer params hcm
    rcases hown with hargs | ⟨p, hreq⟩
    · exact absurd (h.calling (by simp [hargs])) (by simp [hcm, Cm.calling])
    · exact absurd (hreq.symm.trans hcm) (by simp)
  have hargs : ∀ g, w.args = some g → g = args := by
    intro g hg
    rcases hown with hargs | ⟨p, hreq⟩
    · exact Option.some_inj.mp (hg.symm.trans hargs)
    · exact absurd (h.calling (by simp [hg])) (by simp [hreq, Cm.calling])
  rcases hstep with rfl | ⟨i, stage, hstage, hborn, hpast, rfl⟩ | ⟨i, hstage, rfl⟩ |
    ⟨i, hstage, rfl⟩ | ⟨i, hstage, rfl⟩
  · exact h
  · have hnone := h.context_none (by rw [hstage]; rfl)
    refine { h with
      unborn := fun hs => absurd hs hborn
      moved := ?_
      context := ?_
      offered := fun peer params hcm => absurd hcm (hnotoffered peer params) }
    · intro hargs hcm
      exact absurd (h.cm_idle hargs (by rw [hstage]; rfl)) hcm
    · intro ctx hctx
      exact absurd (hnone.symm.trans hctx) (by simp)
  · -- the context is stored
    have htold : w.cm.told = false := by
      rcases hown with hargs | ⟨peer, hreq⟩
      · rw [h.cm_idle (by simp [hargs]) (by rw [hstage]; rfl)]
        rfl
      · rw [hreq]
        rfl
    refine { h with
      unborn := fun hs => absurd hs (by simp)
      moved := fun _ _ => rfl
      context := ?_
      offered := fun peer params hcm => absurd hcm (hnotoffered peer params) }
    intro ctx hctx
    obtain rfl := Option.some_inj.mp hctx
    refine ⟨rfl, fun i mr hmr => absurd hmr (by simp [initContext]),
      fun ht => absurd ht (by simp [htold]), ?_, fun i hi => absurd hi (by simp [initContext]),
      fun peer hcm => absurd hcm (hnotaccepted peer), fun hs => absurd hs (by simp [initContext])⟩
    intro g hg
    obtain rfl := hargs g hg
    exact ⟨rfl, rfl⟩
  · -- the type is stored
    refine { h with
      unborn := fun hs => absurd hs (by simp)
      moved := fun _ _ => rfl
      context := ?_
      offered := fun peer params hcm => absurd hcm (hnotoffered peer params) }
    intro ctx hctx
    obtain ⟨ctx₀, hctx₀, rfl⟩ := Option.map_eq_some_iff.mp hctx
    have hold := h.context ctx₀ hctx₀
    refine ⟨rfl, hold.regions, hold.told, ?_, hold.sound,
      fun peer hcm => absurd hcm (hnotaccepted peer), hold.ready⟩
    intro g hg
    obtain rfl := hargs g hg
    exact ⟨(hold.carried g hg).1, rfl⟩
  · refine { h with
      unborn := fun hs => absurd hs (by simp)
      moved := fun _ _ => rfl
      context := ?_
      offered := fun peer params hcm => absurd hcm (hnotoffered peer params) }
    intro ctx hctx
    have hold := h.context ctx hctx
    refine { hold with past := rfl, carried := ?_ }
    intro args' hargs'
    have hcarry := hold.carried args' hargs'
    rw [hstage] at hcarry
    exact hcarry

theorem InitStep.quiet {regions : MrRegions} {args : ConnArgs} {w' : IdState}
    (h : IdInv n nO regions o id w) (hargs : w.args = some args)
    (hstep : InitStep args w w') : Quiet w w' := by
  have hnot : ¬ ∃ peer, w.cm = .request peer := by
    rintro ⟨peer, hcm⟩
    have hcalling := h.calling (by simp [hargs])
    exact absurd hcalling (by simp [hcm, Cm.calling])
  obtain ⟨hargs', hcm, -⟩ := hstep.keeps
  refine ⟨fun hne => hargs' ▸ hne, Or.inl hcm, ?_⟩
  intro ctx hctx
  rcases hstep with rfl | ⟨i, stage, -, -, -, rfl⟩ | ⟨i, hstage, rfl⟩ | ⟨i, -, rfl⟩ | ⟨i, -, rfl⟩
  · exact ⟨ctx, hctx, rfl, fun hreq => absurd hreq hnot⟩
  · exact ⟨ctx, hctx, rfl, fun hreq => absurd hreq hnot⟩
  · have hnone := h.context_none (by rw [hstage]; rfl)
    exact absurd (hnone.symm.trans hctx) (by simp)
  · exact ⟨_, Option.map_eq_some_iff.mpr ⟨ctx, hctx, rfl⟩, rfl, fun hreq => absurd hreq hnot⟩
  · exact ⟨ctx, hctx, rfl, fun hreq => absurd hreq hnot⟩

/-! ### The calls of the event loop -/

theorem CtxInv.same {regions : MrRegions} {stage : Stage} {args : Option ConnArgs} {cm : Cm}
    (h : CtxInv n nO regions o id stage args cm ctx) (hs : SameRemote ctx ctx')
    (hlocal : ctx'.localMr = ctx.localMr)
    (hready : ctx'.state = .ready → Joined nO o id cm ctx') :
    CtxInv n nO regions o id stage args cm ctx' := by
  refine ⟨h.past, ?_, ?_, ?_, h.sound.same hs, fun peer hcm => (h.welcomed peer hcm).same hs,
    hready⟩
  · rw [hlocal]
    exact h.regions
  · intro ht i hi
    rw [hlocal]
    exact h.told ht i hi
  · rw [hs.flags, hs.appType]
    exact h.carried

theorem IdInv.push {regions : MrRegions} {e : CmEvent} (h : IdInv n nO regions o id w)
    (he : EventInv nO o id w.args w.cm e) : IdInv n nO regions o id (w.push e) := by
  refine { h with queue := ?_ }
  intro e' he'
  rcases List.mem_append.mp he' with hold | hnew
  · exact h.queue e' hold
  · obtain rfl := List.mem_singleton.mp hnew
    exact he

/-- `setup_connection` of the initiator, who has no metadata yet. -/
theorem setup_none_same {v : Verbs} {s : Option Context} {cmId : RdmaCmId} {s' : Context}
    {c : Conn} (hctx : cmId.context = some ctx) (h : setupConnection v s cmId none = .ok (s', c)) :
    SameRemote ctx c.ctx ∧ c.ctx.localMr = ctx.localMr ∧ c.ctx.state = ctx.state := by
  obtain ⟨s₁, ctx₁, ctx₂, hbuild, htake, hqueue, -⟩ := setupConnection_eq_ok hctx h
  obtain ⟨j, rfl, -⟩ := tryBuildDevice_onDevice hbuild
  obtain rfl := Except.ok.inj htake
  rw [hqueue]
  exact ⟨⟨rfl, rfl, rfl, rfl⟩, rfl, rfl⟩

/-- `setup_connection` of the accepting side. -/
theorem setup_some_same {v : Verbs} {s : Option Context} {cmId : RdmaCmId} {s' : Context}
    {c : Conn} {m : RcMetadata} (hctx : cmId.context = some ctx)
    (hdata : params.privateData = some m)
    (h : setupConnection v s cmId (some params) = .ok (s', c)) :
    SameRemote (withRemote { ctx with
      flags := m.flags
      appType := m.type } m m.mrCount.toNat) c.ctx ∧
      c.ctx.localMr = ctx.localMr ∧ c.ctx.state = ctx.state := by
  obtain ⟨s₁, ctx₁, ctx₂, hbuild, htake, hqueue, -⟩ := setupConnection_eq_ok hctx h
  obtain ⟨j, rfl, -⟩ := tryBuildDevice_onDevice hbuild
  rcases takeMetadata_eq_ok htake with ⟨hnone, -⟩ | ⟨m', hsome, -, rfl⟩
  · exact absurd (hdata.symm.trans hnone) (by simp)
  · obtain rfl : m = m' := Option.some_inj.mp (hdata.symm.trans hsome)
    rw [hqueue]
    exact ⟨⟨rfl, rfl, rfl, rfl⟩, rfl, rfl⟩

theorem finalize_same (h : finalizeConnection ctx (some params) = .ok ctx') :
    ctx'.state = .ready ∧ ctx'.localMr = ctx.localMr ∧
      ((params.privateData = none ∧ SameRemote ctx ctx') ∨
        ∃ m, params.privateData = some m ∧
          SameRemote (withRemote ctx m m.mrCount.toNat) ctx') := by
  obtain ⟨ctx₁, h₁, h⟩ := Except.bind_eq_ok.mp h
  obtain rfl := Except.pure_eq_ok.mp h
  obtain ⟨hsame, hlocal⟩ := rcSetState_same ctx₁ .ready
  refine ⟨rcSetState_state .ready, ?_⟩
  unfold finalMetadata at h₁
  dsimp only at h₁
  split at h₁
  · rename_i hnone
    obtain rfl := Except.ok.inj h₁
    exact ⟨hlocal, Or.inl ⟨hnone, hsame⟩⟩
  · rename_i m hsome
    obtain ⟨-, -, h₁⟩ := Except.bind_eq_ok.mp h₁
    rw [mrRemoteUpdate_eq] at h₁
    split at h₁
    · obtain rfl := Except.ok.inj h₁
      exact ⟨hlocal, Or.inr ⟨m, hsome, hsame⟩⟩
    · exact absurd h₁ (by simp)

theorem rcDisconnect_same {L : Lookup UInt32 IdRecord} {s : Option Context} {s' : Context}
    (h : rcDisconnect L s ctx = .ok (s', ctx')) :
    ctx'.state = .terminated ∧ ctx'.localMr = ctx.localMr ∧ SameRemote ctx ctx' := by
  obtain ⟨t, -, h⟩ := Except.bind_eq_ok.mp h
  obtain ⟨hsame, hlocal⟩ := rcSetState_same ctx .terminated
  split at h
  · obtain ⟨-, rfl⟩ := Prod.mk.inj (Except.pure_eq_ok.mp h)
    exact ⟨rcSetState_state .terminated, hlocal,
      ⟨hsame.remoteMr, hsame.remoteMrReady, hsame.flags, hsame.appType⟩⟩
  · exact absurd h (by simp [throw, throwThe, MonadExceptOf.throw])

theorem registering_same (h : Registering ctx ctx') :
    SameRemote ctx ctx' ∧ ctx'.state = ctx.state := by
  rw [h]
  exact ⟨⟨rfl, rfl, rfl, rfl⟩, rfl⟩

theorem registration_kept {s : Context} {regions regions' : MrRegions} {k : ℕ}
    (h : Registration s regions regions' ctx ctx' k) : Kept regions regions' := by
  intro i mr hmr
  by_cases hi : i.val < k
  · obtain ⟨mr', hmr', -, -, horigin⟩ := h.region i hi
    rcases horigin with hold | ⟨hnone, -⟩
    · obtain rfl := Option.some_inj.mp (hold.symm.trans hmr)
      exact hmr'
    · exact absurd (hnone.symm.trans hmr) (by simp)
  · exact (h.rest i (by omega)).1.trans hmr

/-- What a call of the event loop owes both agents. -/
structure Proceeds (n nO : ℤ) (ag ag' o : Agent) (reply : Option (ℕ × RdmaConnParam)) :
    Prop where
  inv : AgentInv n nO ag' o
  grows : Grows ag ag'
  reply : ∀ peer params, reply = some (peer, params) →
    Replied n ag' peer (o.ids peer).cm params

/-- A call that gives the id a context. -/
theorem Proceeds.of_context (h : AgentInv n nO ag o) (hk : Kept ag.regions ag'.regions)
    (hids : ag'.ids = Function.update ag.ids id { ag.ids id with context := some ctx })
    (hctx : CtxInv n nO ag'.regions o id (ag.ids id).stage (ag.ids id).args (ag.ids id).cm ctx)
    (hpc : PcInv n nO o (ag'.ids ag'.pc.id) ag'.pc) : Proceeds n nO ag ag' o none := by
  refine ⟨h.put hk hids ?_ hpc, Grows.put hk hids (fun _ h => h) (fun _ h => h) fun _ h => h,
    fun _ _ hr => absurd hr (by simp)⟩
  refine { (h.ids id).kept hk with context := ?_ }
  intro ctx' hctx'
  obtain rfl := Option.some_inj.mp hctx'
  exact hctx

theorem AgentInv.at_pc {pc : LoopPc} (h : AgentInv n nO ag o) (hpc : ag.pc = pc) :
    PcInv n nO o (ag.ids pc.id) pc :=
  hpc ▸ h.pc

theorem AgentInv.args_none (h : AgentInv n nO ag o) (hcm : (ag.ids id).cm = .request peer) :
    (ag.ids id).args = none := by
  by_contra hargs
  exact absurd ((h.ids id).calling hargs) (by simp [hcm, Cm.calling])

variable {L : Lookup UInt32 IdRecord} {cfg : Config} {env : LoopEnv}
  {reply : Option (ℕ × RdmaConnParam)}

theorem proceed_resolveRoute (h : AgentInv n nO ag o) (hpc : ag.pc = .resolveRoute id)
    (hs : ag.proceed L cfg env = .ok (ag', reply)) : Proceeds n nO ag ag' o reply := by
  simp only [Agent.proceed, hpc] at hs
  obtain ⟨rfl, rfl⟩ := Prod.mk.inj (Except.ok.inj hs)
  have hargs : (ag.ids id).args ≠ none := h.at_pc hpc
  refine ⟨h.put (Kept.refl _) rfl ((h.ids id).push hargs) trivial,
    Grows.put (Kept.refl _) rfl (fun _ h => h) (fun _ h => h) (fun _ h => h), ?_⟩
  intro peer params hr
  exact absurd hr (by simp)

theorem proceed_init (h : AgentInv n nO ag o) (hpc : ag.pc = .init id params)
    (hs : ag.proceed L cfg env = .ok (ag', reply)) : Proceeds n nO ag ag' o reply := by
  simp only [Agent.proceed, hpc] at hs
  obtain ⟨peer, hcm, hoff⟩ : ∃ peer, (ag.ids id).cm = .request peer ∧
      Offered nO o id peer params := h.at_pc hpc
  split at hs
  · obtain ⟨rfl, rfl⟩ := Prod.mk.inj (Except.ok.inj hs)
    exact ⟨⟨h.ids, ⟨peer, hcm, hoff⟩⟩, Grows.of_eq rfl rfl, fun _ _ hr => absurd hr (by simp)⟩
  · obtain ⟨ag₁, hinit, hs⟩ := Except.bind_eq_ok.mp hs
    obtain ⟨rfl, rfl⟩ := Prod.mk.inj (Except.pure_eq_ok.mp hs)
    obtain ⟨w, hstep, hids, hregions, hpc'⟩ := initStep_eq_ok hinit
    obtain ⟨hargs', hcm', -⟩ := hstep.keeps
    have hw := (h.ids id).init (Or.inr ⟨peer, hcm⟩) hstep
    have hkept : Kept ag.regions ag₁.regions := hregions ▸ Kept.refl _
    refine ⟨h.put hkept hids (hregions ▸ hw) ?_, Grows.put hkept hids ?_ ?_ ?_,
      fun _ _ hr => absurd hr (by simp)⟩
    · refine PcInv.of_put hids (by rw [hpc', hpc]; rfl) ?_
      rw [hpc', hpc]
      exact ⟨peer, hcm'.trans hcm, hoff⟩
    · exact fun args ha => hargs'.trans ha
    · exact fun peer hp => hcm'.trans hp
    · exact fun peer hp => hcm'.trans hp

theorem proceed_setup_none (h : AgentInv n nO ag o) (hpc : ag.pc = .setup id none)
    (hs : ag.proceed L cfg env = .ok (ag', reply)) : Proceeds n nO ag ag' o reply := by
  simp only [Agent.proceed, hpc] at hs
  obtain ⟨⟨tables, c⟩, hsetup, hs⟩ := Except.bind_eq_ok.mp hs
  obtain ⟨rfl, rfl⟩ := Prod.mk.inj (Except.pure_eq_ok.mp hs)
  have hargs : (ag.ids id).args ≠ none := h.at_pc hpc
  obtain ⟨ctx, hctx, -⟩ := Except.bind_eq_ok.mp hsetup
  have hctx := deref_eq_ok.mp hctx
  obtain ⟨hsame, hlocal, hstate⟩ := setup_none_same hctx hsetup
  have hold := (h.ids id).context ctx hctx
  have hnew := hold.same hsame hlocal fun hready => (hold.ready (hstate ▸ hready)).same hsame
  exact Proceeds.of_context h (Kept.refl _) rfl hnew (PcInv.of_put rfl rfl hargs)

/-- An id whose request was taken has not become ready. -/
theorem Joined.not_request {cm : Cm} (h : Joined nO o id cm ctx) : cm ≠ .request peer := by
  rintro rfl
  rcases h with ⟨p, hcm⟩ | ⟨-, p, hcm, -⟩
  · exact absurd hcm (by simp)
  · exact absurd hcm (by simp)

theorem proceed_setup_some (h : AgentInv n nO ag o) (hpc : ag.pc = .setup id (some params))
    (hs : ag.proceed L cfg env = .ok (ag', reply)) : Proceeds n nO ag ag' o reply := by
  simp only [Agent.proceed, hpc] at hs
  obtain ⟨⟨tables, c⟩, hsetup, hs⟩ := Except.bind_eq_ok.mp hs
  obtain ⟨rfl, rfl⟩ := Prod.mk.inj (Except.pure_eq_ok.mp hs)
  obtain ⟨peer, hcm, harrived, args, m, hargs, hdata, hoffers, hflags, htype⟩ :
      ∃ peer, (ag.ids id).cm = .request peer ∧ Offered nO o id peer params := h.at_pc hpc
  obtain ⟨ctx, hctx, -⟩ := Except.bind_eq_ok.mp hsetup
  have hctx := deref_eq_ok.mp hctx
  obtain ⟨hsame, hlocal, hstate⟩ := setup_some_same hctx hdata hsetup
  have hold := (h.ids id).context ctx hctx
  have hsound : Sound nO { ctx with
      flags := m.flags
      appType := m.type } := hold.sound
  have hwel : Welcomed nO o peer c.ctx :=
    ⟨(withRemote_informed hoffers).same hsame, args, hargs,
      hsame.flags.trans hflags, hsame.appType.trans htype⟩
  have hnone := h.args_none hcm
  refine Proceeds.of_context h (Kept.refl _) rfl ?_
    (PcInv.of_put rfl rfl ⟨peer, c.ctx, hcm, rfl, hwel⟩)
  refine ⟨hold.past, ?_, ?_, ?_, (withRemote_sound hoffers hsound).same hsame, ?_, ?_⟩
  · rw [hlocal]
    exact hold.regions
  · exact fun ht => absurd ht (by simp [hcm, Cm.told])
  · exact fun g hg => absurd (hnone.symm.trans hg) (by simp)
  · exact fun p hp => absurd (hcm.symm.trans hp) (by simp)
  · intro hready
    exact absurd hcm (hold.ready (hstate ▸ hready)).not_request

theorem proceed_preConn {accepting : Bool} (h : AgentInv cfg.numMrs nO ag o)
    (hpc : ag.pc = .preConn id accepting)
    (hs : ag.proceed L cfg env = .ok (ag', reply)) : Proceeds cfg.numMrs nO ag ag' o reply := by
  simp only [Agent.proceed, hpc] at hs
  obtain ⟨ctx, hctx, hs⟩ := Except.bind_eq_ok.mp hs
  have hctx := deref_eq_ok.mp hctx
  obtain ⟨tables, -, hs⟩ := Except.bind_eq_ok.mp hs
  obtain ⟨⟨regions, ctx'⟩, hregister, hs⟩ := Except.bind_eq_ok.mp hs
  obtain ⟨rfl, rfl⟩ := Prod.mk.inj (Except.pure_eq_ok.mp hs)
  have hreg := mrRegister_eq_ok hregister
  have hkept := registration_kept hreg
  obtain ⟨hsame, hstate⟩ := registering_same hreg.frame
  have hold := ((h.ids id).context ctx hctx).kept hkept
  have hhas : HasRegions cfg.numMrs ctx' := by
    intro i hi
    obtain ⟨mr, -, hmr, -⟩ := hreg.region i hi
    exact ⟨mr, hmr⟩
  refine Proceeds.of_context h hkept rfl ?_ (PcInv.of_put rfl rfl ?_)
  · refine ⟨hold.past, ?_, fun _ => hhas, ?_, hold.sound.same hsame,
      fun p hp => (hold.welcomed p hp).same hsame,
      fun hready => (hold.ready (hstate ▸ hready)).same hsame⟩
    · -- the regions of the connection are those the process keeps
      intro i mr hmr
      by_cases hi : i.val < cfg.numMrs.toNat
      · obtain ⟨mr', hmr', hlocal, -⟩ := hreg.region i hi
        exact hmr'.trans (hlocal.symm.trans hmr)
      · obtain ⟨-, hlocal, -⟩ := hreg.rest i (by omega)
        exact hold.regions i mr (hlocal.symm.trans hmr)
    · rw [hsame.flags, hsame.appType]
      exact hold.carried
  · cases accepting with
    | false => exact ⟨h.at_pc hpc, ctx', rfl, hhas⟩
    | true =>
      obtain ⟨peer, ctx₀, hcm, hctx₀, hwel⟩ : ∃ peer ctx, (ag.ids id).cm = .request peer ∧
          (ag.ids id).context = some ctx ∧ Welcomed nO o peer ctx := h.at_pc hpc
      obtain rfl : ctx = ctx₀ := Option.some_inj.mp (hctx.symm.trans hctx₀)
      exact ⟨peer, ctx', hcm, rfl, hwel.same hsame, hhas⟩

theorem proceed_finalize (h : AgentInv n nO ag o) (hpc : ag.pc = .finalize id params)
    (hs : ag.proceed L cfg env = .ok (ag', reply)) : Proceeds n nO ag ag' o reply := by
  simp only [Agent.proceed, hpc] at hs
  obtain ⟨ctx, hctx, hs⟩ := Except.bind_eq_ok.mp hs
  have hctx := deref_eq_ok.mp hctx
  obtain ⟨ctx', hfinal, hs⟩ := Except.bind_eq_ok.mp hs
  obtain ⟨rfl, rfl⟩ := Prod.mk.inj (Except.pure_eq_ok.mp hs)
  have hold := (h.ids id).context ctx hctx
  have hrep : Replied nO o id (ag.ids id).cm params := h.at_pc hpc
  obtain ⟨-, hlocal, hcase⟩ := finalize_same hfinal
  refine Proceeds.of_context h (Kept.refl _) rfl ?_ trivial
  rcases hcase with ⟨hnone, hsame⟩ | ⟨m, hsome, hsame⟩
  · -- the accepting side: the tables were filled at the request
    rcases hrep with ⟨-, hacc⟩ | ⟨m, peer, hdata, -⟩
    · exact hold.same hsame hlocal fun _ => Or.inl hacc
    · exact absurd (hnone.symm.trans hdata) (by simp)
  · rcases hrep with ⟨hnone, -⟩ | ⟨m', peer, hdata, hoffers, hcm, hacc⟩
    · exact absurd (hnone.symm.trans hsome) (by simp)
    · obtain rfl : m = m' := Option.some_inj.mp (hsome.symm.trans hdata)
      have hinf : Informed nO o.regions ctx' := (withRemote_informed hoffers).same hsame
      refine ⟨hold.past, ?_, ?_, ?_, (withRemote_sound hoffers hold.sound).same hsame, ?_,
        fun _ => Or.inr ⟨hinf, peer, hcm, hacc⟩⟩
      · rw [hlocal]
        exact hold.regions
      · intro ht i hi
        rw [hlocal]
        exact hold.told ht i hi
      · rw [hsame.flags, hsame.appType]
        exact hold.carried
      · exact fun p hp => absurd (hcm.symm.trans hp) (by simp)

/-- `build_rc_params` describes the regions the process keeps. -/
theorem buildRcParams_offers {regions : MrRegions}
    (hregions : ∀ i mr, ctx.localMr i = some mr → regions i = some mr)
    (h : buildRcParams n ctx = .ok params) :
    ∃ m, params.privateData = some m ∧ Offers n regions m ∧
      m.flags = ctx.flags ∧ m.type = ctx.appType := by
  obtain ⟨-, m, hdata, hflags, htype, hcount, hentry⟩ := buildRcParams_eq_ok h
  refine ⟨m, hdata, ⟨hcount, ?_⟩, hflags, htype⟩
  intro i hi
  obtain ⟨mr, hmr, hvalues⟩ := hentry i hi
  exact ⟨mr, hregions i mr hmr, hvalues⟩

/-- The metadata of a connection being made are built with the type it was made for. -/
def TypeStored (w : IdState) : Prop :=
  w.stage.hasType = true ∨ ∃ args ∈ w.args, args.type = 0

instance (w : IdState) : Decidable (TypeStored w) :=
  inferInstanceAs (Decidable (_ ∨ _))

theorem proceed_connect (h : AgentInv cfg.numMrs nO ag o) (hpc : ag.pc = .answer id false)
    (htype : TypeStored (ag.ids id)) (hs : ag.proceed L cfg env = .ok (ag', reply)) :
    Proceeds cfg.numMrs nO ag ag' o reply := by
  simp only [Agent.proceed, hpc] at hs
  obtain ⟨ctx, hctx, hs⟩ := Except.bind_eq_ok.mp hs
  have hctx := deref_eq_ok.mp hctx
  obtain ⟨params, hbuild, hs⟩ := Except.bind_eq_ok.mp hs
  have hold := (h.ids id).context ctx hctx
  obtain ⟨m, hdata, hoffers, hflags, hmtype⟩ := buildRcParams_offers hold.regions hbuild
  obtain ⟨hargs, ctx', hctx', hhas⟩ : (ag.ids id).args ≠ none ∧
      ∃ ctx, (ag.ids id).context = some ctx ∧ HasRegions cfg.numMrs ctx := h.at_pc hpc
  obtain rfl : ctx = ctx' := Option.some_inj.mp (hctx.symm.trans hctx')
  obtain ⟨args, hargs⟩ := Option.ne_none_iff_exists'.mp hargs
  obtain ⟨hcflags, hctype⟩ := hold.carried args hargs
  have hmargs : m.type = args.type := by
    rw [hmtype, hctype]
    rcases htype with hstage | ⟨args', hargs', hzero⟩
    · rw [if_pos hstage]
    · rw [Option.mem_def, hargs] at hargs'
      obtain rfl : args = args' := Option.some_inj.mp hargs'
      rw [hzero, ite_self]
  split at hs
  · rename_i hcm
    obtain ⟨rfl, rfl⟩ := Prod.mk.inj (Except.pure_eq_ok.mp hs)
    have hw : IdInv cfg.numMrs nO ag.regions o id { ag.ids id with cm := .connecting params } := by
      refine ⟨?_, fun _ => rfl, fun _ _ => hold.past, ?_, ?_, ?_, ?_, ?_⟩
      · exact fun hstage => absurd hstage (Stage.ne_unborn hold.past)
      · intro ctx₁ hctx₁
        obtain rfl : ctx = ctx₁ := Option.some_inj.mp (hctx.symm.trans hctx₁)
        refine ⟨hold.past, hold.regions, fun _ => hhas, hold.carried, hold.sound,
          fun p hp => absurd hp (by simp), ?_⟩
        intro hready
        rcases hold.ready hready with ⟨p, hp⟩ | ⟨-, p, hp, -⟩
        · exact absurd (hcm.symm.trans hp) (by simp)
        · exact absurd (hcm.symm.trans hp) (by simp)
      · intro params' hparams'
        obtain rfl : params = params' := Cm.connecting.inj hparams'
        exact ⟨args, m, hargs, hdata, hoffers, hflags.trans hcflags, hmargs⟩
      · exact fun p params' hp => absurd hp (by simp)
      · rintro p (hp | hp)
        · exact absurd hp (by simp)
        · exact absurd hp (by simp)
      · exact fun e he => ((h.ids id).queue e he).of_open (by simp [hcm]) (by simp [hcm])
    refine ⟨h.put (Kept.refl _) rfl hw trivial,
      Grows.put (Kept.refl _) rfl (fun _ h => h) ?_ ?_, fun _ _ hr => absurd hr (by simp)⟩
    · exact fun p hp => absurd (hcm.symm.trans hp) (by simp)
    · exact fun p hp => absurd (hcm.symm.trans hp) (by simp)
  · exact absurd hs (by simp [throw, throwThe, MonadExceptOf.throw])

theorem proceed_accept (h : AgentInv cfg.numMrs nO ag o) (hpc : ag.pc = .answer id true)
    (hs : ag.proceed L cfg env = .ok (ag', reply)) : Proceeds cfg.numMrs nO ag ag' o reply := by
  simp only [Agent.proceed, hpc] at hs
  obtain ⟨ctx, hctx, hs⟩ := Except.bind_eq_ok.mp hs
  have hctx := deref_eq_ok.mp hctx
  obtain ⟨params, hbuild, hs⟩ := Except.bind_eq_ok.mp hs
  have hold := (h.ids id).context ctx hctx
  obtain ⟨m, hdata, hoffers, -, -⟩ := buildRcParams_offers hold.regions hbuild
  obtain ⟨peer, ctx', hcm, hctx', hwel, hhas⟩ : ∃ peer ctx, (ag.ids id).cm = .request peer ∧
      (ag.ids id).context = some ctx ∧ Welcomed nO o peer ctx ∧
      HasRegions cfg.numMrs ctx := h.at_pc hpc
  obtain rfl : ctx = ctx' := Option.some_inj.mp (hctx.symm.trans hctx')
  have hlinked := (h.ids id).linked peer (Or.inl hcm)
  have hnone := h.args_none hcm
  rw [hcm] at hs
  obtain ⟨rfl, rfl⟩ := Prod.mk.inj (Except.pure_eq_ok.mp hs)
  have hw : IdInv cfg.numMrs nO ag.regions o id { ag.ids id with cm := .accepted peer } := by
    refine ⟨?_, fun hargs => absurd hnone hargs, fun hargs => absurd hnone hargs, ?_, ?_, ?_, ?_,
      ?_⟩
    · exact fun hstage => absurd hstage (Stage.ne_unborn hold.past)
    · intro ctx₁ hctx₁
      obtain rfl : ctx = ctx₁ := Option.some_inj.mp (hctx.symm.trans hctx₁)
      refine ⟨hold.past, hold.regions, fun _ => hhas, hold.carried, hold.sound, ?_,
        fun _ => Or.inl ⟨peer, rfl⟩⟩
      intro p hp
      obtain rfl := Cm.accepted.inj hp
      exact hwel
    · exact fun p hp => absurd hp (by simp)
    · exact fun p params' hp => absurd hp (by simp)
    · rintro p (hp | hp)
      · exact absurd hp (by simp)
      · obtain rfl := Cm.accepted.inj hp
        exact hlinked
    · exact fun e he => ((h.ids id).queue e he).of_open (by simp [hcm]) (by simp [hcm])
  have hself : ∀ w, Function.update ag.ids id w id = w := fun w => Function.update_self ..
  refine ⟨h.put (Kept.refl _) rfl (hw.push (Or.inl ⟨rfl, peer, rfl⟩)) trivial,
    Grows.put (Kept.refl _) rfl (fun _ h => h) ?_ ?_, ?_⟩
  · exact fun p hp => absurd (hcm.symm.trans hp) (by simp)
  · exact fun p hp => absurd (hcm.symm.trans hp) (by simp)
  · -- the answer is of the regions of this side
    intro p params' hr
    obtain ⟨rfl, rfl⟩ := Prod.mk.inj (Option.some_inj.mp hr)
    refine Or.inr ⟨m, id, hdata, hoffers, hlinked, ?_⟩
    show (Function.update ag.ids id _ id).cm = _
    rw [hself]
    rfl

theorem proceed_disconnect (h : AgentInv n nO ag o) (hpc : ag.pc = .disconnect id)
    (hs : ag.proceed L cfg env = .ok (ag', reply)) : Proceeds n nO ag ag' o reply := by
  simp only [Agent.proceed, hpc] at hs
  obtain ⟨ctx, hctx, hs⟩ := Except.bind_eq_ok.mp hs
  have hctx := deref_eq_ok.mp hctx
  obtain ⟨⟨tables, ctx'⟩, hdisc, hs⟩ := Except.bind_eq_ok.mp hs
  obtain ⟨rfl, rfl⟩ := Prod.mk.inj (Except.pure_eq_ok.mp hs)
  obtain ⟨hstate, hlocal, hsame⟩ := rcDisconnect_same hdisc
  have hnew := ((h.ids id).context ctx hctx).same hsame hlocal fun hready =>
    absurd (hstate.symm.trans hready) (by simp)
  refine Proceeds.of_context h (Kept.refl _) rfl hnew ?_
  show PcInv _ _ _ _ (if cfg.isClient = true then _ else _)
  split
  · trivial
  · trivial

theorem proceed_clear {exit : Bool} (h : AgentInv n nO ag o) (hpc : ag.pc = .clear id exit)
    (hs : ag.proceed L cfg env = .ok (ag', reply)) : Proceeds n nO ag ag' o reply := by
  simp only [Agent.proceed, hpc] at hs
  obtain ⟨ctx, -, hs⟩ := Except.bind_eq_ok.mp hs
  obtain ⟨terminated, -, hs⟩ := Except.bind_eq_ok.mp hs
  obtain ⟨-, -, hs⟩ := Except.bind_eq_ok.mp hs
  obtain ⟨slot, -, hs⟩ := Except.bind_eq_ok.mp hs
  obtain ⟨rfl, rfl⟩ := Prod.mk.inj (Except.pure_eq_ok.mp hs)
  exact ⟨⟨h.ids, trivial⟩, Grows.of_eq rfl rfl, fun _ _ hr => absurd hr (by simp)⟩

theorem proceed_erase {exit : Bool} (h : AgentInv n nO ag o) (hpc : ag.pc = .erase id exit)
    (hs : ag.proceed L cfg env = .ok (ag', reply)) : Proceeds n nO ag ag' o reply := by
  simp only [Agent.proceed, hpc] at hs
  obtain ⟨ctx, -, hs⟩ := Except.bind_eq_ok.mp hs
  obtain ⟨slot, -, hs⟩ := Except.bind_eq_ok.mp hs
  obtain ⟨rfl, rfl⟩ := Prod.mk.inj (Except.pure_eq_ok.mp hs)
  have hw : IdInv n nO ag.regions o id { ag.ids id with context := none } :=
    { h.ids id with context := fun ctx hctx => absurd hctx (by simp) }
  refine ⟨h.put (Kept.refl _) rfl hw ?_,
    Grows.put (Kept.refl _) rfl (fun _ h => h) (fun _ h => h) (fun _ h => h),
    fun _ _ hr => absurd hr (by simp)⟩
  show PcInv _ _ _ _ (if exit = true then _ else _)
  split
  · trivial
  · trivial

/-- A call that builds metadata for a connection being made does so once the type is
stored. -/
def BuildsTyped (ag : Agent) : Prop :=
  match ag.pc with
  | .answer id false => TypeStored (ag.ids id)
  | _ => True

instance (ag : Agent) : Decidable (BuildsTyped ag) := by
  rw [BuildsTyped]
  split <;> infer_instance

/-- Every call of the event loop. -/
theorem proceed_inv (h : AgentInv cfg.numMrs nO ag o) (hc : BuildsTyped ag)
    (hs : ag.proceed L cfg env = .ok (ag', reply)) : Proceeds cfg.numMrs nO ag ag' o reply := by
  cases hpc : ag.pc with
  | idle | left =>
    simp only [Agent.proceed, hpc] at hs
    obtain ⟨rfl, rfl⟩ := Prod.mk.inj (Except.ok.inj hs)
    exact ⟨h, Grows.of_eq rfl rfl, fun _ _ hr => absurd hr (by simp)⟩
  | resolveRoute id => exact proceed_resolveRoute h hpc hs
  | init id params => exact proceed_init h hpc hs
  | setup id params =>
    cases params with
    | none => exact proceed_setup_none h hpc hs
    | some params => exact proceed_setup_some h hpc hs
  | preConn id accepting => exact proceed_preConn h hpc hs
  | answer id accepting =>
    cases accepting with
    | false =>
      rw [BuildsTyped, hpc] at hc
      exact proceed_connect h hpc hc hs
    | true => exact proceed_accept h hpc hs
  | finalize id params => exact proceed_finalize h hpc hs
  | disconnect id => exact proceed_disconnect h hpc hs
  | clear id exit => exact proceed_clear h hpc hs
  | erase id exit => exact proceed_erase h hpc hs

end

end Agents

end Rdma
