/-
The handshake of two agents.

* `inv_step` — every step of the agents and the connection manager keeps the invariant;
* `agreement` — both sides of a ready connection agree, in every run in which metadata are
  built after `init_connection` has stored the application type;
* `type_lost` — the route is resolved while `add_connection` is still in
  `init_connection`: the peer is told the type 0.
-/
import RednRdma.Exchange

namespace Rdma

namespace Agents

open Multimap

/-- Every agent next to the other. -/
def Inv (cfg : Side → Config) (s : State) : Prop :=
  ∀ a : Side, AgentInv (cfg a).numMrs (cfg a.other).numMrs (s.agent a) (s.agent a.other)

theorem init_inv (cfg : Side → Config) : Inv cfg {} := fun _ => init_agentInv _ _

@[simp] theorem Side.other_other (a : Side) : a.other.other = a := by
  cases a <;> rfl

theorem Side.other_ne (a : Side) : a.other ≠ a := by
  cases a <;> simp [Side.other]

theorem Side.eq_other {a b : Side} (h : b ≠ a) : b = a.other := by
  cases a <;> cases b <;> first | rfl | exact absurd rfl h

@[simp] theorem State.set_agent (s : State) (a : Side) (ag : Agent) :
    (s.set a ag).agent a = ag :=
  Function.update_self ..

@[simp] theorem State.set_agent_other (s : State) (a : Side) (ag : Agent) :
    (s.set a ag).agent a.other = s.agent a.other :=
  Function.update_of_ne a.other_ne ..

section

variable {L : Lookup UInt32 IdRecord} {cfg : Side → Config} {s s' : State} {a : Side}
  {ag : Agent} {id : ℕ}

/-- One of the agents moves. -/
theorem Inv.set (h : Inv cfg s)
    (hag : AgentInv (cfg a).numMrs (cfg a.other).numMrs ag (s.agent a.other))
    (hg : Grows (s.agent a) ag) : Inv cfg (s.set a ag) := by
  intro b
  by_cases hb : b = a
  · subst hb
    rw [State.set_agent, State.set_agent_other]
    exact hag
  · obtain rfl := Side.eq_other hb
    have hold := h a.other
    rw [Side.other_other] at hold ⊢
    rw [State.set_agent, State.set_agent_other]
    exact hold.grow hg

theorem Inv.dies (h : Inv cfg s) : Inv cfg (s.set a { s.agent a with alive := false }) :=
  h.set ⟨(h a).ids, (h a).pc⟩ (Grows.of_eq rfl rfl)

theorem Inv.setOrDie {outcome : Except Stop Agent} (h : Inv cfg s)
    (hok : ∀ ag, outcome = .ok ag →
      AgentInv (cfg a).numMrs (cfg a.other).numMrs ag (s.agent a.other) ∧ Grows (s.agent a) ag) :
    Inv cfg (s.setOrDie a outcome) := by
  cases outcome with
  | error stop => exact h.dies
  | ok ag =>
    obtain ⟨hag, hg⟩ := hok ag rfl
    exact h.set hag hg

/-- An id gets one more event. -/
theorem Inv.push (h : Inv cfg s) (a : Side) (id : ℕ) (e : CmEvent)
    (he : EventInv (cfg a.other).numMrs (s.agent a.other) id ((s.agent a).ids id).args
      ((s.agent a).ids id).cm e) :
    Inv cfg (s.set a ((s.agent a).put id (((s.agent a).ids id).push e))) := by
  refine h.set ?_ (Grows.put (Kept.refl _) rfl (fun _ h => h) (fun _ h => h) fun _ h => h)
  exact (h a).put_quiet rfl rfl rfl (((h a).ids id).push he)
    ⟨fun hargs => hargs, Or.inl rfl, fun ctx hctx => ⟨ctx, hctx, rfl, fun _ => rfl⟩⟩

/-! ### The steps -/

/-- A new id. -/
theorem Inv.newId {w : IdState} (h : Inv cfg s) (a : Side) (id : ℕ)
    (hstage : ((s.agent a).ids id).stage = .unborn)
    (hw : IdInv (cfg a).numMrs (cfg a.other).numMrs (s.agent a).regions (s.agent a.other) id w) :
    Inv cfg (s.set a ((s.agent a).put id w)) := by
  have hold := (h a).ids id
  obtain ⟨hargs, hcm⟩ := hold.unborn hstage
  have hctx := hold.context_none (by rw [hstage]; rfl)
  have hquiet : Quiet ((s.agent a).ids id) w :=
    ⟨fun hne => absurd hargs hne, Or.inr (Or.inl hcm),
      fun ctx hc => absurd (hctx.symm.trans hc) (by simp)⟩
  refine h.set ((h a).put_quiet rfl rfl rfl hw hquiet) (Grows.put (Kept.refl _) rfl ?_ ?_ ?_)
  · exact fun g hg => absurd (hargs.symm.trans hg) (by simp)
  · exact fun peer hp => absurd (hcm.symm.trans hp) (by simp)
  · exact fun peer hp => absurd (hcm.symm.trans hp) (by simp)

theorem inv_add {args : ConnArgs} (h : Inv cfg s)
    (hs : move L cfg s (.add a id args) = some s') : Inv cfg s' := by
  simp only [move] at hs
  split at hs
  · rename_i hstage
    obtain rfl := Option.some_inj.mp hs
    refine h.newId a id hstage ⟨fun hs => absurd hs (by simp), fun _ => rfl,
      fun _ hne => absurd rfl hne, ?_, ?_, ?_, ?_, ?_⟩
    · exact fun ctx hctx => absurd hctx (by simp)
    · exact fun params hp => absurd hp (by simp)
    · exact fun peer params hp => absurd hp (by simp)
    · rintro peer (hp | hp)
      · exact absurd hp (by simp)
      · exact absurd hp (by simp)
    · exact fun e he => absurd he List.not_mem_nil
  · exact absurd hs (by simp)

theorem inv_app (h : Inv cfg s) (hs : move L cfg s (.app a id) = some s') : Inv cfg s' := by
  have hold := (h a).ids id
  simp only [move] at hs
  split at hs
  · -- `rdma_resolve_addr`
    rename_i args hargs hstage
    obtain rfl := Option.some_inj.mp hs
    have hne : ((s.agent a).ids id).args ≠ none := by simp [hargs]
    have hpast : ((s.agent a).ids id).stage.past = false := by
      rw [hstage]
      rfl
    have hnone := hold.context_none hpast
    have hidle := hold.cm_idle hne hpast
    have hw : IdInv (cfg a).numMrs (cfg a.other).numMrs (s.agent a).regions
        (s.agent a.other) id { (s.agent a).ids id with stage := .scan 0 } := by
      refine { hold with
        unborn := fun hs => absurd hs (by simp)
        moved := fun _ hcm => absurd hidle hcm
        context := fun ctx hctx => absurd (hnone.symm.trans hctx) (by simp)
        offered := fun peer params hp => absurd (hidle.symm.trans hp) (by simp) }
    have hquiet : Quiet ((s.agent a).ids id)
        ({ (s.agent a).ids id with stage := .scan 0 }.push .addrResolved) :=
      ⟨fun hargs => hargs, Or.inl rfl, fun ctx hctx => ⟨ctx, hctx, rfl, fun _ => rfl⟩⟩
    exact h.set ((h a).put_quiet rfl rfl rfl (hw.push hne) hquiet)
      (Grows.put (Kept.refl _) rfl (fun _ h => h) (fun _ h => h) fun _ h => h)
  · exact absurd hs (by simp)
  · exact absurd hs (by simp)
  · -- `init_connection`
    rename_i args hargs _ _ _
    obtain rfl := Option.some_inj.mp hs
    refine h.setOrDie ?_
    intro ag hinit
    obtain ⟨w, hstep, hids, hregions, hpc⟩ := initStep_eq_ok hinit
    obtain ⟨hargs', hcm', -⟩ := hstep.keeps
    have hw := hold.init (Or.inl hargs) hstep
    refine ⟨(h a).put_quiet hregions hids hpc hw (hstep.quiet hold hargs),
      Grows.put (hregions ▸ Kept.refl _) hids ?_ ?_ ?_⟩
    · exact fun g hg => hargs'.trans hg
    · exact fun peer hp => hcm'.trans hp
    · exact fun peer hp => hcm'.trans hp
  · exact absurd hs (by simp)

theorem inv_take (h : Inv cfg s) (hs : move L cfg s (.take a id) = some s') : Inv cfg s' := by
  have hold := (h a).ids id
  simp only [move] at hs
  split at hs
  · rename_i e queue hpc hqueue
    obtain rfl := Option.some_inj.mp hs
    refine h.setOrDie ?_
    intro ag hok
    obtain ⟨pc, hpc', rfl⟩ : ∃ pc, e.handler id = .ok pc ∧
        ((s.agent a).put id { (s.agent a).ids id with queue }).goto pc = ag := by
      cases he : e.handler id with
      | error stop =>
        rw [he] at hok
        exact absurd hok (by simp [Except.map])
      | ok pc =>
        rw [he] at hok
        exact ⟨pc, rfl, Except.ok.inj hok⟩
    have hev := hold.queue e (hqueue ▸ List.mem_cons_self)
    have hw : IdInv (cfg a).numMrs (cfg a.other).numMrs (s.agent a).regions
        (s.agent a.other) id { (s.agent a).ids id with queue } :=
      { hold with queue := fun e' he' => hold.queue e' (hqueue ▸ List.mem_cons_of_mem e he') }
    have hids : (((s.agent a).put id { (s.agent a).ids id with queue }).goto pc).ids =
        Function.update (s.agent a).ids id { (s.agent a).ids id with queue } := rfl
    refine ⟨(h a).put (Kept.refl _) hids hw ?_,
      Grows.put (Kept.refl _) hids (fun _ h => h) (fun _ h => h) fun _ h => h⟩
    cases e with
    | addrResolved | routeResolved | established params =>
      obtain rfl := Except.ok.inj hpc'
      exact PcInv.of_put hids rfl hev
    | disconnected | timewaitExit =>
      obtain rfl := Except.ok.inj hpc'
      trivial
    | rejected | unhandled => exact absurd hpc' (by simp [CmEvent.handler])
  · exact absurd hs (by simp)

theorem inv_takeRequest (h : Inv cfg s) (hs : move L cfg s (.takeRequest a id) = some s') :
    Inv cfg s' := by
  have hold := (h a).ids id
  simp only [move] at hs
  split at hs
  · rename_i peer params hpc hcm
    obtain rfl := Option.some_inj.mp hs
    obtain ⟨hpast, hoff⟩ := hold.offered peer params hcm
    have hnone := hold.context_none hpast
    have hargs : ((s.agent a).ids id).args = none := by
      by_contra hne
      exact absurd (hold.calling hne) (by simp [hcm, Cm.calling])
    have hw : IdInv (cfg a).numMrs (cfg a.other).numMrs (s.agent a).regions (s.agent a.other) id
        { (s.agent a).ids id with
          stage := .scan 0
          cm := .request peer } := by
      refine ⟨fun hs => absurd hs (by simp), fun hne => absurd hargs hne,
        fun hne => absurd hargs hne, ?_, ?_, ?_, ?_, ?_⟩
      · exact fun ctx hctx => absurd (hnone.symm.trans hctx) (by simp)
      · exact fun params' hp => absurd hp (by simp)
      · exact fun p params' hp => absurd hp (by simp)
      · rintro p (hp | hp)
        · obtain rfl := Cm.request.inj hp
          exact hoff.1
        · exact absurd hp (by simp)
      · exact fun e he => (hold.queue e he).of_open (by simp [hcm]) (by simp [hcm])
    refine h.set ((h a).put (Kept.refl _) rfl hw (PcInv.of_put rfl rfl ⟨peer, rfl, hoff⟩))
      (Grows.put (Kept.refl _) rfl (fun _ h => h) ?_ ?_)
    · exact fun p hp => absurd (hcm.symm.trans hp) (by simp)
    · exact fun p hp => absurd (hcm.symm.trans hp) (by simp)
  · exact absurd hs (by simp)

/-- Metadata for a connection being made are built once the type is stored. -/
def TypeFirst (s : State) : Act → Prop
  | .loop a _ => BuildsTyped (s.agent a)
  | _ => True

instance (s : State) (act : Act) : Decidable (TypeFirst s act) := by
  unfold TypeFirst
  split <;> infer_instance

theorem inv_loop {env : LoopEnv} (h : Inv cfg s) (hc : TypeFirst s (.loop a env))
    (hs : move L cfg s (.loop a env) = some s') : Inv cfg s' := by
  simp only [move] at hs
  split at hs
  · exact absurd hs (by simp)
  · exact absurd hs (by simp)
  · split at hs
    · obtain rfl := Option.some_inj.mp hs
      exact h.dies
    · rename_i ag hok
      obtain rfl := Option.some_inj.mp hs
      have hgo := proceed_inv (h a) hc hok
      exact h.set hgo.inv hgo.grows
    · -- the answer goes to the other agent
      rename_i ag peer params hok
      obtain rfl := Option.some_inj.mp hs
      have hgo := proceed_inv (h a) hc hok
      have hreply := hgo.reply peer params rfl
      have hnext := h.set hgo.inv hgo.grows
      have hpush := hnext.push a.other peer (.established params) (by
        rw [Side.other_other, State.set_agent, State.set_agent_other]
        exact hreply)
      rw [State.set_agent_other] at hpush
      exact hpush

/-- The request of an id has reached the other agent. -/
theorem Inv.arrived {params : RdmaConnParam} (h : Inv cfg s) (peer : ℕ)
    (hcm : ((s.agent a).ids id).cm = .connecting params) :
    Inv cfg (s.set a ((s.agent a).put id { (s.agent a).ids id with cm := .arrived peer })) := by
  have hold := (h a).ids id
  have hw : IdInv (cfg a).numMrs (cfg a.other).numMrs (s.agent a).regions (s.agent a.other) id
      { (s.agent a).ids id with cm := .arrived peer } := by
    refine ⟨?_, fun _ => rfl, fun hne _ => hold.moved hne (by simp [hcm]), ?_, ?_, ?_, ?_, ?_⟩
    · intro hs
      exact absurd (hcm.symm.trans (hold.unborn hs).2) (by simp)
    · intro ctx hctx
      have hctxInv := hold.context ctx hctx
      refine { hctxInv with
        told := fun _ => hctxInv.told (by rw [hcm]; rfl)
        welcomed := fun p hp => absurd hp (by simp)
        ready := ?_ }
      intro hready
      rcases hctxInv.ready hready with ⟨p, hp⟩ | ⟨-, p, hp, -⟩
      · exact absurd (hcm.symm.trans hp) (by simp)
      · exact absurd (hcm.symm.trans hp) (by simp)
    · exact fun params' hp => absurd hp (by simp)
    · exact fun p params' hp => absurd hp (by simp)
    · rintro p (hp | hp)
      · exact absurd hp (by simp)
      · exact absurd hp (by simp)
    · exact fun e he => (hold.queue e he).of_open (by simp [hcm]) (by simp [hcm])
  have hquiet : Quiet ((s.agent a).ids id) { (s.agent a).ids id with cm := .arrived peer } :=
    ⟨fun hargs => hargs, Or.inr (Or.inr ⟨params, hcm⟩),
      fun ctx hctx => ⟨ctx, hctx, rfl, fun _ => rfl⟩⟩
  refine h.set ((h a).put_quiet rfl rfl rfl hw hquiet)
    (Grows.put (Kept.refl _) rfl (fun _ h => h) ?_ ?_)
  · exact fun p hp => absurd (hcm.symm.trans hp) (by simp)
  · exact fun p hp => absurd (hcm.symm.trans hp) (by simp)

theorem inv_deliver {peer : ℕ} (h : Inv cfg s)
    (hs : move L cfg s (.deliver a id peer) = some s') : Inv cfg s' := by
  simp only [move] at hs
  split at hs
  · rename_i params hcm
    split at hs
    · rename_i hstage
      obtain rfl := Option.some_inj.mp hs
      obtain ⟨args, m, hargs, hdata, hoffers, hcarry⟩ := ((h a).ids id).sent params hcm
      have hnext := h.arrived peer hcm
      have hunborn : ∀ ag, (((s.set a ag).agent a.other).ids peer).stage = .unborn := by
        intro ag
        rw [State.set_agent_other]
        exact hstage
      have hnew := hnext.newId a.other peer (hunborn _)
        (w := { stage := .requested, cm := .offered id params }) (by
        rw [Side.other_other, State.set_agent_other, State.set_agent]
        refine ⟨fun hs => absurd hs (by simp), fun hne => absurd rfl hne,
          fun hne => absurd rfl hne, ?_, ?_, ?_, ?_, ?_⟩
        · exact fun ctx hctx => absurd hctx (by simp)
        · exact fun params' hp => absurd hp (by simp)
        · intro p params' hp
          obtain ⟨rfl, rfl⟩ := Cm.offered.inj hp
          have hself : ((s.agent a).put id { (s.agent a).ids id with cm := .arrived peer }).ids id =
              { (s.agent a).ids id with cm := .arrived peer } := Function.update_self ..
          refine ⟨rfl, by rw [hself], args, m, by rw [hself]; exact hargs, hdata, hoffers, hcarry⟩
        · rintro p (hp | hp)
          · exact absurd hp (by simp)
          · exact absurd hp (by simp)
        · exact fun e he => absurd he List.not_mem_nil)
      rw [State.set_agent_other] at hnew
      exact hnew
    · exact absurd hs (by simp)
  · exact absurd hs (by simp)

theorem inv_notice {e : CmEvent} (h : Inv cfg s)
    (hs : move L cfg s (.notice a id e) = some s') : Inv cfg s' := by
  simp only [move] at hs
  split at hs
  · rename_i hnotice
    obtain rfl := Option.some_inj.mp hs
    refine h.push a id e ?_
    cases e with
    | disconnected | rejected | timewaitExit | unhandled => trivial
    | _ => exact absurd hnotice.1 (by simp [CmEvent.isNotice])
  · exact absurd hs (by simp)

theorem inv_step {act : Act} (h : Inv cfg s) (hc : TypeFirst s act)
    (hs : step L cfg s act = some s') : Inv cfg s' := by
  rw [step] at hs
  split at hs
  · cases act with
    | add a id args => exact inv_add h hs
    | app a id => exact inv_app h hs
    | take a id => exact inv_take h hs
    | takeRequest a id => exact inv_takeRequest h hs
    | loop a env => exact inv_loop h hc hs
    | deliver a id peer => exact inv_deliver h hs
    | notice a id e => exact inv_notice h hs
  · exact absurd hs (by simp)

/-! ### Agreement -/

/-- The connection manager has joined the two ids. -/
def Peers (s : State) (a : Side) (id id' : ℕ) : Prop :=
  (((s.agent a).ids id).cm = .arrived id' ∧ ((s.agent a.other).ids id').cm = .accepted id) ∨
    (((s.agent a).ids id).cm = .accepted id' ∧ ((s.agent a.other).ids id').cm = .arrived id)

/-- The context `ctx` of one side agrees with the other side. -/
structure AgreesWith (cfg : Side → Config) (s : State) (a : Side) (id id' : ℕ)
    (ctx : ConnContext) : Prop where
  peers : Peers s a id id'
  /-- `remote_mr_ready` is set for the regions of the peer. -/
  ready : ∀ i : Fin MAX_MR, ctx.remoteMrReady i = true ↔ (i.val : ℤ) < (cfg a.other).numMrs
  /-- `remote_mr` has what `local_mr` of the peer has. -/
  regions : ∀ ctx', ((s.agent a.other).ids id').context = some ctx' →
    ∀ i : Fin MAX_MR, (i.val : ℤ) < (cfg a.other).numMrs →
      ∃ mr r, ctx'.localMr i = some mr ∧ ctx.remoteMr i = some r ∧ Describes r mr
  /-- The accepting side has what the initiator passed to `add_connection`. -/
  args : ((s.agent a).ids id).cm = .accepted id' →
    ∃ args, ((s.agent a.other).ids id').args = some args ∧
      ctx.flags = args.flags ∧ ctx.appType = args.type

/-- Whenever `rc_ready(sockfd)` holds on one side, the connection agrees with its peer. -/
def Agreement (cfg : Side → Config) (s : State) : Prop :=
  ∀ a sockfd, rcReady (s.agent a) sockfd = .ok true →
    ∃ id id' ctx, getConnection (s.agent a) sockfd = .ok (some id) ∧
      ((s.agent a).ids id).context = some ctx ∧ AgreesWith cfg s a id id' ctx

theorem rcReady_eq_true {sockfd : ℤ} (h : rcReady ag sockfd = .ok true) :
    ∃ id ctx, getConnection ag sockfd = .ok (some id) ∧
      (ag.ids id).context = some ctx ∧ ctx.state = .ready := by
  obtain ⟨conn, hconn, h⟩ := Except.bind_eq_ok.mp h
  split at h
  · exact absurd (Except.pure_eq_ok.mp h) (by simp)
  · rename_i id
    obtain ⟨ctx, hctx, h⟩ := Except.bind_eq_ok.mp h
    exact ⟨id, ctx, hconn, deref_eq_ok.mp hctx,
      of_decide_eq_true (Except.pure_eq_ok.mp h)⟩

/-- Both know the same regions of the process. -/
theorem informed_regions {n nO : ℤ} {o : Agent} {id' : ℕ} {ctx ctx' : ConnContext}
    (hinf : Informed nO o.regions ctx) (ho : AgentInv nO n o ag)
    (hctx' : (o.ids id').context = some ctx') (htold : (o.ids id').cm.told = true)
    (i : Fin MAX_MR) (hi : (i.val : ℤ) < nO) :
    ∃ mr r, ctx'.localMr i = some mr ∧ ctx.remoteMr i = some r ∧ Describes r mr := by
  have hlt : i.val < nO.toNat := by omega
  have hold := (ho.ids id').context ctx' hctx'
  obtain ⟨mr', hmr'⟩ := hold.told htold i hlt
  obtain ⟨-, mr, r, hmr, hr, hdata⟩ := hinf i hlt
  obtain rfl : mr' = mr := Option.some_inj.mp ((hold.regions i mr' hmr').symm.trans hmr)
  exact ⟨mr', r, hmr', hr, hdata⟩

theorem ready_iff {n : ℤ} {regions : MrRegions} {ctx : ConnContext}
    (hinf : Informed n regions ctx) (hsound : Sound n ctx) (i : Fin MAX_MR) :
    ctx.remoteMrReady i = true ↔ (i.val : ℤ) < n := by
  constructor
  · intro h
    have hlt := hsound i h
    omega
  · intro h
    exact (hinf i (by omega)).1

theorem Inv.agrees (h : Inv cfg s) : Agreement cfg s := by
  intro a sockfd hready
  obtain ⟨id, ctx, hconn, hctx, hstate⟩ := rcReady_eq_true hready
  have hid := (h a).ids id
  have hctxInv := hid.context ctx hctx
  have ho := h a.other
  rw [Side.other_other] at ho
  rcases hctxInv.ready hstate with ⟨id', hcm⟩ | ⟨hinf, id', hcm, hacc⟩
  · -- the accepting side
    obtain ⟨hinf, hargs⟩ := hctxInv.welcomed id' hcm
    have hlinked := hid.linked id' (Or.inr hcm)
    refine ⟨id, id', ctx, hconn, hctx, Or.inr ⟨hcm, hlinked⟩, ready_iff hinf hctxInv.sound, ?_,
      fun _ => hargs⟩
    exact fun ctx' hctx' => informed_regions hinf ho hctx' (by rw [hlinked]; rfl)
  · refine ⟨id, id', ctx, hconn, hctx, Or.inl ⟨hcm, hacc⟩, ready_iff hinf hctxInv.sound, ?_,
      fun hp => absurd (hcm.symm.trans hp) (by simp)⟩
    exact fun ctx' hctx' => informed_regions hinf ho hctx' (by rw [hacc]; rfl)

/-- A ready connection whose type is not the initiator's. -/
theorem not_agreement (a : Side) (sockfd : ℤ) (id : ℕ) {id' : ℕ} {ctx : ConnContext}
    {args : ConnArgs} (hready : rcReady (s.agent a) sockfd = .ok true)
    (hconn : getConnection (s.agent a) sockfd = .ok (some id))
    (hcm : ((s.agent a).ids id).cm = .accepted id')
    (hctx : ((s.agent a).ids id).context = some ctx)
    (hargs : ((s.agent a.other).ids id').args = some args) (htype : ctx.appType ≠ args.type) :
    ¬ Agreement cfg s := by
  intro hagree
  obtain ⟨k, k', ctx', hconn', hctx', hwith⟩ := hagree a sockfd hready
  obtain rfl : id = k := Option.some_inj.mp (Except.ok.inj (hconn.symm.trans hconn'))
  obtain rfl : ctx = ctx' := Option.some_inj.mp (hctx.symm.trans hctx')
  rcases hwith.peers with ⟨harrived, -⟩ | ⟨haccepted, -⟩
  · exact absurd (hcm.symm.trans harrived) (by simp)
  · obtain rfl : id' = k' := Cm.accepted.inj (hcm.symm.trans haccepted)
    obtain ⟨args', hargs', -, htype'⟩ := hwith.args hcm
    obtain rfl : args = args' := Option.some_inj.mp (hargs.symm.trans hargs')
    exact htype htype'

/-- **Both sides of a ready connection agree**, throughout every run in which the metadata
of a connection being made are built after its type has been stored. -/
theorem agreement {acts : List Act} (hm : Machine.Meets (step L cfg) TypeFirst {} acts) :
    Machine.Along (step L cfg) (Agreement cfg) {} acts :=
  Machine.along_of_meets (I := Inv cfg) (fun _ _ _ hi hc hs => inv_step hi hc hs)
    (fun _ hi => hi.agrees) (init_inv cfg) hm

end

/-! ### One connection -/

/-- Agent one has two regions, agent two has one. -/
def twoAgents (a : Side) : Config where
  numMrs := if a = .one then 2 else 1
  mrs := fun i => { addr := UInt64.ofNat (0x100000 * (i + 1)), length := 4096 }
  msgSize := 8
  isClient := a = .one

def env : LoopEnv where
  verbs := Records.verbsGiving 9
  registrar := Regions.registrar
  device := 5
  srcStorage := { family := AF_INET, ipv4 := { port := 0, addr := 0x0a000001 } }

/-- From the request of id 0 of agent one to the end of its handshake with id 3. -/
def answered : List Act :=
  [.deliver .one 0 3, .takeRequest .two 3, .loop .two env, .loop .two env, .loop .two env,
    .loop .two env, .loop .two env, .loop .two env, .loop .two env, .loop .two env,
    .take .two 3, .loop .two env, .take .one 0, .loop .one env]

/-- `add_connection` returns before the address is resolved. -/
def timely : List Act :=
  [.add .one 0 { type := 5, alwaysPoll := 1, flags := 7 }, .app .one 0, .app .one 0, .app .one 0,
    .app .one 0, .app .one 0, .take .one 0, .loop .one env, .take .one 0, .loop .one env,
    .loop .one env, .loop .one env] ++ answered

/-- The route is resolved when `init_connection` has just stored the context. -/
def hasty : List Act :=
  [.add .one 0 { type := 5, alwaysPoll := 1, flags := 7 }, .app .one 0, .app .one 0, .app .one 0,
    .take .one 0, .loop .one env, .take .one 0, .loop .one env, .loop .one env, .loop .one env,
    .app .one 0, .app .one 0] ++ answered

/-- A connection that gets ready on both sides. -/
theorem agreement_timely :
    Machine.Along (step Lookup.first twoAgents) (Agreement twoAgents) {} timely ∧
      ∃ s, Machine.run (step Lookup.first twoAgents) {} timely = some s ∧
        rcReady (s.agent .one) 0 = .ok true ∧ rcReady (s.agent .two) 0 = .ok true :=
  ⟨agreement (by decide), _, rfl, rfl, rfl⟩

/-- Agent one asked for type 5, agent two is ready with type 0. -/
theorem type_lost : ∃ s ctx args,
    Machine.run (step Lookup.first twoAgents) {} hasty = some s ∧
      rcReady (s.agent .two) 0 = .ok true ∧ ((s.agent .two).ids 3).cm = .accepted 0 ∧
      ((s.agent .two).ids 3).context = some ctx ∧ ctx.appType = 0 ∧
      ((s.agent .one).ids 0).args = some args ∧ args.type = 5 ∧ ¬ Agreement twoAgents s :=
  ⟨_, _, _, rfl, rfl, rfl, rfl, rfl, rfl, rfl,
    not_agreement .two 0 3 rfl rfl rfl rfl rfl (by decide)⟩

end Agents

end Rdma
