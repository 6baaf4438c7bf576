/-
Taking over the metadata of the peer (`connection.c`, `mr.c`).

The private data of a connect request reaches `setup_connection`, that of a reply
`finalize_connection`; both check its length and pass it to `mr_remote_update`.
Besides the typed tables of `ConnContext`, the loop of `mr_remote_update` is
modelled over memory, where an index outside a table names a cell behind it.

* `mrRemoteUpdate_eq` — the tables after the loop, in closed form;
* `mrRemoteUpdate_contained` — the typed tables are a view of the memory as long
  as the loop stays inside them;
* `metadata_validated_iff` — received metadata is rejected or stays inside the
  tables exactly when its count does, or an earlier check refuses it;
* `metadata_overruns` — a count of 3 passes the length check.
-/
import RednRdma.Setup

namespace Rdma

/-- `rc_set_state`, without the `pthread_cancel` of the poller it ends in. -/
def rcSetState (ctx : ConnContext) (newState : RcState) : ConnContext :=
  if ctx.state = newState then ctx
  else { ctx with
    state := newState
    pollEnable :=
      if newState = .ready ∧ ctx.pollAlways = 0 ∨ newState = .terminated then 0
      else ctx.pollEnable }

/-- The private data of the peer, as `finalize_connection` takes it over. -/
def finalMetadata (params : Option RdmaConnParam) (ctx : ConnContext) :
    Except Stop ConnContext :=
  match params with
  | none => .ok ctx
  | some params =>
    match params.privateData with
    | none => .ok ctx
    | some rcMeta => do
      dieIf (RC_METADATA_SIZE > params.privateDataLen) "invalid connection param length"
      mrRemoteUpdate ctx rcMeta

/-- `finalize_connection`. -/
def finalizeConnection (ctx : ConnContext) (params : Option RdmaConnParam) :
    Except Stop ConnContext := do
  let ctx ← finalMetadata params ctx
  return rcSetState ctx .ready

/-! ### The loop in closed form -/

/-- What `mr_remote_update` stores for entry `i`. -/
def RcMetadata.record (rcMeta : RcMetadata) (i : Fin MAX_MR) : MrContext :=
  { type := i.val, addr := rcMeta.addr i, length := rcMeta.length i, rkey := rcMeta.rkey i }

/-- The context with the first `n` entries of both tables filled in. -/
def withRemote (ctx : ConnContext) (rcMeta : RcMetadata) (n : ℕ) : ConnContext :=
  { ctx with
    remoteMr := fun i => if i.val < n then some (rcMeta.record i) else ctx.remoteMr i
    remoteMrReady := fun i => if i.val < n then true else ctx.remoteMrReady i }

theorem update_remoteMr {α : Type} {t : Fin MAX_MR → α} {f : Fin MAX_MR → α} {n : ℕ}
    (h : n < MAX_MR) :
    Function.update (fun i => if i.val < n then f i else t i) ⟨n, h⟩ (f ⟨n, h⟩) =
      fun i => if i.val < n + 1 then f i else t i := by
  funext i
  by_cases hi : i = ⟨n, h⟩
  · rw [hi, Function.update_self, if_pos (Nat.lt_succ_self n)]
  · rw [Function.update_of_ne hi]
    have hne : i.val ≠ n := fun heq => hi (Fin.ext heq)
    by_cases hlt : i.val < n
    · rw [if_pos hlt, if_pos (by omega)]
    · rw [if_neg hlt, if_neg (by omega)]

/-- `mr_remote_update` fills the entries below the count, or runs out of the
tables. -/
theorem mrRemoteUpdate_eq (ctx : ConnContext) (rcMeta : RcMetadata) :
    mrRemoteUpdate ctx rcMeta =
      if rcMeta.mrCount ≤ MAX_MR then .ok (withRemote ctx rcMeta rcMeta.mrCount.toNat)
      else .error .fault := by
  have hturns : ∀ n : ℕ, (List.range n).foldlM (fun ctx i =>
      if h : i < MAX_MR then
        Except.ok { ctx with
          remoteMr := Function.update ctx.remoteMr ⟨i, h⟩ (some
            { type := i, addr := rcMeta.addr ⟨i, h⟩, length := rcMeta.length ⟨i, h⟩,
              rkey := rcMeta.rkey ⟨i, h⟩ })
          remoteMrReady := Function.update ctx.remoteMrReady ⟨i, h⟩ true }
      else Except.error Stop.fault) ctx =
        if n ≤ MAX_MR then .ok (withRemote ctx rcMeta n) else .error .fault := by
    intro n
    induction n with
    | zero => rfl
    | succ n ih =>
      rw [List.range_succ, List.foldlM_append, ih]
      by_cases hn : n ≤ MAX_MR
      · rw [if_pos hn]
        by_cases hlt : n < MAX_MR
        · -- one more entry is filled in
          rw [if_pos (show n + 1 ≤ MAX_MR from hlt)]
          show Except.bind (dite _ _ _) _ = _
          rw [dif_pos hlt]
          show Except.ok _ = Except.ok _
          congr 1
          have hmr := update_remoteMr (t := ctx.remoteMr) (f := fun i => some (rcMeta.record i)) hlt
          have hready := update_remoteMr (t := ctx.remoteMrReady) (f := fun _ => true) hlt
          simp only [withRemote]
          rw [← hmr, ← hready]
          rfl
        · -- the first entry outside
          rw [if_neg (show ¬ n + 1 ≤ MAX_MR from hlt)]
          show Except.bind (dite _ _ _) _ = _
          rw [dif_neg hlt]
          rfl
      · rw [if_neg hn, if_neg (by omega)]
        rfl
  rw [mrRemoteUpdate, hturns]
  by_cases hcount : rcMeta.mrCount ≤ MAX_MR
  · rw [if_pos hcount, if_pos (by omega)]
  · rw [if_neg hcount, if_neg (by omega)]

/-- What `setup_connection` takes over: nothing, or metadata that fits. -/
theorem takeMetadata_eq_ok {params : Option RdmaConnParam} {ctx ctx' : ConnContext}
    (h : takeMetadata params ctx = .ok ctx') :
    (params.bind RdmaConnParam.privateData = none ∧ ctx' = ctx) ∨
    ∃ rcMeta, params.bind RdmaConnParam.privateData = some rcMeta ∧ rcMeta.mrCount ≤ MAX_MR ∧
      ctx' = withRemote { ctx with
        flags := rcMeta.flags
        appType := rcMeta.type } rcMeta rcMeta.mrCount.toNat := by
  unfold takeMetadata at h
  split at h
  · exact Or.inl ⟨rfl, (Except.ok.inj h).symm⟩
  · rename_i params
    split at h
    · rename_i hnone
      exact Or.inl ⟨hnone, (Except.ok.inj h).symm⟩
    · rename_i rcMeta hsome
      obtain ⟨-, -, h⟩ := Except.bind_eq_ok.mp h
      rw [mrRemoteUpdate_eq] at h
      split at h
      · rename_i hcount
        exact Or.inr ⟨rcMeta, hsome, hcount, (Except.ok.inj h).symm⟩
      · exact absurd h (by simp)

/-! ### The loop over memory -/

/-- `struct rc_metadata` in the receiver's memory: its arrays, and what lies
behind them. -/
structure Received where
  privateDataLen : ℕ
  flags : ℤ
  type : ℤ
  mrCount : ℤ
  addr : ℕ → UInt64
  length : ℕ → UInt64
  rkey : ℕ → UInt32

/-- The struct itself. -/
def Received.rcMetadata (r : Received) : RcMetadata :=
  { flags := r.flags, type := r.type, mrCount := r.mrCount
    addr := fun i => r.addr i, length := fun i => r.length i, rkey := fun i => r.rkey i }

/-- The private data of the event that brings it. -/
def Received.param (r : Received) : RdmaConnParam :=
  { privateData := some r.rcMetadata, privateDataLen := r.privateDataLen }

/-- The memory `mr_remote_update` works on.  The cells from `MAX_MR` on lie behind
the tables of the context. -/
structure RemoteMem where
  /-- `ctx->remote_mr`, pointers into `records`. -/
  remoteMr : ℕ → Option ℕ := fun _ => none
  remoteMrReady : ℕ → Bool := fun _ => false
  /-- The records allocated so far. -/
  records : List MrContext := []
  /-- The entries read of the received arrays. -/
  reads : List ℕ := []

/-- What the loop stores in the record of entry `i`. -/
def Received.record (r : Received) (i : ℕ) : MrContext :=
  { type := i, addr := r.addr i, length := r.length i, rkey := r.rkey i }

/-- One turn of the loop. -/
def RemoteMem.turn (r : Received) (m : RemoteMem) (i : ℕ) : RemoteMem :=
  { remoteMr := Function.update m.remoteMr i (some m.records.length)
    remoteMrReady := Function.update m.remoteMrReady i true
    records := m.records ++ [r.record i]
    reads := m.reads ++ [i] }

/-- `mr_remote_update`. -/
def RemoteMem.update (m : RemoteMem) (r : Received) : RemoteMem :=
  (List.range r.mrCount.toNat).foldl (RemoteMem.turn r) m

/-- The loop has written the cells of the tables only, has read the entries of the
received arrays only, and no entry has had two records. -/
structure RemoteMem.Contained (m m' : RemoteMem) : Prop where
  remoteMr : ∀ i ≥ MAX_MR, m'.remoteMr i = m.remoteMr i
  remoteMrReady : ∀ i ≥ MAX_MR, m'.remoteMrReady i = m.remoteMrReady i
  reads : ∀ i ∈ m'.reads, i < MAX_MR
  records : (m'.records.map MrContext.type).Nodup

/-- Filled from scratch, as `init_connection` leaves the tables. -/
theorem RemoteMem.update_eq (r : Received) :
    RemoteMem.update {} r =
      { remoteMr := fun i => if i < r.mrCount.toNat then some i else none
        remoteMrReady := fun i => i < r.mrCount.toNat
        records := (List.range r.mrCount.toNat).map r.record
        reads := List.range r.mrCount.toNat } := by
  rw [RemoteMem.update]
  induction r.mrCount.toNat with
  | zero => simp
  | succ n ih =>
    rw [List.range_succ, List.foldl_append, ih]
    simp only [List.foldl_cons, List.foldl_nil, RemoteMem.turn, List.length_map,
      List.length_range, List.map_append, List.map_cons, List.map_nil, RemoteMem.mk.injEq,
      and_true]
    constructor
    · funext i
      by_cases hi : i = n
      · simp [hi]
      · simp only [Function.update_of_ne hi, Nat.lt_succ_iff_lt_or_eq, hi, or_false]
    · funext i
      by_cases hi : i = n
      · simp [hi]
      · simp only [Function.update_of_ne hi, Nat.lt_succ_iff_lt_or_eq, hi, or_false]

theorem RemoteMem.contained_iff (r : Received) :
    RemoteMem.Contained {} (RemoteMem.update {} r) ↔ r.mrCount ≤ MAX_MR := by
  rw [RemoteMem.update_eq]
  constructor
  · intro h
    by_contra hcount
    -- entry `MAX_MR` of the received arrays has been read
    have hread := h.reads MAX_MR (List.mem_range.mpr (by omega))
    exact absurd hread (lt_irrefl _)
  · intro hcount
    refine ⟨?_, ?_, ?_, ?_⟩
    · intro i hi
      exact if_neg (by omega)
    · intro i hi
      exact decide_eq_false (by omega)
    · intro i hi
      have hlt := List.mem_range.mp hi
      omega
    · rw [List.map_map]
      exact (List.nodup_range).map fun i j hij => Int.ofNat_inj.mp hij

/-- The tables of the context are those of the memory, as long as the loop stays
inside them. -/
theorem mrRemoteUpdate_contained {ctx ctx' : ConnContext} {r : Received}
    (hmr : ctx.remoteMr = fun _ => none) (hready : ctx.remoteMrReady = fun _ => false)
    (h : mrRemoteUpdate ctx r.rcMetadata = .ok ctx') (i : Fin MAX_MR) :
    ctx'.remoteMr i = ((RemoteMem.update {} r).remoteMr i).bind
      ((RemoteMem.update {} r).records[·]?) ∧
    ctx'.remoteMrReady i = (RemoteMem.update {} r).remoteMrReady i := by
  rw [mrRemoteUpdate_eq] at h
  split at h
  · obtain rfl := Except.ok.inj h
    rw [RemoteMem.update_eq]
    have hcount : r.rcMetadata.mrCount = r.mrCount := rfl
    by_cases hi : i.val < r.mrCount.toNat
    · simp only [withRemote, hcount, if_pos hi, Option.bind_some, List.getElem?_map,
        List.getElem?_range hi, Option.map_some, decide_eq_true hi]
      exact ⟨rfl, trivial⟩
    · simp only [withRemote, hcount, if_neg hi, hmr, hready, Option.bind_none,
        decide_eq_false hi, and_self]
  · exact absurd h (by simp)

/-! ### Validation -/

/-- The call died in a check, or it updated the tables and nothing else. -/
def Validated {α : Type} (outcome : Except Stop α) (r : Received) : Prop :=
  (∃ reason, outcome = .error (.rcDie reason)) ∨
    RemoteMem.Contained {} (RemoteMem.update {} r)

/-- `try_build_device` finds the device neither in the table nor room for it. -/
def NoDevice (s : Option Context) (verbs : ℕ) : Prop :=
  MAX_DEVICES ≤ (s.getD {}).nDev ∧
    ∀ i : Fin MAX_DEVICES, i.val < (s.getD {}).nDev → (s.getD {}).ctx i ≠ some verbs

/-- What `try_build_device` does when it finds room. -/
theorem tryBuildDevice_eq_ok {v : Verbs} {s : Option Context} {verbs : ℕ}
    (h : ¬ NoDevice s verbs) (ctx : ConnContext) :
    ∃ s' devid, tryBuildDevice v s verbs ctx = .ok (s', { ctx with devid := devid }) := by
  unfold tryBuildDevice
  dsimp only
  split
  · exact ⟨_, _, rfl⟩
  · rename_i hnone
    by_cases hroom : (s.getD {}).nDev < MAX_DEVICES
    · rw [dif_pos hroom]
      exact ⟨_, _, rfl⟩
    · refine absurd ⟨Nat.not_lt.mp hroom, ?_⟩ h
      intro i hi heq
      exact absurd (List.find?_eq_none.mp hnone i (List.mem_finRange i)) (by simp [hi, heq])

theorem tryBuildDevice_eq_rcDie {v : Verbs} {s : Option Context} {verbs : ℕ}
    (h : NoDevice s verbs) (ctx : ConnContext) :
    tryBuildDevice v s verbs ctx =
      .error (.rcDie "failed to allocate new rdma device. try increasing MAX_DEVICES.") := by
  have hnone : (List.finRange MAX_DEVICES).find?
      (fun i => i.val < (s.getD {}).nDev ∧ (s.getD {}).ctx i = some verbs) = none := by
    rw [List.find?_eq_none]
    intro i _
    simp only [decide_eq_true_eq, not_and]
    exact h.2 i
  unfold tryBuildDevice
  dsimp only
  rw [hnone]
  exact dif_neg (Nat.not_lt.mpr h.1)

/-- `setup_connection` up to the metadata. -/
theorem setupConnection_metadata {v : Verbs} {s : Option Context} {id : RdmaCmId}
    {params : Option RdmaConnParam} {ctx : ConnContext} {stop : Stop} (hctx : id.context = some ctx)
    (hdev : ¬ NoDevice s id.verbs)
    (h : ∀ devid, takeMetadata params { ctx with devid := devid } = .error stop) :
    setupConnection v s id params = .error stop := by
  obtain ⟨s', devid, hbuild⟩ := tryBuildDevice_eq_ok (v := v) hdev ctx
  rw [setupConnection, hctx]
  show Except.bind (tryBuildDevice v s id.verbs ctx) _ = _
  rw [hbuild]
  show Except.bind (takeMetadata params { ctx with devid := devid }) _ = _
  rw [h devid]
  rfl

/-- The length check and the loop, as both calls have them. -/
theorem takeMetadata_eq (ctx : ConnContext) (r : Received) :
    takeMetadata (some r.param) ctx =
      if r.privateDataLen < RC_METADATA_SIZE then
        .error (.rcDie "invalid connection param length")
      else mrRemoteUpdate { ctx with flags := r.flags, appType := r.type } r.rcMetadata := by
  show Except.bind (dieIf (decide (r.privateDataLen < RC_METADATA_SIZE)) _) _ = _
  by_cases hlen : r.privateDataLen < RC_METADATA_SIZE
  · rw [if_pos hlen, dieIf, decide_eq_true hlen]
    rfl
  · rw [if_neg hlen, dieIf, decide_eq_false hlen]
    rfl

theorem finalMetadata_eq (ctx : ConnContext) (r : Received) :
    finalMetadata (some r.param) ctx =
      if r.privateDataLen < RC_METADATA_SIZE then
        .error (.rcDie "invalid connection param length")
      else mrRemoteUpdate ctx r.rcMetadata := by
  show Except.bind (dieIf (decide (r.privateDataLen < RC_METADATA_SIZE)) _) _ = _
  by_cases hlen : r.privateDataLen < RC_METADATA_SIZE
  · rw [if_pos hlen, dieIf, decide_eq_true hlen]
    rfl
  · rw [if_neg hlen, dieIf, decide_eq_false hlen]
    rfl

/-- A count outside the tables. -/
theorem mrRemoteUpdate_overrun {ctx : ConnContext} {r : Received} (h : ¬ r.mrCount ≤ MAX_MR) :
    mrRemoteUpdate ctx r.rcMetadata = .error .fault := by
  rw [mrRemoteUpdate_eq]
  exact if_neg h

/-- A loop that runs out of the tables is no validation. -/
theorem not_validated {α : Type} {outcome : Except Stop α} {r : Received}
    (hcount : ¬ r.mrCount ≤ MAX_MR) (h : outcome = .error .fault) : ¬ Validated outcome r := by
  rintro (⟨reason, hdie⟩ | hin)
  · exact absurd (hdie.symm.trans h) (by simp)
  · exact hcount ((RemoteMem.contained_iff r).mp hin)

theorem setup_validated_iff (v : Verbs) (s : Option Context) (id : RdmaCmId) (r : Received)
    {ctx : ConnContext} (hctx : id.context = some ctx) :
    Validated (setupConnection v s id (some r.param)) r ↔
      r.mrCount ≤ MAX_MR ∨ r.privateDataLen < RC_METADATA_SIZE ∨ NoDevice s id.verbs := by
  by_cases hdev : NoDevice s id.verbs
  · have hdie : setupConnection v s id (some r.param) =
        .error (.rcDie "failed to allocate new rdma device. try increasing MAX_DEVICES.") := by
      rw [setupConnection, hctx]
      show Except.bind (tryBuildDevice v s id.verbs ctx) _ = _
      rw [tryBuildDevice_eq_rcDie hdev]
      rfl
    exact iff_of_true (Or.inl ⟨_, hdie⟩) (Or.inr (Or.inr hdev))
  · by_cases hlen : r.privateDataLen < RC_METADATA_SIZE
    · have hdie := setupConnection_metadata (v := v) hctx hdev fun devid =>
        (takeMetadata_eq { ctx with devid := devid } r).trans (if_pos hlen)
      exact iff_of_true (Or.inl ⟨_, hdie⟩) (Or.inr (Or.inl hlen))
    · by_cases hcount : r.mrCount ≤ MAX_MR
      · exact iff_of_true (Or.inr ((RemoteMem.contained_iff r).mpr hcount)) (Or.inl hcount)
      · -- the loop is entered, and runs out of the tables
        refine iff_of_false (not_validated hcount ?_)
          (not_or.mpr ⟨hcount, not_or.mpr ⟨hlen, hdev⟩⟩)
        refine setupConnection_metadata hctx hdev ?_
        intro devid
        rw [takeMetadata_eq, if_neg hlen, mrRemoteUpdate_overrun hcount]

theorem finalize_validated_iff (ctx : ConnContext) (r : Received) :
    Validated (finalizeConnection ctx (some r.param)) r ↔
      r.mrCount ≤ MAX_MR ∨ r.privateDataLen < RC_METADATA_SIZE := by
  by_cases hlen : r.privateDataLen < RC_METADATA_SIZE
  · have hdie : finalizeConnection ctx (some r.param) =
        .error (.rcDie "invalid connection param length") := by
      rw [finalizeConnection, finalMetadata_eq, if_pos hlen]
      rfl
    exact iff_of_true (Or.inl ⟨_, hdie⟩) (Or.inr hlen)
  · by_cases hcount : r.mrCount ≤ MAX_MR
    · exact iff_of_true (Or.inr ((RemoteMem.contained_iff r).mpr hcount)) (Or.inl hcount)
    · refine iff_of_false (not_validated hcount ?_) (not_or.mpr ⟨hcount, hlen⟩)
      rw [finalizeConnection, finalMetadata_eq, if_neg hlen, mrRemoteUpdate_overrun hcount]
      rfl

/-- **Received metadata is validated** exactly when its count is within the
tables, or the length check, or before it the table of devices, stops the
process.  A request comes to the context `init_connection` has just stored, a reply
to one whose tables are still empty. -/
theorem metadata_validated_iff (v : Verbs) (s : Option Context) (id : RdmaCmId) (sockfd : ℤ)
    (ctx : ConnContext) (r : Received) :
    (Validated (setupConnection v s
        { id with context := some (initContext sockfd (-1) 1 0) } (some r.param)) r ↔
      r.mrCount ≤ MAX_MR ∨ r.privateDataLen < RC_METADATA_SIZE ∨ NoDevice s id.verbs) ∧
    (Validated (finalizeConnection
        { ctx with remoteMr := fun _ => none, remoteMrReady := fun _ => false }
        (some r.param)) r ↔
      r.mrCount ≤ MAX_MR ∨ r.privateDataLen < RC_METADATA_SIZE) :=
  ⟨setup_validated_iff v s _ r rfl, finalize_validated_iff _ r⟩

/-- A reply of the full length that announces three regions. -/
def overlongReply : Received :=
  { privateDataLen := RC_METADATA_SIZE, flags := 0, type := 0, mrCount := 3
    addr := fun _ => 0, length := fun _ => 0, rkey := fun _ => 0 }

/-- Three regions in a reply: the third pointer and the third flag are stored behind
the tables of the context. -/
theorem metadata_overruns :
    ¬ Validated (finalizeConnection (initContext 0 0 1 0) (some overlongReply.param))
        overlongReply ∧
      (RemoteMem.update {} overlongReply).remoteMr 2 = some 2 ∧
      2 ∈ (RemoteMem.update {} overlongReply).reads := by
  refine ⟨?_, rfl, by decide⟩
  rintro (⟨reason, hdie⟩ | hin)
  · exact absurd hdie (by simp [show finalizeConnection (initContext 0 0 1 0)
      (some overlongReply.param) = .error .fault from rfl])
  · exact absurd (hin.reads 2 (by decide)) (by decide)

end Rdma
