/-
Setting up a connection (`connection.c`, `mr.c`).

`setupConnection` runs once the route is resolved: it finds or opens the
device, takes over the metadata of the peer, creates the completion queue and
the queue pair, and fills the Direct Verbs view of the send queue.  What the
verbs library and the NIC hand back is a parameter, `Verbs`.

* `setupConnection_ring` — what the context of a connection says about the
  driver's ring afterwards: `iqp` describes it, but `sq_start` and `sq_wqe_cnt`
  are as `init_connection` left them.
-/
import RednRdma.Verbs
import RednRdma.Lib.Except

namespace Rdma

abbrev MAX_SEND_QUEUE_SIZE : ℕ := 1024
abbrev MAX_RECV_QUEUE_SIZE : ℕ := 1024

/-- `sizeof(struct rc_metadata)`. -/
abbrev RC_METADATA_SIZE : ℕ := 56

/-- `MLX5_WQE_CTRL_CQ_UPDATE`. -/
abbrev MLX5_WQE_CTRL_CQ_UPDATE : UInt8 := 8

/-- `struct sockaddr_in`, without its padding. -/
structure SockaddrIn where
  port : UInt16
  addr : UInt32
  deriving Repr, DecidableEq

/-- The part of `struct sockaddr_storage` an IPv4 address uses. -/
structure SockaddrStorage where
  family : ℕ
  ipv4 : SockaddrIn
  deriving Repr, DecidableEq

abbrev AF_INET : ℕ := 2

/-- `copy_ipv4_sockaddr`. -/
def copyIpv4Sockaddr (a : SockaddrStorage) : Option SockaddrIn :=
  if a.family = AF_INET then some a.ipv4 else none

/-- `struct id_record`. -/
structure IdRecord where
  addr : SockaddrIn
  qpNum : UInt32
  id : ℕ
  deriving Repr, DecidableEq

/-- `struct context`: the devices in use and the two hash tables. -/
structure Context where
  nDev : ℕ := 0
  ctx : Fin MAX_DEVICES → Option ℕ := fun _ => none
  pd : Fin MAX_DEVICES → Option ℕ := fun _ => none
  idByQp : List (UInt32 × IdRecord) := []
  idByAddr : List (SockaddrIn × IdRecord) := []

/-- `struct rdma_cm_id`, as far as setup reads it. -/
structure RdmaCmId where
  handle : ℕ
  verbs : ℕ
  srcStorage : SockaddrStorage
  context : Option ConnContext

/-- `struct rc_metadata`. -/
structure RcMetadata where
  flags : ℤ
  type : ℤ
  mrCount : ℤ
  addr : Fin MAX_MR → UInt64
  length : Fin MAX_MR → UInt64
  rkey : Fin MAX_MR → UInt32

/-- `struct rdma_conn_param`: the private data of the peer. -/
structure RdmaConnParam where
  privateData : Option RcMetadata
  privateDataLen : ℕ

/-- `struct ibv_qp_init_attr`. -/
structure QpInitAttr where
  sendCq : Option ℕ
  recvCq : Option ℕ
  sqSigAll : ℤ := 0
  maxSendWr : ℕ
  maxRecvWr : ℕ
  maxSendSge : ℕ
  maxRecvSge : ℕ

/-- A queue pair just created: the driver's send queue is empty, and its ring
has been mapped. -/
structure CreatedQp where
  qpNum : UInt32
  queue : DriverQp
  buf : ℕ
  queue_log : queue.log = []
  buf_pos : 0 < buf

/-- What the verbs library hands back. -/
structure Verbs where
  ibvAllocPd : ℕ → Option ℕ
  ibvCreateCompChannel : Option ℕ → Option ℕ
  ibvCreateCq : Option ℕ → ℕ → ℕ → Option ℕ
  mlx5dvInitCq : ℕ → Mlx5dvCq
  rdmaCreateQp : Option ℕ → QpInitAttr → Option CreatedQp

/-- The context `init_connection` stores: `calloc`, and a few fields. -/
def initContext (sockfd type alwaysPoll flags : ℤ) : ConnContext :=
  { pollPermission := 1, pollAlways := alwaysPoll, pollEnable := 1, flags, sockfd,
    appType := type }

/-- `mr_remote_update`. -/
def mrRemoteUpdate (ctx : ConnContext) (rcMeta : RcMetadata) : Except Stop ConnContext :=
  (List.range rcMeta.mrCount.toNat).foldlM (fun ctx i =>
    if h : i < MAX_MR then
      .ok { ctx with
        remoteMr := Function.update ctx.remoteMr ⟨i, h⟩ (some
          { type := i, addr := rcMeta.addr ⟨i, h⟩, length := rcMeta.length ⟨i, h⟩,
            rkey := rcMeta.rkey ⟨i, h⟩ })
        remoteMrReady := Function.update ctx.remoteMrReady ⟨i, h⟩ true }
    else .error .fault) ctx

/-- `try_build_device`. -/
def tryBuildDevice (v : Verbs) (s : Option Context) (verbs : ℕ) (ctx : ConnContext) :
    Except Stop (Context × ConnContext) :=
  let s := s.getD {}
  match (List.finRange MAX_DEVICES).find? fun i => i.val < s.nDev ∧ s.ctx i = some verbs with
  | some i => .ok (s, { ctx with devid := i.val })
  | none =>
    if h : s.nDev < MAX_DEVICES then
      .ok ({ s with
        ctx := Function.update s.ctx ⟨s.nDev, h⟩ (some verbs)
        pd := Function.update s.pd ⟨s.nDev, h⟩ (v.ibvAllocPd verbs)
        nDev := s.nDev + 1 }, { ctx with devid := s.nDev })
    else
      .error (.rcDie "failed to allocate new rdma device. try increasing MAX_DEVICES.")

/-- `rc_get_pd`. -/
def rcGetPd (s : Context) (ctx : ConnContext) : Except Stop (Option ℕ) := do
  dieIf (ctx.devid > MAX_DEVICES - 1) "invalid rdma device index for connection."
  readAt s.pd ctx.devid

/-- The private data of the peer, as `setup_connection` takes it over. -/
def takeMetadata (params : Option RdmaConnParam) (ctx : ConnContext) :
    Except Stop ConnContext :=
  match params with
  | none => .ok ctx
  | some params =>
    match params.privateData with
    | none => .ok ctx
    | some rcMeta => do
      dieIf (RC_METADATA_SIZE > params.privateDataLen) "invalid connection param length"
      mrRemoteUpdate { ctx with flags := rcMeta.flags, appType := rcMeta.type } rcMeta

/-- `build_cq_channel`, without the thread it starts. -/
def buildCqChannel (v : Verbs) (s : Context) (ctx : ConnContext) : Except Stop ConnContext := do
  let device ← readAt s.ctx ctx.devid
  match v.ibvCreateCompChannel device with
  | none => .error (.rcDie "ibv_create_comp_channel() failed")
  | some channel =>
    match v.ibvCreateCq device 50 channel with
    | none => .error (.rcDie "Failed to create CQ")
    | some cq =>
      .ok { ctx with
        compChannel := some channel
        cq := some cq
        icq := some (v.mlx5dvInitCq cq) }

/-- `build_qp_attr`. -/
def buildQpAttr (ctx : ConnContext) : QpInitAttr :=
  { sendCq := ctx.cq
    recvCq := ctx.cq
    maxSendWr := MAX_SEND_QUEUE_SIZE
    maxRecvWr := MAX_RECV_QUEUE_SIZE
    maxSendSge := 16
    maxRecvSge := 16 }

/-- The fields `setup_connection` fills once the queue pair exists: the Direct
Verbs view of the send queue, the table of ids, the signal bits. -/
def attachQp (qp : CreatedQp) (attr : QpInitAttr) (ctx : ConnContext) : ConnContext :=
  { ctx with
    qpNum := qp.qpNum
    iqp := some { sqBuf := qp.buf, sqWqeCnt := qp.queue.wqeCnt, sqStride := 64 }
    sqWrid := fun _ => 0
    sqSignalBits := if attr.sqSigAll ≠ 0 then MLX5_WQE_CTRL_CQ_UPDATE else 0 }

/-- `setup_connection`. -/
def setupConnection (v : Verbs) (s : Option Context) (id : RdmaCmId)
    (params : Option RdmaConnParam) : Except Stop (Context × Conn) := do
  let ctx ← deref id.context
  let (s, ctx) ← tryBuildDevice v s id.verbs ctx
  let ctx ← takeMetadata params ctx
  let ctx ← buildCqChannel v s ctx
  let attr := buildQpAttr ctx
  let pd ← rcGetPd s ctx
  match v.rdmaCreateQp pd attr with
  | none => .error (.rcDie "queue pair creation failed")
  | some qp =>
    match copyIpv4Sockaddr id.srcStorage with
    | none => .error (.rcDie "compatibility issue: can't use a non-IPv4 address")
    | some addr =>
      let entry : IdRecord := { addr, qpNum := qp.qpNum, id := id.handle }
      .ok ({ s with
        idByQp := (qp.qpNum, entry) :: s.idByQp
        idByAddr := (addr, entry) :: s.idByAddr }, { ctx := attachQp qp attr ctx, qp := qp.queue })

/-- The region `ibv_reg_mr` is asked to register, in which domain, with which
access rights. -/
structure MrRequest where
  pd : Option ℕ
  addr : ℕ
  length : ℕ
  access : ℕ
  deriving Repr, DecidableEq

/-- Local write, remote write, remote read and remote atomic. -/
abbrev WQ_ACCESS : ℕ := 1 ||| 2 ||| 4 ||| 8

/-- `register_wq`, for the queue of one connection in the domain of another. -/
def registerWq (s : Context) (wq pd : ConnContext) : Except Stop MrRequest := do
  let pd ← rcGetPd s pd
  let iqp ← deref wq.iqp
  return { pd, addr := wq.sqStart, length := wq.sqWqeCnt * iqp.sqStride.toNat,
           access := WQ_ACCESS }

/-! ### What setup leaves of the ring view -/

/-- Setup keeps the library's own view of the send queue. -/
structure SameView (ctx ctx' : ConnContext) : Prop where
  sqStart : ctx'.sqStart = ctx.sqStart
  sqWqeCnt : ctx'.sqWqeCnt = ctx.sqWqeCnt
  scurPost : ctx'.scurPost = ctx.scurPost

theorem SameView.trans {a b c : ConnContext} (h : SameView a b) (h' : SameView b c) :
    SameView a c :=
  ⟨h'.sqStart.trans h.sqStart, h'.sqWqeCnt.trans h.sqWqeCnt, h'.scurPost.trans h.scurPost⟩

/-- The device is in the table, or it is added to it. -/
theorem tryBuildDevice_cases {v : Verbs} {s : Option Context} {s' : Context} {verbs : ℕ}
    {ctx ctx' : ConnContext} (h : tryBuildDevice v s verbs ctx = .ok (s', ctx')) :
    (∃ i : Fin MAX_DEVICES, i.val < (s.getD {}).nDev ∧ (s.getD {}).ctx i = some verbs ∧
      s' = s.getD {} ∧ ctx' = { ctx with devid := i.val }) ∨
    (∃ hroom : (s.getD {}).nDev < MAX_DEVICES,
      (∀ i : Fin MAX_DEVICES, i.val < (s.getD {}).nDev → (s.getD {}).ctx i ≠ some verbs) ∧
      s' = { s.getD {} with
        ctx := Function.update (s.getD {}).ctx ⟨(s.getD {}).nDev, hroom⟩ (some verbs)
        pd := Function.update (s.getD {}).pd ⟨(s.getD {}).nDev, hroom⟩ (v.ibvAllocPd verbs)
        nDev := (s.getD {}).nDev + 1 } ∧
      ctx' = { ctx with devid := (s.getD {}).nDev }) := by
  unfold tryBuildDevice at h
  dsimp only at h
  split at h
  · rename_i i hfind
    obtain ⟨rfl, rfl⟩ := Prod.mk.inj (Except.ok.inj h)
    have hfound := List.find?_some hfind
    obtain ⟨hlt, hctx⟩ := of_decide_eq_true hfound
    exact Or.inl ⟨i, hlt, hctx, rfl, rfl⟩
  · rename_i hnone
    split at h
    · rename_i hroom
      obtain ⟨rfl, rfl⟩ := Prod.mk.inj (Except.ok.inj h)
      refine Or.inr ⟨hroom, ?_, rfl, rfl⟩
      intro i hi heq
      exact absurd (List.find?_eq_none.mp hnone i (List.mem_finRange i)) (by simp [hi, heq])
    · exact absurd h (by simp)

theorem tryBuildDevice_sameView {v : Verbs} {s : Option Context} {s' : Context} {verbs : ℕ}
    {ctx ctx' : ConnContext} (h : tryBuildDevice v s verbs ctx = .ok (s', ctx')) :
    SameView ctx ctx' := by
  rcases tryBuildDevice_cases h with ⟨i, -, -, -, rfl⟩ | ⟨-, -, -, rfl⟩
  · exact ⟨rfl, rfl, rfl⟩
  · exact ⟨rfl, rfl, rfl⟩

theorem mrRemoteUpdate_sameView {ctx ctx' : ConnContext} {rcMeta : RcMetadata}
    (h : mrRemoteUpdate ctx rcMeta = .ok ctx') : SameView ctx ctx' := by
  rw [mrRemoteUpdate] at h
  generalize List.range rcMeta.mrCount.toNat = is at h
  induction is generalizing ctx with
  | nil =>
    obtain rfl := Except.ok.inj h
    exact ⟨rfl, rfl, rfl⟩
  | cons i is ih =>
    rw [List.foldlM_cons] at h
    obtain ⟨ctx₁, h₁, h₂⟩ := Except.bind_eq_ok.mp h
    split at h₁
    · obtain rfl := Except.ok.inj h₁
      have hview := ih h₂
      exact ⟨hview.sqStart, hview.sqWqeCnt, hview.scurPost⟩
    · exact absurd h₁ (by simp)

theorem takeMetadata_sameView {params : Option RdmaConnParam} {ctx ctx' : ConnContext}
    (h : takeMetadata params ctx = .ok ctx') : SameView ctx ctx' := by
  unfold takeMetadata at h
  split at h
  · obtain rfl := Except.ok.inj h
    exact ⟨rfl, rfl, rfl⟩
  · split at h
    · obtain rfl := Except.ok.inj h
      exact ⟨rfl, rfl, rfl⟩
    · obtain ⟨-, -, h⟩ := Except.bind_eq_ok.mp h
      have hview := mrRemoteUpdate_sameView h
      exact ⟨hview.sqStart, hview.sqWqeCnt, hview.scurPost⟩

theorem buildCqChannel_sameView {v : Verbs} {s : Context} {ctx ctx' : ConnContext}
    (h : buildCqChannel v s ctx = .ok ctx') : SameView ctx ctx' := by
  obtain ⟨device, -, h⟩ := Except.bind_eq_ok.mp h
  split at h
  · exact absurd h (by simp)
  · split at h
    · exact absurd h (by simp)
    · obtain rfl := Except.ok.inj h
      exact ⟨rfl, rfl, rfl⟩

/-- The fields `setup_connection` fills with the completion queue and the queue pair. -/
def Queueing (ctx ctx' : ConnContext) : Prop :=
  ctx' = { ctx with
    compChannel := ctx'.compChannel
    cq := ctx'.cq
    icq := ctx'.icq
    qpNum := ctx'.qpNum
    iqp := ctx'.iqp
    sqWrid := ctx'.sqWrid
    sqSignalBits := ctx'.sqSignalBits }

theorem buildCqChannel_queueing {v : Verbs} {s : Context} {ctx ctx' : ConnContext}
    (h : buildCqChannel v s ctx = .ok ctx') : Queueing ctx ctx' := by
  obtain ⟨device, -, h⟩ := Except.bind_eq_ok.mp h
  split at h
  · exact absurd h (by simp)
  · split at h
    · exact absurd h (by simp)
    · obtain rfl := Except.ok.inj h
      rfl

/-- The device, the metadata, the queues. -/
theorem setupConnection_eq_ok {v : Verbs} {s : Option Context} {id : RdmaCmId}
    {params : Option RdmaConnParam} {s' : Context} {c : Conn} {ctx : ConnContext}
    (hctx : id.context = some ctx) (h : setupConnection v s id params = .ok (s', c)) :
    ∃ s₁ ctx₁ ctx₂, tryBuildDevice v s id.verbs ctx = .ok (s₁, ctx₁) ∧
      takeMetadata params ctx₁ = .ok ctx₂ ∧ Queueing ctx₂ c.ctx ∧
      s'.nDev = s₁.nDev ∧ s'.ctx = s₁.ctx ∧ s'.pd = s₁.pd := by
  rw [setupConnection] at h
  obtain ⟨ctx₀, h₀, h⟩ := Except.bind_eq_ok.mp h
  obtain rfl := Option.some_inj.mp (hctx.symm.trans (deref_eq_ok.mp h₀))
  obtain ⟨⟨s₁, ctx₁⟩, h₁, h⟩ := Except.bind_eq_ok.mp h
  obtain ⟨ctx₂, h₂, h⟩ := Except.bind_eq_ok.mp h
  obtain ⟨ctx₃, h₃, h⟩ := Except.bind_eq_ok.mp h
  obtain ⟨pd, -, h⟩ := Except.bind_eq_ok.mp h
  refine ⟨s₁, ctx₁, ctx₂, h₁, h₂, ?_⟩
  split at h
  · exact absurd h (by simp)
  · split at h
    · exact absurd h (by simp)
    · rename_i qp hqp addr haddr
      obtain ⟨rfl, rfl⟩ := Prod.mk.inj (Except.ok.inj h)
      have hqueue := buildCqChannel_queueing h₃
      refine ⟨?_, rfl, rfl, rfl⟩
      rw [Queueing] at hqueue ⊢
      rw [hqueue]
      rfl

/-- After setup `iqp` describes the driver's ring, and the fields the lookups
read are those of the context `init_connection` stored. -/
theorem setupConnection_ring {v : Verbs} {s : Option Context} {id : RdmaCmId}
    {params : Option RdmaConnParam} {s' : Context} {c : Conn} {ctx : ConnContext}
    (hctx : id.context = some ctx) (h : setupConnection v s id params = .ok (s', c)) :
    SameView ctx c.ctx ∧ (∀ i, c.ctx.sqWrid i = 0) ∧ c.qp.log = [] ∧
      ∃ buf > 0, c.ctx.iqp = some { sqBuf := buf, sqWqeCnt := c.qp.wqeCnt, sqStride := 64 } := by
  rw [setupConnection] at h
  obtain ⟨ctx₀, h₀, h⟩ := Except.bind_eq_ok.mp h
  obtain rfl := Option.some_inj.mp (hctx.symm.trans (deref_eq_ok.mp h₀))
  obtain ⟨⟨s₁, ctx₁⟩, h₁, h⟩ := Except.bind_eq_ok.mp h
  obtain ⟨ctx₂, h₂, h⟩ := Except.bind_eq_ok.mp h
  obtain ⟨ctx₃, h₃, h⟩ := Except.bind_eq_ok.mp h
  obtain ⟨pd, -, h⟩ := Except.bind_eq_ok.mp h
  have hview : SameView ctx ctx₃ :=
    ((tryBuildDevice_sameView h₁).trans (takeMetadata_sameView h₂)).trans
      (buildCqChannel_sameView h₃)
  split at h
  · exact absurd h (by simp)
  · rename_i qp hqp
    split at h
    · exact absurd h (by simp)
    · obtain ⟨-, rfl⟩ := Prod.mk.inj (Except.ok.inj h)
      exact ⟨hview.trans ⟨rfl, rfl, rfl⟩, fun _ => rfl, qp.queue_log, qp.buf, qp.buf_pos, rfl⟩

end Rdma
