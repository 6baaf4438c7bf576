/-
What a posting call does to a connection.

`PostCall` is the list of the calls, and every one of them that returns comes
down to the same few facts (`Posted`): which requests the driver was handed,
with which ids, whether the shadow step ran before, and what the call left
alone.

* `takeIds_numbered` — ids taken in a row follow one another;
* `postNext_eq_ok`, `sendRdmaOperation_eq_ok` and their like — what a call that
  returns has done;
* `exec_posted` — every call that returns is `Posted`.
-/
import RednRdma.Verbs
import RednRdma.Lib.Except

namespace Rdma

/-- A call that puts work requests on a connection's send queue. -/
inductive PostCall
  | rdma (chain : List RdmaMeta) (localId remoteId : ℤ) (opcode : WrOpcode)
  | send (src size : UInt64) (imm : UInt32) (localId : ℤ)
  | post (wrs : List WorkRequest)
  | cas (src dst compare swap lkey rkey : UInt64) (fence : ℤ)
  | fetchAdd (src dst size cmp lkey rkey : UInt64)
  | convertEndian (src dst size lkey rkey : UInt64)
  | noop (signaled : ℤ)
  | calcOp (m : RdmaMeta) (localId remoteId : ℤ)
  | message (msgSize : ℕ) (buffer : ℤ)
  | wait (ctx : ConnContext)
  | waitTill (ctx : ConnContext) (count : UInt32)
  | waitExplicit (ctx : ConnContext) (count : UInt32)
  | trigger (ctx : ConnContext) (count : UInt32)
  | triggerExplicit (ctx : ConnContext) (count : UInt32)
  | setTrigger (ctx : ConnContext) (nops : ℤ) (nwait : UInt32)

namespace PostCall

/-- Run the call; the first component is the id it returns, if it returns one. -/
def exec (c : Conn) : PostCall → Except Stop (Option UInt32 × Conn)
  | rdma chain l r op => (Prod.map some id) <$> sendRdmaOperation c chain l r op
  | send src size imm l => (Prod.map some id) <$> ibvSendAsync c src size imm l
  | post wrs => (Prod.map some id) <$> ibvPostAsync c wrs
  | cas src dst cmp swap lk rk f => (Prod.map some id) <$> ibvCasAsync c src dst cmp swap lk rk f
  | fetchAdd src dst sz cmp lk rk =>
    (Prod.map some id) <$> ibvFetchAddAsync c src dst sz cmp lk rk
  | convertEndian src dst sz lk rk =>
    (Prod.map some id) <$> ibvConvertEndianAsync c src dst sz lk rk
  | noop signaled => (Prod.map some id) <$> ibvNoopAsync c signaled
  | calcOp m l r => (Prod.map some id) <$> ibvCalcOpAsync c m l r
  | message msgSize b => (Prod.map some id) <$> sendMessage msgSize c b
  | wait ctx => (Prod.map some id) <$> ibvWait c ctx
  | waitTill ctx n => (Prod.map some id) <$> ibvWaitTill c ctx n
  | waitExplicit ctx n => (Prod.map some id) <$> ibvWaitExplicit c ctx n
  | trigger ctx n => (Prod.map some id) <$> ibvTrigger c ctx n
  | triggerExplicit ctx n => (Prod.map some id) <$> ibvTriggerExplicit c ctx n
  | setTrigger ctx nops nwait => (Prod.mk none) <$> ibvSetTrigger c ctx nops nwait

/-- The call goes through a post wrapper, where the shadow step is. -/
def wrapped : PostCall → Bool
  | setTrigger .. => false
  | _ => true

/-- The call takes the id of every request it posts from `next_wr_id`. -/
def numbered : PostCall → Bool
  | send .. | post .. => false
  | _ => true

end PostCall

/-- The requests carry the ids that follow `lastSend`, in order. -/
def NumberedFrom (lastSend : UInt32) (wrs : List WorkRequest) : Prop :=
  ∀ i wr, wrs[i]? = some wr → wr.wrId = (lastSend + UInt32.ofNat (i + 1)).toUInt64

/-- What a call that handed `wrs` to the driver did. -/
structure Posted (wrapped numbered : Bool) (c : Conn) (ret : Option UInt32) (c' : Conn)
    (wrs : List WorkRequest) : Prop where
  qp : c.qp.postList wrs = some c'.qp
  ret : ∀ w ∈ ret, ∃ wr, wrs.getLast? = some wr ∧ wr.wrId.toUInt32 = w
  compl : c'.ctx.lastSendCompl = c.ctx.lastSendCompl
  iqp : c'.ctx.iqp = c.ctx.iqp
  sqStart : c'.ctx.sqStart = c.ctx.sqStart
  sqWqeCnt : c'.ctx.sqWqeCnt = c.ctx.sqWqeCnt
  shadow : wrapped = true → ∃ ctx, updateScurPost wrs.head? c.ctx = .ok ctx ∧
    c'.ctx.scurPost = ctx.scurPost ∧ c'.ctx.sqWrid = ctx.sqWrid
  unshadowed : wrapped = false →
    c'.ctx.scurPost = c.ctx.scurPost ∧ c'.ctx.sqWrid = c.ctx.sqWrid
  ids : numbered = true → NumberedFrom c.ctx.lastSend wrs ∧
    c'.ctx.lastSend = c.ctx.lastSend + UInt32.ofNat wrs.length
  unnumbered : numbered = false → c'.ctx.lastSend = c.ctx.lastSend

/-- The id a call returns is that of the last request of the queue it leaves. -/
theorem Posted.last {b n : Bool} {c c' : Conn} {w : UInt32} {wrs : List WorkRequest}
    (h : Posted b n c (some w) c' wrs) :
    ∃ p, c'.qp.log[c'.qp.log.length - 1]? = some p ∧ p.data.wrId.toUInt32 = w := by
  obtain ⟨wr, hwr, hw⟩ := h.ret w rfl
  obtain ⟨new, hlog, hdata⟩ := DriverQp.postList_log h.qp
  rw [← hdata, List.getLast?_map] at hwr
  obtain ⟨p, hp, rfl⟩ := Option.map_eq_some_iff.mp hwr
  refine ⟨p, ?_, hw⟩
  rw [← List.getLast?_eq_getElem?, hlog, List.getLast?_append, hp]
  rfl

/-! ### Taking ids -/

theorem takeIds_snd (ctx : ConnContext) (wrs : List WorkRequest) :
    (takeIds ctx wrs).2 =
      { ctx with lastSend := ctx.lastSend + UInt32.ofNat wrs.length } := by
  induction wrs generalizing ctx with
  | nil => simp [takeIds]
  | cons wr wrs ih =>
    rw [takeIds, nextWrId_send, ih, List.length_cons, ← add_one_add_ofNat]
    rfl

theorem takeIds_length (ctx : ConnContext) (wrs : List WorkRequest) :
    (takeIds ctx wrs).1.length = wrs.length := by
  induction wrs generalizing ctx with
  | nil => rfl
  | cons wr wrs ih => simp [takeIds, ih]

theorem takeIds_numbered (ctx : ConnContext) (wrs : List WorkRequest) :
    NumberedFrom ctx.lastSend (takeIds ctx wrs).1 := by
  induction wrs generalizing ctx with
  | nil =>
    intro i wr h
    simp [takeIds] at h
  | cons wr wrs ih =>
    intro i wr' h
    rw [takeIds, nextWrId_send] at h
    rcases i with _ | i
    · obtain rfl : { wr with wrId := (ctx.lastSend + 1).toUInt64 } = wr' := by simpa using h
      rfl
    · have := ih _ i wr' (by simpa using h)
      rw [this, bumpSend, add_one_add_ofNat]

theorem NumberedFrom.append {a : UInt32} {wrs wrs' : List WorkRequest}
    (h : NumberedFrom a wrs) (h' : NumberedFrom (a + UInt32.ofNat wrs.length) wrs') :
    NumberedFrom a (wrs ++ wrs') := by
  intro i wr hi
  rcases Nat.lt_or_ge i wrs.length with hlt | hge
  · rw [List.getElem?_append_left hlt] at hi
    exact h i wr hi
  · rw [List.getElem?_append_right hge] at hi
    rw [h' _ wr hi, add_assoc, ← UInt32.ofNat_add]
    congr 3
    omega

theorem numberedFrom_singleton {lastSend : UInt32} {wr : WorkRequest}
    (h : wr.wrId = (lastSend + 1).toUInt64) : NumberedFrom lastSend [wr] := by
  intro i wr' hi
  rcases i with _ | i
  · rw [List.getElem?_cons_zero, Option.some_inj] at hi
    exact hi ▸ h
  · simp at hi

theorem getElem?_takeIds (ctx : ConnContext) (wrs : List WorkRequest) (j : ℕ) :
    (takeIds ctx wrs).1[j]? = wrs[j]?.map fun wr =>
      { wr with wrId := (ctx.lastSend + UInt32.ofNat (j + 1)).toUInt64 } := by
  induction wrs generalizing ctx j with
  | nil => simp [takeIds]
  | cons wr wrs ih =>
    rw [takeIds, nextWrId_send]
    cases j with
    | zero => rfl
    | succ j =>
      rw [List.getElem?_cons_succ, List.getElem?_cons_succ, ih, bumpSend, add_one_add_ofNat]

/-- Taking ids changes nothing else of a request. -/
theorem takeIds_flags (ctx : ConnContext) (wrs : List WorkRequest) :
    (takeIds ctx wrs).1.map WorkRequest.flags = wrs.map WorkRequest.flags := by
  induction wrs generalizing ctx with
  | nil => rfl
  | cons wr wrs ih => simp [takeIds, ih]

/-- What is true of the flags of every request stays true when the ids are taken. -/
theorem takeIds_forall_flags {ctx : ConnContext} {wrs : List WorkRequest} {p : SendFlags → Prop}
    (h : ∀ wr ∈ wrs, p wr.flags) : ∀ wr ∈ (takeIds ctx wrs).1, p wr.flags := by
  intro wr hwr
  have hmem : wr.flags ∈ (takeIds ctx wrs).1.map WorkRequest.flags := List.mem_map_of_mem hwr
  rw [takeIds_flags] at hmem
  obtain ⟨wr₀, hwr₀, heq⟩ := List.mem_map.mp hmem
  exact heq ▸ h wr₀ hwr₀

/-! ### The calls -/

/-- The two contexts agree on the send queue and its completion counter. -/
structure SameQueue (ctx ctx' : ConnContext) : Prop where
  iqp : ctx'.iqp = ctx.iqp
  scurPost : ctx'.scurPost = ctx.scurPost
  sqWrid : ctx'.sqWrid = ctx.sqWrid
  sqStart : ctx'.sqStart = ctx.sqStart
  sqWqeCnt : ctx'.sqWqeCnt = ctx.sqWqeCnt
  compl : ctx'.lastSendCompl = ctx.lastSendCompl

theorem SameQueue.refl (ctx : ConnContext) : SameQueue ctx ctx :=
  ⟨rfl, rfl, rfl, rfl, rfl, rfl⟩

theorem SameQueue.bumpSend {ctx ctx' : ConnContext} (h : SameQueue ctx ctx') :
    SameQueue ctx (bumpSend ctx') :=
  ⟨h.iqp, h.scurPost, h.sqWrid, h.sqStart, h.sqWqeCnt, h.compl⟩

theorem SameQueue.countOps {ctx ctx' : ConnContext} (h : SameQueue ctx ctx') (n : ℕ) :
    SameQueue ctx (countOps ctx' n) :=
  ⟨h.iqp, h.scurPost, h.sqWrid, h.sqStart, h.sqWqeCnt, h.compl⟩

theorem SameQueue.rcBindBuffer {ctx ctx' : ConnContext} (h : SameQueue ctx ctx') (buffer : ℤ)
    (wrId : UInt32) : SameQueue ctx (rcBindBuffer ctx' buffer wrId) :=
  ⟨h.iqp, h.scurPost, h.sqWrid, h.sqStart, h.sqWqeCnt, h.compl⟩

theorem SameQueue.takeIds {ctx ctx' : ConnContext} (h : SameQueue ctx ctx')
    (wrs : List WorkRequest) : SameQueue ctx (takeIds ctx' wrs).2 := by
  rw [takeIds_snd]
  exact ⟨h.iqp, h.scurPost, h.sqWrid, h.sqStart, h.sqWqeCnt, h.compl⟩

theorem updateScurPost_eq_ok {wr : Option WorkRequest} {ctx ctx' : ConnContext}
    (h : updateScurPost wr ctx = .ok ctx') :
    ∃ iqp w, ctx.iqp = some iqp ∧ wr = some w ∧ ctx' = { ctx with
      sqWrid := Function.update ctx.sqWrid (ctx.scurPost &&& (iqp.sqWqeCnt - 1)).toNat w.wrId
      scurPost :=
        ctx.scurPost + UInt32.ofNat (divRoundUp (shadowSize w * 16) SEND_WQE_BB) } := by
  rw [updateScurPost] at h
  obtain ⟨iqp, hiqp, h⟩ := Except.bind_eq_ok.mp h
  obtain ⟨w, hw, h⟩ := Except.bind_eq_ok.mp h
  rw [Except.pure_eq_ok] at h
  exact ⟨iqp, w, deref_eq_ok.mp hiqp, deref_eq_ok.mp hw, h.symm⟩

theorem submit_eq_ok {c c' : Conn} {reason : String} {wrs : List WorkRequest}
    (h : submit c reason wrs = .ok c') :
    updateScurPost wrs.head? c.ctx = .ok c'.ctx ∧ c.qp.postList wrs = some c'.qp := by
  rw [submit] at h
  obtain ⟨r, hr, h⟩ := Except.bind_eq_ok.mp h
  rw [ibvPostSendWrapper] at hr
  obtain ⟨ctx, hctx, hr⟩ := Except.bind_eq_ok.mp hr
  rw [Except.pure_eq_ok] at hr
  subst hr
  cases hqp : c.qp.postList wrs with
  | none => simp [hqp] at h
  | some qp =>
    simp only [hqp, Option.map_some, Except.pure_eq_ok] at h
    exact h ▸ ⟨hctx, rfl⟩

/-- A submission goes through if there is a queue, something to post, and the driver takes
it. -/
theorem exists_submit_iff {c : Conn} {reason : String} {wrs : List WorkRequest} :
    (∃ c', submit c reason wrs = .ok c') ↔
      c.ctx.iqp ≠ none ∧ wrs ≠ [] ∧ c.qp.postList wrs ≠ none := by
  constructor
  · rintro ⟨c', h⟩
    obtain ⟨hup, hqp⟩ := submit_eq_ok h
    obtain ⟨iqp, wr, hiqp, hwr, -⟩ := updateScurPost_eq_ok hup
    refine ⟨by simp [hiqp], ?_, by simp [hqp]⟩
    rintro rfl
    exact absurd hwr (by simp)
  · rintro ⟨hiqp, hne, hqp⟩
    obtain ⟨iqp, hiqp⟩ := Option.ne_none_iff_exists'.mp hiqp
    obtain ⟨qp, hqp⟩ := Option.ne_none_iff_exists'.mp hqp
    obtain ⟨wr, hwr⟩ := Option.ne_none_iff_exists'.mp (List.head?_eq_none_iff.not.mpr hne)
    simp [submit, ibvPostSendWrapper, updateScurPost, deref, hiqp, hwr, hqp, bind, Except.bind,
      pure, Except.pure]

/-- The shadow step reads and writes the send queue only. -/
theorem updateScurPost_congr {wr : Option WorkRequest} {ctx ctx₁ ctx₂ : ConnContext}
    (hs : SameQueue ctx ctx₁) (h : updateScurPost wr ctx₁ = .ok ctx₂) :
    ctx₂.lastSend = ctx₁.lastSend ∧ ctx₂.lastSendCompl = ctx.lastSendCompl ∧
      ctx₂.iqp = ctx.iqp ∧ ctx₂.sqStart = ctx.sqStart ∧ ctx₂.sqWqeCnt = ctx.sqWqeCnt ∧
      ∃ ctx', updateScurPost wr ctx = .ok ctx' ∧ ctx₂.scurPost = ctx'.scurPost ∧
        ctx₂.sqWrid = ctx'.sqWrid := by
  obtain ⟨iqp, w, hiqp, rfl, rfl⟩ := updateScurPost_eq_ok h
  refine ⟨rfl, hs.compl, hs.iqp, hs.sqStart, hs.sqWqeCnt, ?_⟩
  rw [hs.iqp] at hiqp
  simp [updateScurPost, deref, hiqp, hs.scurPost, hs.sqWrid, bind, Except.bind, pure, Except.pure]

theorem posted_of_submit {c c' : Conn} {ctx : ConnContext} {reason : String}
    {wrs : List WorkRequest} {ret : UInt32} {numbered : Bool}
    (hs : SameQueue c.ctx ctx) (h : submit { c with ctx } reason wrs = .ok c')
    (hret : ∃ wr, wrs.getLast? = some wr ∧ wr.wrId.toUInt32 = ret)
    (hids : numbered = true → NumberedFrom c.ctx.lastSend wrs ∧
      ctx.lastSend = c.ctx.lastSend + UInt32.ofNat wrs.length)
    (hraw : numbered = false → ctx.lastSend = c.ctx.lastSend) :
    Posted true numbered c (some ret) c' wrs := by
  obtain ⟨hup, hqp⟩ := submit_eq_ok h
  obtain ⟨hlast, hcompl, hiqp, hstart, hcnt, hshadow⟩ := updateScurPost_congr hs hup
  exact {
    qp := hqp
    ret := by rintro w ⟨⟩; exact hret
    compl := hcompl
    iqp := hiqp
    sqStart := hstart
    sqWqeCnt := hcnt
    shadow := fun _ => hshadow
    unshadowed := fun hf => absurd hf (by simp)
    ids := fun hn => hlast ▸ hids hn
    unnumbered := fun hn => hlast ▸ hraw hn }

/-- A call that takes the next id and posts one request under it. -/
theorem posted_of_submit_next {c c' : Conn} {ctx : ConnContext} {reason : String}
    {wr : WorkRequest} (hs : SameQueue c.ctx ctx) (hlast : ctx.lastSend = c.ctx.lastSend + 1)
    (hid : wr.wrId = (c.ctx.lastSend + 1).toUInt64)
    (h : submit { c with ctx } reason [wr] = .ok c') :
    Posted true true c (some (c.ctx.lastSend + 1)) c' [wr] :=
  posted_of_submit hs h ⟨wr, rfl, hid ▸ UInt32.toUInt32_toUInt64 _⟩
    (fun _ => ⟨numberedFrom_singleton hid, hlast⟩) (fun hf => absurd hf (by simp))

/-! ### What a call that returns has done -/

section

variable {c c' : Conn} {ret : UInt32}

/-- A post wrapper that returns has numbered its request and submitted it. -/
theorem postNext_eq_ok {counted : Bool} {reason : String} {sr : WorkRequest}
    (h : postNext c counted reason sr = .ok (ret, c')) :
    ret = c.ctx.lastSend + 1 ∧
      submit { c with ctx := if counted then countOps (bumpSend c.ctx) 1 else bumpSend c.ctx }
        reason [{ sr with wrId := (c.ctx.lastSend + 1).toUInt64 }] = .ok c' := by
  rw [postNext, nextWrId_send] at h
  obtain ⟨c₁, hsubmit, h⟩ := Except.bind_eq_ok.mp h
  obtain ⟨rfl, rfl⟩ := Prod.mk.inj (Except.pure_eq_ok.mp h)
  exact ⟨rfl, hsubmit⟩

/-- A chain that is posted was made into requests, and those were numbered and counted. -/
theorem sendRdmaOperation_eq_ok {chain : List RdmaMeta} {l r : ℤ} {opcode : WrOpcode}
    (h : sendRdmaOperation c chain l r opcode = .ok (ret, c')) :
    ∃ localMr remoteMr reqs last,
      chain.mapM (rdmaRequest localMr remoteMr opcode) = .ok reqs ∧
      (takeIds c.ctx reqs).1.getLast? = some last ∧ ret = last.wrId.toUInt32 ∧
      submit { c with ctx := countOps (takeIds c.ctx reqs).2 (takeIds c.ctx reqs).1.length }
        "failed to post rdma operation" (takeIds c.ctx reqs).1 = .ok c' := by
  rw [sendRdmaOperation] at h
  -- the checks of the two regions
  obtain ⟨_, -, h⟩ := Except.bind_eq_ok.mp h
  obtain ⟨_, -, h⟩ := Except.bind_eq_ok.mp h
  obtain ⟨_, -, h⟩ := Except.bind_eq_ok.mp h
  obtain ⟨_, -, h⟩ := Except.bind_eq_ok.mp h
  obtain ⟨_, -, h⟩ := Except.bind_eq_ok.mp h
  obtain ⟨localMr, -, h⟩ := Except.bind_eq_ok.mp h
  obtain ⟨remoteMr, -, h⟩ := Except.bind_eq_ok.mp h
  obtain ⟨reqs, hreqs, h⟩ := Except.bind_eq_ok.mp h
  obtain ⟨last, hlast, h⟩ := Except.bind_eq_ok.mp h
  obtain ⟨c₁, hsubmit, h⟩ := Except.bind_eq_ok.mp h
  obtain ⟨rfl, rfl⟩ := Prod.mk.inj (Except.pure_eq_ok.mp h)
  exact ⟨localMr, remoteMr, reqs, last, hreqs, deref_eq_ok.mp hlast, rfl, hsubmit⟩

theorem ibvSendAsync_eq_ok {src size : UInt64} {imm : UInt32} {l : ℤ}
    (h : ibvSendAsync c src size imm l = .ok (ret, c')) :
    ∃ sr : WorkRequest, sr.wrId = 99 ∧ sr.flags = { signaled := true } ∧ ret = 99 ∧
      submit { c with ctx := countOps c.ctx 1 } "failed to post rdma operation" [sr] = .ok c' := by
  rw [ibvSendAsync] at h
  obtain ⟨mr?, -, h⟩ := Except.bind_eq_ok.mp h
  obtain ⟨mr, -, h⟩ := Except.bind_eq_ok.mp h
  obtain ⟨c₁, hsubmit, h⟩ := Except.bind_eq_ok.mp h
  obtain ⟨rfl, rfl⟩ := Prod.mk.inj (Except.pure_eq_ok.mp h)
  exact ⟨_, rfl, rfl, rfl, hsubmit⟩

theorem ibvPostAsync_eq_ok {wrs : List WorkRequest} (h : ibvPostAsync c wrs = .ok (ret, c')) :
    ∃ last, wrs.getLast? = some last ∧ ret = last.wrId.toUInt32 ∧
      submit { c with ctx := countOps c.ctx wrs.length } "failed to post rdma operation" wrs =
        .ok c' := by
  rw [ibvPostAsync] at h
  obtain ⟨last, hlast, h⟩ := Except.bind_eq_ok.mp h
  obtain ⟨c₁, hsubmit, h⟩ := Except.bind_eq_ok.mp h
  obtain ⟨rfl, rfl⟩ := Prod.mk.inj (Except.pure_eq_ok.mp h)
  exact ⟨last, deref_eq_ok.mp hlast, rfl, hsubmit⟩

theorem ibvConvertEndianAsync_eq_ok {src dst size lkey rkey : UInt64}
    (h : ibvConvertEndianAsync c src dst size lkey rkey = .ok (ret, c')) :
    ∃ sr : WorkRequest, sr.flags = { signaled := true } ∧
      postNext c true "failed to post rdma operation" sr = .ok (ret, c') := by
  rw [ibvConvertEndianAsync] at h
  split at h
  · exact absurd h (by simp)
  · exact ⟨_, rfl, h⟩

theorem ibvCalcOpAsync_eq_ok {m : RdmaMeta} {l r : ℤ}
    (h : ibvCalcOpAsync c m l r = .ok (ret, c')) :
    ∃ sr : WorkRequest, sr.flags = { signaled := true, withCalc := true } ∧
      postNext c true "failed to post rdma operation" sr = .ok (ret, c') := by
  rw [ibvCalcOpAsync] at h
  obtain ⟨localMr, -, h⟩ := Except.bind_eq_ok.mp h
  obtain ⟨mr?, -, h⟩ := Except.bind_eq_ok.mp h
  obtain ⟨sges, -, h⟩ := Except.bind_eq_ok.mp h
  obtain ⟨remoteMr, -, h⟩ := Except.bind_eq_ok.mp h
  exact ⟨_, rfl, h⟩

/-- A message is bound to its buffer before it is posted and counted after. -/
theorem sendMessage_eq_ok {msgSize : ℕ} {buffer : ℤ}
    (h : sendMessage msgSize c buffer = .ok (ret, c')) :
    ∃ (sr : WorkRequest) (addr : UInt64) (c₁ : Conn),
      readAt c.ctx.msgSend buffer = .ok addr ∧ sr.flags = { signaled := true } ∧
      ret = c.ctx.lastSend + 1 ∧ c' = { c₁ with ctx := countOps c₁.ctx 1 } ∧
      submit { c with ctx := rcBindBuffer (bumpSend c.ctx) buffer (c.ctx.lastSend + 1) }
        "failed to post rdma operation"
        [{ sr with wrId := (c.ctx.lastSend + 1).toUInt64 }] = .ok c₁ := by
  rw [sendMessage] at h
  obtain ⟨addr, haddr, h⟩ := Except.bind_eq_ok.mp h
  obtain ⟨mr?, -, h⟩ := Except.bind_eq_ok.mp h
  obtain ⟨mr, -, h⟩ := Except.bind_eq_ok.mp h
  obtain ⟨c₁, hsubmit, h⟩ := Except.bind_eq_ok.mp h
  obtain ⟨rfl, rfl⟩ := Prod.mk.inj (Except.pure_eq_ok.mp h)
  let sr : WorkRequest :=
    { sgList := [{ addr, length := UInt32.ofNat (48 + msgSize), lkey := mr.lkey }]
      opcode := .send
      flags := { signaled := true } }
  exact ⟨sr, addr, c₁, haddr, rfl, rfl, rfl, hsubmit⟩

theorem ibvTriggerExplicit_eq_ok {ctx : ConnContext} {count : UInt32}
    (h : ibvTriggerExplicit c ctx count = .ok (ret, c')) :
    ∃ sr : WorkRequest, sr.flags = {} ∧
      postNext c false "failed to post rdma wr" sr = .ok (ret, c') := by
  rw [ibvTriggerExplicit] at h
  obtain ⟨⟨w, c₁⟩, hpost, h⟩ := Except.bind_eq_ok.mp h
  obtain ⟨wqe, -, h⟩ := Except.bind_eq_ok.mp h
  obtain ⟨rfl, rfl⟩ := Prod.mk.inj (Except.pure_eq_ok.mp h)
  exact ⟨_, rfl, hpost⟩

theorem ibvSetTrigger_eq_ok {ctx : ConnContext} {nops : ℤ} {nwait : UInt32}
    (h : ibvSetTrigger c ctx nops nwait = .ok c') :
    c'.ctx = (takeIds c.ctx (triggerChain ctx nops.toNat nwait)).2 ∧
      c.qp.postList (takeIds c.ctx (triggerChain ctx nops.toNat nwait)).1 = some c'.qp := by
  rw [ibvSetTrigger] at h
  split at h
  · exact absurd h (by simp)
  · cases hqp : c.qp.postList (takeIds c.ctx (triggerChain ctx nops.toNat nwait)).1 with
    | none => simp [hqp] at h
    | some qp =>
      simp only [hqp, Except.ok.injEq] at h
      subst h
      exact ⟨rfl, rfl⟩

end

/-! ### What it has done is a post -/

theorem postNext_posted {c c' : Conn} {counted : Bool} {reason : String} {sr : WorkRequest}
    {ret : UInt32} (h : postNext c counted reason sr = .ok (ret, c')) :
    Posted true true c (some ret) c'
      [{ sr with wrId := (c.ctx.lastSend + 1).toUInt64 }] := by
  obtain ⟨rfl, hsubmit⟩ := postNext_eq_ok h
  refine posted_of_submit_next ?_ ?_ rfl hsubmit
  · cases counted
    · exact (SameQueue.refl _).bumpSend
    · exact (SameQueue.refl _).bumpSend.countOps 1
  · cases counted <;> rfl

theorem rdmaRequest_flags {localMr : Option IbvMr} {remoteMr : Option MrContext}
    {opcode : WrOpcode} {m : RdmaMeta} {wr : WorkRequest}
    (h : rdmaRequest localMr remoteMr opcode m = .ok wr) : wr.flags = { signaled := true } := by
  rw [rdmaRequest] at h
  obtain ⟨sges, -, h⟩ := Except.bind_eq_ok.mp h
  obtain ⟨target, -, h⟩ := Except.bind_eq_ok.mp h
  rw [← Except.pure_eq_ok.mp h]

theorem sendRdmaOperation_posted {c c' : Conn} {chain : List RdmaMeta} {l r : ℤ}
    {opcode : WrOpcode} {ret : UInt32}
    (h : sendRdmaOperation c chain l r opcode = .ok (ret, c')) :
    ∃ wrs, Posted true true c (some ret) c' wrs ∧ wrs.length = chain.length ∧
      ∀ wr ∈ wrs, wr.flags.inl = false := by
  obtain ⟨localMr, remoteMr, reqs, last, hreqs, hlast, rfl, hsubmit⟩ :=
    sendRdmaOperation_eq_ok h
  obtain ⟨hlen, hmem⟩ := Except.mapM_eq_ok hreqs
  -- what is posted are the requests made of the chain, numbered in order
  have hids : (takeIds c.ctx reqs).1.length = reqs.length := takeIds_length c.ctx reqs
  refine ⟨(takeIds c.ctx reqs).1, ?_, hids.trans hlen,
    takeIds_forall_flags (p := fun flags => flags.inl = false) ?_⟩
  · refine posted_of_submit (((SameQueue.refl _).takeIds reqs).countOps _) hsubmit
      ⟨last, hlast, rfl⟩
      (fun _ => ⟨takeIds_numbered c.ctx reqs, ?_⟩) (fun hf => absurd hf (by simp))
    rw [takeIds_snd, hids]
    rfl
  · intro wr hwr
    obtain ⟨m, -, hm⟩ := hmem wr hwr
    rw [rdmaRequest_flags hm]

theorem ibvSendAsync_posted {c c' : Conn} {src size : UInt64} {imm : UInt32} {l : ℤ}
    {ret : UInt32} (h : ibvSendAsync c src size imm l = .ok (ret, c')) :
    ∃ wr, Posted true false c (some ret) c' [wr] ∧ wr.wrId = 99 ∧ wr.flags.inl = false := by
  obtain ⟨sr, hid, hflags, rfl, hsubmit⟩ := ibvSendAsync_eq_ok h
  refine ⟨sr, posted_of_submit ((SameQueue.refl _).countOps 1) hsubmit ⟨sr, rfl, ?_⟩
    (fun hf => absurd hf (by simp)) (fun _ => rfl), hid, by rw [hflags]⟩
  rw [hid]
  rfl

theorem ibvPostAsync_posted {c c' : Conn} {wrs : List WorkRequest} {ret : UInt32}
    (h : ibvPostAsync c wrs = .ok (ret, c')) : Posted true false c (some ret) c' wrs := by
  obtain ⟨last, hlast, rfl, hsubmit⟩ := ibvPostAsync_eq_ok h
  exact posted_of_submit ((SameQueue.refl _).countOps _) hsubmit ⟨last, hlast, rfl⟩
    (fun hf => absurd hf (by simp)) (fun _ => rfl)

theorem sendMessage_posted {msgSize : ℕ} {c c' : Conn} {buffer : ℤ} {ret : UInt32}
    (h : sendMessage msgSize c buffer = .ok (ret, c')) :
    ∃ wr, Posted true true c (some ret) c' [wr] ∧ wr.flags.inl = false := by
  obtain ⟨sr, addr, c₁, -, hflags, rfl, rfl, hsubmit⟩ := sendMessage_eq_ok h
  have hp := posted_of_submit_next
    ((SameQueue.refl c.ctx).bumpSend.rcBindBuffer buffer _) rfl rfl hsubmit
  -- counting the message afterwards touches nothing a post is judged by
  exact ⟨_, ⟨hp.qp, hp.ret, hp.compl, hp.iqp, hp.sqStart, hp.sqWqeCnt, hp.shadow,
    hp.unshadowed, hp.ids, hp.unnumbered⟩, by rw [hflags]⟩

theorem ibvSetTrigger_posted {c c' : Conn} {ctx : ConnContext} {nops : ℤ} {nwait : UInt32}
    (h : ibvSetTrigger c ctx nops nwait = .ok c') :
    ∃ wrs, Posted false true c none c' wrs := by
  obtain ⟨hctx, hqp⟩ := ibvSetTrigger_eq_ok h
  set reqs := triggerChain ctx nops.toNat nwait
  have hlen : (takeIds c.ctx reqs).1.length = reqs.length := takeIds_length c.ctx reqs
  have hs : SameQueue c.ctx c'.ctx := hctx ▸ (SameQueue.refl c.ctx).takeIds reqs
  have hsend : c'.ctx.lastSend = c.ctx.lastSend + UInt32.ofNat reqs.length := by
    rw [hctx, takeIds_snd]
  exact ⟨(takeIds c.ctx reqs).1, {
    qp := hqp
    ret := by simp
    compl := hs.compl
    iqp := hs.iqp
    sqStart := hs.sqStart
    sqWqeCnt := hs.sqWqeCnt
    shadow := by simp
    unshadowed := fun _ => ⟨hs.scurPost, hs.sqWrid⟩
    ids := fun _ => ⟨takeIds_numbered c.ctx reqs, hlen ▸ hsend⟩
    unnumbered := by simp }⟩

/-- What is known of the list a call hands over. -/
def PostCall.Hands : PostCall → List WorkRequest → Prop
  | rdma chain .., wrs => wrs.length = chain.length ∧ ∀ wr ∈ wrs, wr.flags.inl = false
  | send .., wrs => ∃ wr, wrs = [wr] ∧ wr.wrId = 99 ∧ wr.flags.inl = false
  | post ws, wrs => wrs = ws
  | setTrigger .., _ => True
  | _, wrs => ∃ wr, wrs = [wr] ∧ wr.flags.inl = false

theorem map_some_eq_ok {x : Except Stop (UInt32 × Conn)} {ret : Option UInt32} {c' : Conn}
    (h : (Prod.map some id) <$> x = .ok (ret, c')) : ∃ r, ret = some r ∧ x = .ok (r, c') := by
  rcases x with e | ⟨r, c₁⟩
  · simp [Functor.map, Except.map] at h
  · simp only [Functor.map, Except.map, Prod.map_apply, id_eq, Except.ok.injEq,
      Prod.mk.injEq] at h
    exact ⟨r, h.1.symm, by rw [h.2]⟩

theorem map_none_eq_ok {x : Except Stop Conn} {ret : Option UInt32} {c' : Conn}
    (h : (Prod.mk none) <$> x = .ok (ret, c')) : ret = none ∧ x = .ok c' := by
  rcases x with e | c₁
  · simp [Functor.map, Except.map] at h
  · simp only [Functor.map, Except.map, Except.ok.injEq, Prod.mk.injEq] at h
    exact ⟨h.1.symm, by rw [h.2]⟩

/-- A request that is numbered and posted on its own. -/
theorem postNext_hands {c c' : Conn} {counted : Bool} {reason : String} {sr : WorkRequest}
    {ret : UInt32} (hinl : sr.flags.inl = false)
    (h : postNext c counted reason sr = .ok (ret, c')) :
    ∃ wrs, Posted true true c (some ret) c' wrs ∧
      ∃ wr, wrs = [wr] ∧ wr.flags.inl = false :=
  ⟨_, postNext_posted h, _, rfl, hinl⟩

/-- **Every posting call that returns** has handed one list to the driver and
moved the shadow by its head, or not at all. -/
theorem exec_posted {call : PostCall} {c c' : Conn} {ret : Option UInt32}
    (h : call.exec c = .ok (ret, c')) :
    ∃ wrs, Posted call.wrapped call.numbered c ret c' wrs ∧ call.Hands wrs := by
  cases call with
  | rdma chain l r op =>
    obtain ⟨_, rfl, hx⟩ := map_some_eq_ok h
    exact sendRdmaOperation_posted hx
  | send src size imm l =>
    obtain ⟨_, rfl, hx⟩ := map_some_eq_ok h
    obtain ⟨wr, hp, hid, hinl⟩ := ibvSendAsync_posted hx
    exact ⟨[wr], hp, wr, rfl, hid, hinl⟩
  | post wrs =>
    obtain ⟨_, rfl, hx⟩ := map_some_eq_ok h
    exact ⟨wrs, ibvPostAsync_posted hx, rfl⟩
  | cas src dst cmp swap lk rk f =>
    obtain ⟨_, rfl, hx⟩ := map_some_eq_ok h
    exact postNext_hands rfl hx
  | fetchAdd src dst sz cmp lk rk =>
    obtain ⟨_, rfl, hx⟩ := map_some_eq_ok h
    exact postNext_hands rfl hx
  | convertEndian src dst sz lk rk =>
    obtain ⟨_, rfl, hx⟩ := map_some_eq_ok h
    obtain ⟨sr, hflags, hpost⟩ := ibvConvertEndianAsync_eq_ok hx
    exact postNext_hands (by rw [hflags]) hpost
  | noop signaled =>
    obtain ⟨_, rfl, hx⟩ := map_some_eq_ok h
    exact postNext_hands rfl hx
  | calcOp m l r =>
    obtain ⟨_, rfl, hx⟩ := map_some_eq_ok h
    obtain ⟨sr, hflags, hpost⟩ := ibvCalcOpAsync_eq_ok hx
    exact postNext_hands (by rw [hflags]) hpost
  | message msgSize b =>
    obtain ⟨_, rfl, hx⟩ := map_some_eq_ok h
    obtain ⟨wr, hp, hinl⟩ := sendMessage_posted hx
    exact ⟨[wr], hp, wr, rfl, hinl⟩
  | wait ctx =>
    obtain ⟨_, rfl, hx⟩ := map_some_eq_ok h
    exact postNext_hands rfl hx
  | waitTill ctx n =>
    obtain ⟨_, rfl, hx⟩ := map_some_eq_ok h
    exact postNext_hands rfl hx
  | waitExplicit ctx n =>
    obtain ⟨_, rfl, hx⟩ := map_some_eq_ok h
    exact postNext_hands rfl hx
  | trigger ctx n =>
    obtain ⟨_, rfl, hx⟩ := map_some_eq_ok h
    exact postNext_hands rfl hx
  | triggerExplicit ctx n =>
    obtain ⟨_, rfl, hx⟩ := map_some_eq_ok h
    obtain ⟨sr, hflags, hpost⟩ := ibvTriggerExplicit_eq_ok hx
    exact postNext_hands (by rw [hflags]) hpost
  | setTrigger ctx nops nwait =>
    obtain ⟨rfl, hx⟩ := map_none_eq_ok h
    obtain ⟨wrs, hp⟩ := ibvSetTrigger_posted hx
    exact ⟨wrs, hp, trivial⟩

/-! ### A connection to run calls on -/

/-- A ring of 64 blocks, as the driver creates it. -/
def ring64 : DriverQp where
  wqeCnt := 64
  maxGs := 16
  maxInlineData := 128
  wqeCnt_pow := ⟨6, by decide, rfl⟩
  maxGs_fits := by decide

/-- A connection on it, with its data region registered. -/
def conn64 : Conn where
  ctx :=
    { iqp := some { sqBuf := 0x10000, sqWqeCnt := 64, sqStride := 64 }
      localMr := fun _ => some { addr := 0x1000, length := 4096, lkey := 7, rkey := 8, pd := 0 }
      localMrReady := fun _ => true }
  qp := ring64

/-- A message of 8 bytes from the data region. -/
def meta8 : RdmaMeta := { addr := 0, sgeEntries := [{ addr := 0x1000, length := 8, lkey := 0 }] }

end Rdma
