/-
The shadow of the send queue against the driver.

`Shadowed` says that the library's `scur_post` is the driver's, and that its
`sq_wrid` holds the driver's `wr_id` at the first block of every WQE still whole
in the ring.  The shadow step looks at one work request only, the head of the
list, and not at its flags:

* `shadowed_of_oneRequest` — it keeps up over any run of calls that hand the
  driver one request at a time, in a size both sides agree on;
* `batch_outruns_shadow` — a chain of two requests already leaves it behind.
-/
import RednRdma.PostCall
import RednRdma.Lib.Machine

namespace Rdma

/-- One posting call, as a step of the connection it posts on. -/
def callStep (c : Conn) (call : PostCall) : Option Conn :=
  (call.exec c).toOption.map Prod.snd

/-- The library's view of the queue is the driver's. -/
structure Shadowed (c : Conn) : Prop where
  scurPost : c.ctx.scurPost = c.qp.scurPost
  sqWrid : ∀ k p, Ring.Resident c.qp.wqeCnt.toNat c.qp.log k p →
    c.ctx.sqWrid p.pos = c.qp.wrid p.pos

/-- A connection nothing has been posted on. -/
structure Fresh (c : Conn) : Prop where
  view : ∃ iqp, c.ctx.iqp = some iqp ∧ iqp.sqWqeCnt = c.qp.wqeCnt
  ctxPost : c.ctx.scurPost = 0
  qpPost : c.qp.scurPost = 0
  log : c.qp.log = []

/-- An inline request takes as many blocks as the shadow step counts for its
SGEs. -/
def SizesAgree (wr : WorkRequest) : Prop :=
  wr.flags.inl = true →
    divRoundUp ((shadowHeader wr.opcode + inlineUnits wr.byteLen) * 16) SEND_WQE_BB =
      divRoundUp ((shadowHeader wr.opcode + wr.dataSges.length) * 16) SEND_WQE_BB

/-- The call hands the driver one request, through a wrapper and in a size both
sides agree on. -/
def PostCall.OneRequest : PostCall → Prop
  | rdma chain .. => chain.length = 1
  | post wrs => ∃ wr, wrs = [wr] ∧ SizesAgree wr
  | setTrigger .. => False
  | _ => True

/-! ### The two size computations -/

theorem driverHeader_eq {op : WrOpcode} {h : ℕ} (hh : driverHeader op = some h) :
    h = shadowHeader op := by
  cases op <;>
    first
      | exact (Option.some_inj.mp hh).symm
      | exact absurd hh (Option.some_ne_none h).symm

/-- Where the sizes agree, the driver takes the blocks the shadow counts. -/
theorem blocks_eq_of_sizesAgree {q : DriverQp} {wr : WorkRequest} {size : ℕ}
    (hsize : q.wqeSize wr = some size) (hagree : SizesAgree wr) :
    divRoundUp (size * 16) SEND_WQE_BB = divRoundUp (shadowSize wr * 16) SEND_WQE_BB := by
  rw [DriverQp.wqeSize] at hsize
  split at hsize
  · simp at hsize
  · obtain ⟨header, hh, hd⟩ := Option.bind_eq_some_iff.mp hsize
    obtain ⟨units, hu, rfl⟩ := Option.map_eq_some_iff.mp hd
    obtain rfl := driverHeader_eq hh
    -- only an inline request is sized by its bytes
    cases hinl : wr.flags.inl with
    | false =>
      obtain rfl : wr.dataSges.length = units := by simpa [DriverQp.dataUnits, hinl] using hu
      rfl
    | true =>
      obtain ⟨-, rfl⟩ : wr.byteLen ≤ q.maxInlineData ∧ inlineUnits wr.byteLen = units := by
        simpa [DriverQp.dataUnits, hinl] using hu
      exact hagree hinl

/-! ### The invariant -/

/-- `Shadowed`, and what it takes to stay so. -/
structure ShadowInv (c : Conn) : Prop where
  view : ∃ iqp, c.ctx.iqp = some iqp ∧ iqp.sqWqeCnt = c.qp.wqeCnt
  scurPost : c.ctx.scurPost = c.qp.scurPost
  len_pos : ∀ p ∈ c.qp.log, 0 < p.len
  held : ∀ k p, Ring.Resident c.qp.wqeCnt.toNat c.qp.log k p →
    c.ctx.sqWrid p.pos = p.data.wrId ∧ c.qp.wrid p.pos = p.data.wrId

theorem Fresh.shadowInv {c : Conn} (h : Fresh c) : ShadowInv c where
  view := h.view
  scurPost := h.ctxPost.trans h.qpPost.symm
  len_pos := by simp [h.log]
  held := by
    intro k p hr
    simp [Ring.Resident, h.log] at hr

theorem ShadowInv.shadowed {c : Conn} (h : ShadowInv c) : Shadowed c where
  scurPost := h.scurPost
  sqWrid k p hr := (h.held k p hr).1.trans (h.held k p hr).2.symm

theorem updateScurPost_ok {ctx ctx' : ConnContext} {iqp : Mlx5dvQp} {wr : WorkRequest}
    (hiqp : ctx.iqp = some iqp) (h : updateScurPost (some wr) ctx = .ok ctx') :
    ctx'.sqWrid =
        Function.update ctx.sqWrid (ctx.scurPost &&& (iqp.sqWqeCnt - 1)).toNat wr.wrId ∧
      ctx'.scurPost =
        ctx.scurPost + UInt32.ofNat (divRoundUp (shadowSize wr * 16) SEND_WQE_BB) := by
  obtain ⟨iqp', w, hiqp', hw, rfl⟩ := updateScurPost_eq_ok h
  obtain rfl := Option.some_inj.mp (hiqp.symm.trans hiqp')
  obtain rfl := Option.some_inj.mp hw
  exact ⟨rfl, rfl⟩

/-- One request through the wrapper keeps the shadow in step. -/
theorem ShadowInv.posted {c c' : Conn} {ret : Option UInt32} {numbered : Bool}
    {wr : WorkRequest} (h : ShadowInv c) (hp : Posted true numbered c ret c' [wr])
    (hagree : SizesAgree wr) : ShadowInv c' := by
  obtain ⟨iqp, hiqp, hcnt⟩ := h.view
  obtain ⟨ctx, hup, hpost, hwrid⟩ := hp.shadow rfl
  obtain ⟨hwrid', hpost'⟩ := updateScurPost_ok hiqp hup
  have hone : c.qp.postOne wr = some c'.qp := by
    simpa [DriverQp.postList, Option.bind_eq_some_iff] using hp.qp
  obtain ⟨size, hsize, hqcnt, -, -, hqwrid, hqpost, hlog⟩ := DriverQp.postOne_eq_some hone
  have hidx : (c.ctx.scurPost &&& (iqp.sqWqeCnt - 1)).toNat = c.qp.idx := by
    rw [DriverQp.idx, h.scurPost, hcnt]
  have hlen : 0 < divRoundUp (size * 16) SEND_WQE_BB := DriverQp.blocks_pos hsize
  refine ⟨⟨iqp, hp.iqp.trans hiqp, hcnt.trans hqcnt.symm⟩, ?_, ?_, ?_⟩
  · rw [hpost, hpost', hqpost, h.scurPost, blocks_eq_of_sizesAgree hsize hagree]
  · intro p hmem
    rw [hlog] at hmem
    rcases List.mem_append.mp hmem with hmem | hmem
    · exact h.len_pos p hmem
    · rw [List.mem_singleton.mp hmem]
      exact hlen
  · intro k p hr
    rw [hlog, hqcnt] at hr
    rw [hwrid, hwrid', hidx, hqwrid]
    rcases Ring.resident_concat.mp hr with ⟨hold, hover⟩ | ⟨-, rfl⟩
    · -- an older WQE is whole only if the new one starts elsewhere
      have hpos : p.pos ≠ c.qp.idx := by
        intro heq
        have hmem : p ∈ c.qp.log := List.mem_of_getElem? hold.1
        exact hover (Ring.overlap_of_pos_eq (h.len_pos p hmem) hlen heq)
      rw [Function.update_of_ne hpos, Function.update_of_ne hpos]
      exact h.held k p hold
    · simp

theorem sizesAgree_of_not_inl {wr : WorkRequest} (h : wr.flags.inl = false) :
    SizesAgree wr := by
  simp [SizesAgree, h]

/-- A call that hands over one request hands it through the wrapper. -/
theorem OneRequest.hands {call : PostCall} {wrs : List WorkRequest} (hone : call.OneRequest)
    (hands : call.Hands wrs) : call.wrapped = true ∧ ∃ wr, wrs = [wr] ∧ SizesAgree wr := by
  cases call with
  | rdma chain l r op =>
    obtain ⟨hlen, hinl⟩ := hands
    obtain ⟨wr, rfl⟩ := List.length_eq_one_iff.mp (hlen.trans hone)
    exact ⟨rfl, wr, rfl, sizesAgree_of_not_inl (hinl wr (by simp))⟩
  | send src size imm l =>
    obtain ⟨wr, rfl, -, hinl⟩ := hands
    exact ⟨rfl, wr, rfl, sizesAgree_of_not_inl hinl⟩
  | post ws =>
    obtain ⟨wr, rfl, hagree⟩ := hone
    exact ⟨rfl, wr, hands, hagree⟩
  | setTrigger ctx nops nwait => exact hone.elim
  | _ =>
    obtain ⟨wr, rfl, hinl⟩ := hands
    exact ⟨rfl, wr, rfl, sizesAgree_of_not_inl hinl⟩

theorem callStep_eq_some {c c' : Conn} {call : PostCall} (h : callStep c call = some c') :
    ∃ ret, call.exec c = .ok (ret, c') := by
  obtain ⟨⟨ret, c₁⟩, hx, rfl⟩ := Option.map_eq_some_iff.mp h
  exact ⟨ret, Except.toOption_eq_some.mp hx⟩

theorem ShadowInv.step {c c' : Conn} {call : PostCall} (h : ShadowInv c)
    (hone : call.OneRequest) (hs : callStep c call = some c') : ShadowInv c' := by
  obtain ⟨ret, hx⟩ := callStep_eq_some hs
  obtain ⟨wrs, hp, hands⟩ := exec_posted hx
  obtain ⟨hw, wr, rfl, hagree⟩ := OneRequest.hands hone hands
  rw [hw] at hp
  exact h.posted hp hagree

/-! ### Runs -/

/-- **The shadow keeps up** with the driver after every call of a run whose
calls hand over one request each. -/
theorem shadowed_of_oneRequest {c : Conn} {calls : List PostCall} (h : Fresh c)
    (hm : Machine.Meets callStep (fun _ call => call.OneRequest) c calls) :
    Machine.Along callStep Shadowed c calls :=
  Machine.along_of_meets (fun _ _ _ hi hc hs => ShadowInv.step hi hc hs)
    (fun _ hi => ShadowInv.shadowed hi) h.shadowInv hm

theorem conn64_fresh : Fresh conn64 :=
  ⟨⟨_, rfl, rfl⟩, rfl, rfl, rfl⟩

theorem shadowed_send_then_cas :
    Machine.Along callStep Shadowed conn64
      [.rdma [meta8] 0 0 .send, .cas 0x1000 0x2000 0 1 7 8 1, .noop 1] :=
  shadowed_of_oneRequest conn64_fresh (Machine.meets_of_forall_mem (by simp [PostCall.OneRequest]))

/-- A chain of two messages moves the driver by two blocks and the shadow by
one. -/
theorem batch_outruns_shadow :
    Fresh conn64 ∧ (Machine.run callStep conn64 [.rdma [meta8, meta8] 0 0 .send]).isSome ∧
      ¬ Machine.Along callStep Shadowed conn64 [.rdma [meta8, meta8] 0 0 .send] := by
  obtain ⟨c, hc, hctx, hqp⟩ : ∃ c, callStep conn64 (.rdma [meta8, meta8] 0 0 .send) = some c ∧
      c.ctx.scurPost = 1 ∧ c.qp.scurPost = 2 := ⟨_, rfl, rfl, rfl⟩
  refine ⟨conn64_fresh, rfl, ?_⟩
  intro hal
  have heq : c.ctx.scurPost = c.qp.scurPost :=
    ((Machine.along_cons.mp hal).2 c hc).head.scurPost
  rw [hctx, hqp] at heq
  exact absurd heq (by decide)

end Rdma
