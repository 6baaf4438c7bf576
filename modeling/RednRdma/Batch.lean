/-
How a chain of metadata becomes a batch of work requests (`verbs.c`).

`send_rdma_operation` walks the application's linked list of metadata, writes the local
region's key into their SGEs, and builds a second linked list beside it, one `malloc` a
node, whose SGE lists point into the first.  It posts the second list once and releases
it node by node.  `Verbs` has the same call with both lists as values; the call here
works on the two heaps.

* `sendRdmaOperation` — the call on the heaps;
* `batchLoop_eq` — its loop takes one turn for each element of the chain;
* `IsList.turns` — the list the turns have built, and that nothing else was written;
* `sendRdmaOperation_refines` — the driver is handed, and the caller returned, what
  `Rdma.sendRdmaOperation` says;
* `batch_translated` — the requests of the batch, field by field.
-/
import RednRdma.Lib.Linked
import RednRdma.PostCall

namespace Rdma

namespace Batch

open Linked

/-! ### The two lists -/

/-- `rdma_meta_t`, with its `sge_count` entries. -/
structure Meta where
  op : ℤ := 0
  wrId : UInt32 := 0
  addr : UInt64
  length : UInt64 := 0
  imm : UInt32 := 0
  next : ℕ := 0
  sgeEntries : List Sge := []
  deriving Repr, DecidableEq

/-- What `send_rdma_operation` reads of an element. -/
def Meta.read (m : Meta) : RdmaMeta := { addr := m.addr, imm := m.imm, sgeEntries := m.sgeEntries }

/-- `struct ibv_send_wr`, zeroed.  `sgList` is the element whose entries it points to. -/
structure SendWr where
  wrId : UInt64 := 0
  next : ℕ := 0
  sgList : ℕ := 0
  numSge : ℕ := 0
  opcode : WrOpcode := .rdmaWrite
  sendFlags : SendFlags := {}
  immData : UInt32 := 0
  remoteAddr : UInt64 := 0
  rkey : UInt32 := 0
  deriving Repr, DecidableEq

/-- `malloc`: the blocks it hands out one after the other, none of them released
meanwhile. -/
structure Malloc where
  block : ℕ → ℕ
  block_ne_zero : ∀ i, block i ≠ 0
  block_injective : Function.Injective block

/-- What the driver finds in a node: the SGEs are read through the pointer. -/
def SendWr.request (metas : Heap Meta) (w : SendWr) : Option WorkRequest :=
  (if w.numSge = 0 then some []
    else (metas w.sgList).map fun m => m.sgeEntries.take w.numSge).map fun sgList =>
      { wrId := w.wrId, sgList, opcode := w.opcode, flags := w.sendFlags, immData := w.immData
        remoteAddr := w.remoteAddr, rkey := w.rkey }

/-! ### The loop -/

/-- The variables of `send_rdma_operation` between two turns. -/
structure Loop where
  metas : Heap Meta
  wrs : Heap SendWr := fun _ => none
  ctx : ConnContext
  /-- `meta`. -/
  cur : ℕ
  wr : ℕ := 0
  wrHead : ℕ := 0
  lastWrId : UInt32 := 0
  opcount : ℕ := 0

/-- `if(wr) wr->next = new`. -/
def setNext (wrs : Heap SendWr) (wr new : ℕ) : Except Stop (Heap SendWr) :=
  if wr = 0 then .ok wrs
  else do
    let w ← deref (wrs wr)
    return Function.update wrs wr (some { w with next := new })

variable (malloc : Malloc)

/-- The body of the loop. -/
def loopBody (localMr : Option IbvMr) (remoteMr : Option MrContext) (opcode : WrOpcode)
    (s : Loop) : Except Stop Loop := do
  let new := malloc.block s.opcount
  -- the node made before is linked to this one, and is not touched again
  let wrs ← setNext s.wrs s.wr new
  let m ← deref (s.metas s.cur)
  let sgeEntries ← withLkey localMr m.sgeEntries
  let target ← rdmaTarget opcode remoteMr m.read
  let (wrId, ctx) := nextWrId s.ctx 1
  let wr : SendWr :=
    { wrId := wrId.toUInt64
      sgList := if sgeEntries = [] then 0 else s.cur
      numSge := sgeEntries.length
      opcode
      -- every request asks for a completion
      sendFlags := { signaled := true }
      immData := if opcode = .rdmaWriteWithImm ∨ opcode = .sendWithImm then htonl m.imm else 0
      remoteAddr := target.1
      rkey := target.2 }
  return {
    metas := Function.update s.metas s.cur (some { m with sgeEntries })
    wrs := Function.update wrs new (some wr)
    ctx := countOps ctx 1
    cur := m.next
    wr := new
    wrHead := if s.wr = 0 then new else s.wrHead
    lastWrId := wrId
    opcount := s.opcount + 1 }

/-- `do … while(meta)`; `none` without the fuel. -/
def batchLoop (localMr : Option IbvMr) (remoteMr : Option MrContext) (opcode : WrOpcode) :
    ℕ → Loop → Option (Except Stop Loop)
  | 0, _ => none
  | fuel + 1, s =>
    match loopBody malloc localMr remoteMr opcode s with
    | .error e => some (.error e)
    | .ok s =>
      if s.cur = 0 then some (.ok s) else batchLoop localMr remoteMr opcode fuel s

/-! ### The call -/

/-- What a post hands to the driver. -/
structure Post where
  metas : Heap Meta
  wrs : Heap SendWr
  head : ℕ

/-- The list the driver reads. -/
def Post.requests (p : Post) (fuel : ℕ) : Option (List WorkRequest) :=
  (walk SendWr.next p.wrs fuel p.head).bind fun nodes =>
    nodes.mapM fun x => x.2.request p.metas

/-- How a call that returns ends. -/
structure Sent where
  ret : UInt32
  conn : Conn
  metas : Heap Meta
  wrs : Heap SendWr
  /-- The blocks the release loop has freed, in order. -/
  freed : List ℕ

/-- The regions, once they are ready. -/
def regions (ctx : ConnContext) (localId remoteId : ℤ) (opcode : WrOpcode) :
    Except Stop (Option IbvMr × Option MrContext) := do
  dieIf (localId > MAX_MR ∨ remoteId > MAX_MR) "invalid memory regions specified"
  let localReady ← mrLocalReady ctx localId
  dieIf (!localReady) "failed to issue sync; no metadata available for remote mr\n"
  let ready ← remoteReady ctx opcode remoteId
  dieIf (!ready) "failed to issue sync; no metadata available for remote mr\n"
  let localMr ← readAt ctx.localMr localId
  let remoteMr ← remoteMrFor ctx opcode remoteId
  return (localMr, remoteMr)

/-- Where the loop starts. -/
def start (c : Conn) (metas : Heap Meta) (cur : ℕ) : Loop := { metas, ctx := c.ctx, cur }

/-- The arguments of the post, once the loop has ended. -/
def Loop.post (s : Loop) : Post := { metas := s.metas, wrs := s.wrs, head := s.wrHead }

/-- What `send_rdma_operation` does after its loop: the post, and the release loop. -/
def postBatch (fuel : ℕ) (c : Conn) (s : Loop) : Option (List Post × Except Stop Sent) :=
  (s.post.requests fuel).bind fun requests =>
    match submit { c with ctx := s.ctx } "failed to post rdma operation" requests with
    | .error e => some ([s.post], .error e)
    | .ok conn =>
      (release SendWr.next fuel s.wrs s.wrHead).map fun (wrs, freed) =>
        ([s.post], .ok { ret := s.lastWrId, conn, metas := s.metas, wrs, freed })

/-- `send_rdma_operation`: its posts, and how it ends; `none` without the fuel. -/
def sendRdmaOperation (fuel : ℕ) (c : Conn) (metas : Heap Meta) (cur : ℕ)
    (localId remoteId : ℤ) (opcode : WrOpcode) : Option (List Post × Except Stop Sent) :=
  match regions c.ctx localId remoteId opcode with
  | .error e => some ([], .error e)
  | .ok (localMr, remoteMr) =>
    match batchLoop malloc localMr remoteMr opcode fuel (start c metas cur) with
    | none => none
    | some (.error e) => some ([], .error e)
    | some (.ok s) => postBatch fuel c s

/-! ### One turn -/

/-- The node made of the element at `a`. -/
def node (a : ℕ) (req : WorkRequest) (wrId : UInt32) (next : ℕ) : SendWr :=
  { wrId := wrId.toUInt64
    next
    sgList := if req.sgList = [] then 0 else a
    numSge := req.sgList.length
    opcode := req.opcode
    sendFlags := req.flags
    immData := req.immData
    remoteAddr := req.remoteAddr
    rkey := req.rkey }

/-- The heap with the link of the node at `wr` set. -/
def linkTo (wrs : Heap SendWr) (wr new : ℕ) : Heap SendWr :=
  Function.update wrs wr ((wrs wr).map fun w => { w with next := new })

/-- The state after the turn that makes `req` of the element at `a`. -/
def turn (s : Loop) (x : (ℕ × Meta) × WorkRequest) : Loop :=
  { metas := Function.update s.metas x.1.1 (some { x.1.2 with sgeEntries := x.2.sgList })
    wrs := Function.update (linkTo s.wrs s.wr (malloc.block s.opcount)) (malloc.block s.opcount)
      (some (node x.1.1 x.2 (s.ctx.lastSend + 1) 0))
    ctx := countOps (bumpSend s.ctx) 1
    cur := x.1.2.next
    wr := malloc.block s.opcount
    wrHead := if s.wr = 0 then malloc.block s.opcount else s.wrHead
    lastWrId := s.ctx.lastSend + 1
    opcount := s.opcount + 1 }

/-- Between two turns: the last node made ends the list, and the blocks to come are not
in use. -/
structure Between (s : Loop) : Prop where
  last : s.wr = 0 ∧ s.wrs 0 = none ∨ s.wr ≠ 0 ∧ ∃ w, s.wrs s.wr = some w ∧ w.next = 0
  fresh : ∀ i ≥ s.opcount, malloc.block i ≠ s.wr

variable {malloc} {s : Loop}

theorem between_turn (s : Loop) (x : (ℕ × Meta) × WorkRequest) :
    Between malloc (turn malloc s x) := by
  refine ⟨Or.inr ⟨malloc.block_ne_zero _, _, Function.update_self _ _ _, rfl⟩, ?_⟩
  intro i hi heq
  have : i = s.opcount := malloc.block_injective heq
  have hi : s.opcount + 1 ≤ i := hi
  omega

theorem Between.setNext (h : Between malloc s) (new : ℕ) :
    setNext s.wrs s.wr new = .ok (linkTo s.wrs s.wr new) := by
  rcases h.last with ⟨hwr, hnone⟩ | ⟨hwr, w, hw, -⟩
  · rw [Batch.setNext, if_pos hwr, linkTo, hwr, hnone, Option.map_none, ← hnone,
      Function.update_eq_self]
  · rw [Batch.setNext, if_neg hwr, linkTo, hw]
    rfl

/-- The body takes a turn with the request `Verbs` makes of the element. -/
theorem loopBody_eq (h : Between malloc s) {localMr : Option IbvMr}
    {remoteMr : Option MrContext} {opcode : WrOpcode} {m : Meta}
    (hm : s.metas s.cur = some m) :
    loopBody malloc localMr remoteMr opcode s =
      (rdmaRequest localMr remoteMr opcode m.read).map fun req =>
        turn malloc s ((s.cur, m), req) := by
  have hentries : m.read.sgeEntries = m.sgeEntries := rfl
  rw [loopBody, h.setNext, hm, rdmaRequest, hentries]
  cases hlkey : withLkey localMr m.sgeEntries with
  | error e => simp [bind, Except.bind, deref, Except.map, hlkey]
  | ok sgeEntries =>
    cases htarget : rdmaTarget opcode remoteMr m.read with
    | error e => simp [bind, Except.bind, deref, Except.map, hlkey, htarget]
    | ok target =>
      simp only [bind, Except.bind, deref, Except.map, hlkey, htarget]
      rfl

/-! ### All the turns -/

/-- An element of the chain and the request made of it. -/
abbrev Item := (ℕ × Meta) × WorkRequest

variable (malloc) in
/-- The state after the turns for `xs`. -/
def turns (s : Loop) (xs : List Item) : Loop := xs.foldl (turn malloc) s

/-- The loop takes a turn for each element of the chain, unless a request cannot be made. -/
theorem batchLoop_eq (localMr : Option IbvMr) (remoteMr : Option MrContext)
    (opcode : WrOpcode) {ms : List (ℕ × Meta)} {fuel : ℕ} (h : Between malloc s)
    (hl : IsList Meta.next s.metas s.cur ms) (hne : ms ≠ []) (hfuel : ms.length ≤ fuel) :
    batchLoop malloc localMr remoteMr opcode fuel s =
      some ((ms.mapM fun x => rdmaRequest localMr remoteMr opcode x.2.read).map fun reqs =>
        turns malloc s (ms.zip reqs)) := by
  induction ms generalizing s fuel with
  | nil => exact absurd rfl hne
  | cons x ms ih =>
    obtain ⟨fuel, rfl⟩ : ∃ k, fuel = k + 1 := ⟨fuel - 1, by simp at hfuel; omega⟩
    have hnodup := hl.nodup
    rw [List.map_cons, List.nodup_cons] at hnodup
    obtain ⟨hx, -, hm, hrest⟩ := hl
    rw [batchLoop, loopBody_eq h hm, List.mapM_cons]
    cases rdmaRequest localMr remoteMr opcode x.2.read with
    | error e => rfl
    | ok req =>
      have hitem : ((s.cur, x.2), req) = (x, req) := by rw [← hx]
      simp only [Except.map, bind, Except.bind, hitem]
      by_cases hms : ms = []
      · subst hms
        have hend : (turn malloc s (x, req)).cur = 0 := hrest
        rw [if_pos hend]
        rfl
      · -- the element just done is not met again
        have hrest' : IsList Meta.next (turn malloc s (x, req)).metas x.2.next ms := by
          refine hrest.congr fun y hy => Function.update_of_ne ?_ _ _
          intro hyx
          exact hnodup.1 (hyx ▸ List.mem_map_of_mem hy)
        have hcont : (turn malloc s (x, req)).cur ≠ 0 := by
          cases ms with
          | nil => exact absurd rfl hms
          | cons y ms => exact hrest.2.1
        rw [if_neg hcont, ih (between_turn s _) hrest' hms (by simpa using hfuel)]
        cases ms.mapM fun x => rdmaRequest localMr remoteMr opcode x.2.read with
        | error e => rfl
        | ok reqs => rfl

variable (malloc) in
/-- The address of the first of the nodes for `xs`, the `k`-th block. -/
def firstBlock (k : ℕ) (xs : List Item) : ℕ := if xs = [] then 0 else malloc.block k

variable (malloc) in
/-- The nodes for `xs`, from the `k`-th block and the id after `wrId` on. -/
def nodes (k : ℕ) (wrId : UInt32) : List Item → List (ℕ × SendWr)
  | [] => []
  | x :: xs =>
    (malloc.block k, node x.1.1 x.2 (wrId + 1) (firstBlock malloc (k + 1) xs)) ::
      nodes (k + 1) (wrId + 1) xs

theorem mem_nodes {k : ℕ} {wrId : UInt32} {xs : List Item} {b : ℕ}
    (hb : b ∈ (nodes malloc k wrId xs).map Prod.fst) : ∃ i ≥ k, b = malloc.block i := by
  induction xs generalizing k wrId with
  | nil => exact absurd hb (by simp [nodes])
  | cons x xs ih =>
    rw [nodes, List.map_cons, List.mem_cons] at hb
    rcases hb with rfl | hb
    · exact ⟨k, le_refl k, rfl⟩
    · obtain ⟨i, hi, rfl⟩ := ih hb
      exact ⟨i, (Nat.le_succ k).trans hi, rfl⟩

variable (malloc) in
/-- What the turns for `xs` have written: the link of the node made before them, and the
nodes, which make a list. -/
structure Built (s s' : Loop) (xs : List Item) : Prop where
  list : IsList SendWr.next s'.wrs (firstBlock malloc s.opcount xs)
    (nodes malloc s.opcount s.ctx.lastSend xs)
  linked : s'.wrs s.wr =
    (s.wrs s.wr).map fun w => { w with next := firstBlock malloc s.opcount xs }
  others : ∀ b ≠ s.wr, b ∉ (nodes malloc s.opcount s.ctx.lastSend xs).map Prod.fst →
    s'.wrs b = s.wrs b

theorem built_turns (xs : List Item) (h : Between malloc s) :
    Built malloc s (turns malloc s xs) xs := by
  induction xs generalizing s with
  | nil =>
    refine ⟨rfl, ?_, fun _ _ _ => rfl⟩
    rcases h.last with ⟨hwr, hnone⟩ | ⟨-, w, hw, hnext⟩
    · show s.wrs s.wr = _
      rw [hwr, hnone, Option.map_none]
    · show s.wrs s.wr = _
      rw [hw, Option.map_some, firstBlock, if_pos rfl, ← hnext]
  | cons x xs ih =>
    have hmade := ih (s := turn malloc s x) (between_turn s x)
    have hwrs : (turn malloc s x).wrs (malloc.block s.opcount) =
        some (node x.1.1 x.2 (s.ctx.lastSend + 1) 0) := Function.update_self _ _ _
    have hfresh : s.wr ≠ malloc.block s.opcount := (h.fresh _ (le_refl _)).symm
    rw [show turns malloc s (x :: xs) = turns malloc (turn malloc s x) xs from rfl]
    refine ⟨?_, ?_, ?_⟩
    · -- the node of this turn, then those of the turns after it
      refine ⟨rfl, malloc.block_ne_zero _, ?_, hmade.list⟩
      refine hmade.linked.trans ?_
      rw [show (turn malloc s x).wr = malloc.block s.opcount from rfl, hwrs]
      rfl
    · have hlater : s.wr ∉ (nodes malloc (s.opcount + 1) (s.ctx.lastSend + 1) xs).map Prod.fst := by
        intro hmem
        obtain ⟨i, hi, heq⟩ := mem_nodes hmem
        exact h.fresh i (by omega) heq.symm
      rw [hmade.others s.wr hfresh hlater]
      show Function.update _ _ _ s.wr = _
      rw [Function.update_of_ne hfresh, linkTo, Function.update_self]
      rfl
    · intro b hb hnodes
      rw [nodes, List.map_cons, List.mem_cons, not_or] at hnodes
      rw [hmade.others b hnodes.1 hnodes.2]
      show Function.update _ _ _ b = _
      rw [Function.update_of_ne hnodes.1, linkTo, Function.update_of_ne hb]

/-! ### What the turns leave -/

theorem turns_ctx (s : Loop) (xs : List Item) :
    (turns malloc s xs).ctx =
      countOps { s.ctx with lastSend := s.ctx.lastSend + UInt32.ofNat xs.length } xs.length := by
  induction xs generalizing s with
  | nil => simp [turns, countOps]
  | cons x xs ih =>
    have hlast := add_one_add_ofNat s.ctx.lastSend xs.length
    have hops := add_one_add_ofNat s.ctx.nPostedOps xs.length
    rw [show turns malloc s (x :: xs) = turns malloc (turn malloc s x) xs from rfl, ih,
      List.length_cons]
    simp only [countOps, ← hlast, ← hops]
    rfl

theorem turns_lastWrId (s : Loop) {xs : List Item} (hne : xs ≠ []) :
    (turns malloc s xs).lastWrId = s.ctx.lastSend + UInt32.ofNat xs.length := by
  induction xs generalizing s with
  | nil => exact absurd rfl hne
  | cons x xs ih =>
    rw [List.length_cons, ← add_one_add_ofNat]
    by_cases hxs : xs = []
    · subst hxs
      simp [turns, turn]
    · exact ih (turn malloc s x) hxs

theorem turns_wrHead_of_ne (h : s.wr ≠ 0) (xs : List Item) :
    (turns malloc s xs).wrHead = s.wrHead := by
  induction xs generalizing s with
  | nil => rfl
  | cons x xs ih =>
    rw [show turns malloc s (x :: xs) = turns malloc (turn malloc s x) xs from rfl,
      ih (malloc.block_ne_zero _)]
    exact if_neg h

theorem turns_wrHead (h : s.wr = 0) {xs : List Item} (hne : xs ≠ []) :
    (turns malloc s xs).wrHead = firstBlock malloc s.opcount xs := by
  cases xs with
  | nil => exact absurd rfl hne
  | cons x xs =>
    rw [show turns malloc s (x :: xs) = turns malloc (turn malloc s x) xs from rfl,
      turns_wrHead_of_ne (malloc.block_ne_zero _)]
    exact if_pos h

/-- An element outside the chain is not written. -/
theorem turns_metas_of_not_mem (s : Loop) {xs : List Item} {a : ℕ}
    (ha : a ∉ xs.map fun x => x.1.1) : (turns malloc s xs).metas a = s.metas a := by
  induction xs generalizing s with
  | nil => rfl
  | cons x xs ih =>
    rw [List.map_cons, List.mem_cons, not_or] at ha
    rw [show turns malloc s (x :: xs) = turns malloc (turn malloc s x) xs from rfl, ih _ ha.2]
    exact Function.update_of_ne ha.1 _ _

/-- Of one in the chain the SGEs are. -/
theorem turns_metas_of_mem (s : Loop) {xs : List Item} (hnodup : (xs.map fun x => x.1.1).Nodup)
    {x : Item} (hx : x ∈ xs) :
    (turns malloc s xs).metas x.1.1 = some { x.1.2 with sgeEntries := x.2.sgList } := by
  induction xs generalizing s with
  | nil => exact absurd hx (by simp)
  | cons y xs ih =>
    rw [List.map_cons, List.nodup_cons] at hnodup
    rw [show turns malloc s (y :: xs) = turns malloc (turn malloc s y) xs from rfl]
    rcases List.mem_cons.mp hx with rfl | hx
    · rw [turns_metas_of_not_mem _ hnodup.1]
      exact Function.update_self _ _ _
    · exact ih _ hnodup.2 hx

/-! ### The driver reads the requests -/

/-- The fields `send_rdma_operation` leaves zero. -/
structure Plain (req : WorkRequest) : Prop where
  compareAdd : req.compareAdd = 0
  swap : req.swap = 0
  task : req.task = .none

/-- What the driver finds in the node of a request, behind its SGE pointer. -/
theorem request_node {metas : Heap Meta} {a next : ℕ} {m : Meta} {req : WorkRequest}
    {wrId : UInt32} (hplain : Plain req)
    (hm : metas a = some { m with sgeEntries := req.sgList }) :
    (node a req wrId next).request metas = some { req with wrId := wrId.toUInt64 } := by
  obtain ⟨hcompare, hswap, htask⟩ := hplain
  have hrest : ({ req with wrId := wrId.toUInt64 } : WorkRequest) =
      { wrId := wrId.toUInt64, sgList := req.sgList, opcode := req.opcode, flags := req.flags
        immData := req.immData, remoteAddr := req.remoteAddr, rkey := req.rkey } := by
    rw [hcompare, hswap, htask]
  rw [hrest]
  by_cases hnil : req.sgList = []
  · simp [SendWr.request, node, hnil]
  · simp [SendWr.request, node, hnil, hm]

theorem requests_nodes {metas : Heap Meta} {xs : List Item} {k : ℕ} {ctx : ConnContext}
    (hxs : ∀ x ∈ xs, Plain x.2 ∧ metas x.1.1 = some { x.1.2 with sgeEntries := x.2.sgList }) :
    ((nodes malloc k ctx.lastSend xs).mapM fun x => x.2.request metas) =
      some (takeIds ctx (xs.map Prod.snd)).1 := by
  induction xs generalizing k ctx with
  | nil => rfl
  | cons x xs ih =>
    obtain ⟨hplain, hm⟩ := hxs x List.mem_cons_self
    have hrest := @ih (k + 1) (bumpSend ctx) fun y hy =>
      hxs y (List.mem_cons_of_mem x hy)
    rw [nodes, List.mapM_cons, request_node hplain hm,
      show ctx.lastSend + 1 = (bumpSend ctx).lastSend from rfl, hrest, List.map_cons, takeIds,
      nextWrId_send]
    rfl

/-! ### The whole call -/

theorem between_start (malloc : Malloc) (c : Conn) (metas : Heap Meta) (cur : ℕ) :
    Between malloc (start c metas cur) :=
  ⟨Or.inl ⟨rfl, rfl⟩, fun i _ => malloc.block_ne_zero i⟩

/-- After the release nothing is left of the nodes. -/
theorem without_nodes (c : Conn) (metas : Heap Meta) (cur : ℕ) (xs : List Item) :
    without (turns malloc (start c metas cur) xs).wrs
      ((nodes malloc 0 c.ctx.lastSend xs).map Prod.fst) = fun _ => none := by
  have hbuilt := built_turns xs (between_start malloc c metas cur)
  funext b
  rw [without]
  split
  · rfl
  · rename_i hb
    by_cases h0 : b = 0
    · subst h0
      exact hbuilt.linked
    · exact hbuilt.others b h0 hb

theorem rdmaRequest_eq_ok {localMr : Option IbvMr} {remoteMr : Option MrContext}
    {opcode : WrOpcode} {m : RdmaMeta} {req : WorkRequest}
    (h : rdmaRequest localMr remoteMr opcode m = .ok req) :
    ∃ sgList target, withLkey localMr m.sgeEntries = .ok sgList ∧
      rdmaTarget opcode remoteMr m = .ok target ∧ req = {
        sgList, opcode
        flags := { signaled := true }
        remoteAddr := target.1, rkey := target.2
        immData := if opcode = .rdmaWriteWithImm ∨ opcode = .sendWithImm then htonl m.imm
          else 0 } := by
  rw [rdmaRequest] at h
  obtain ⟨sgList, hsg, h⟩ := Except.bind_eq_ok.mp h
  obtain ⟨target, htarget, h⟩ := Except.bind_eq_ok.mp h
  rw [Except.pure_eq_ok] at h
  exact ⟨sgList, target, hsg, htarget, h.symm⟩

/-- The requests made of a chain. -/
def chainRequests (c : Conn) (ms : List (ℕ × Meta)) (localId remoteId : ℤ)
    (opcode : WrOpcode) : Except Stop (List WorkRequest) := do
  let (localMr, remoteMr) ← regions c.ctx localId remoteId opcode
  ms.mapM fun x => rdmaRequest localMr remoteMr opcode x.2.read

theorem length_nodes (k : ℕ) (wrId : UInt32) (xs : List Item) :
    (nodes malloc k wrId xs).length = xs.length := by
  induction xs generalizing k wrId with
  | nil => rfl
  | cons x xs ih => rw [nodes, List.length_cons, List.length_cons, ih]

section

variable {c : Conn} {metas : Heap Meta} {cur fuel : ℕ} {ms : List (ℕ × Meta)}
  {localId remoteId : ℤ} {opcode : WrOpcode} {reqs : List WorkRequest}

theorem forall₂_chainRequests (h : chainRequests c ms localId remoteId opcode = .ok reqs) :
    ∃ localMr remoteMr, regions c.ctx localId remoteId opcode = .ok (localMr, remoteMr) ∧
      List.Forall₂ (fun x req => rdmaRequest localMr remoteMr opcode x.2.read = .ok req)
        ms reqs := by
  obtain ⟨⟨localMr, remoteMr⟩, hregions, h⟩ := Except.bind_eq_ok.mp h
  exact ⟨localMr, remoteMr, hregions, Except.forall₂_of_mapM h⟩

theorem length_chainRequests (h : chainRequests c ms localId remoteId opcode = .ok reqs) :
    reqs.length = ms.length := by
  obtain ⟨_, _, -, hall⟩ := forall₂_chainRequests h
  exact hall.length_eq.symm

theorem plain_chainRequests (h : chainRequests c ms localId remoteId opcode = .ok reqs) :
    ∀ x ∈ ms.zip reqs, Plain x.2 := by
  obtain ⟨_, _, -, hall⟩ := forall₂_chainRequests h
  intro x hx
  obtain ⟨_, _, _, _, hreq⟩ := rdmaRequest_eq_ok (List.forall₂_zip hall hx)
  rw [hreq]
  exact ⟨rfl, rfl, rfl⟩

/-- What the post hands to the driver. -/
def post (malloc : Malloc) (c : Conn) (metas : Heap Meta) (cur : ℕ) (xs : List Item) : Post :=
  (turns malloc (start c metas cur) xs).post

/-- The list handed over. -/
theorem isList_post (malloc : Malloc) (c : Conn) (metas : Heap Meta) (cur : ℕ) {xs : List Item}
    (hne : xs ≠ []) :
    IsList SendWr.next (post malloc c metas cur xs).wrs (post malloc c metas cur xs).head
      (nodes malloc 0 c.ctx.lastSend xs) := by
  have hbuilt := built_turns xs (between_start malloc c metas cur)
  rw [post, Loop.post, turns_wrHead rfl hne]
  exact hbuilt.list

theorem zip_chainRequests (h : chainRequests c ms localId remoteId opcode = .ok reqs) :
    (ms.zip reqs).map Prod.snd = reqs ∧ ((ms.zip reqs).map fun x => x.1.1) = ms.map Prod.fst ∧
      (ms.zip reqs).length = reqs.length := by
  have hlen := length_chainRequests h
  refine ⟨List.map_snd_zip (by omega), ?_, ?_⟩
  · rw [show ((ms.zip reqs).map fun x => x.1.1) = ((ms.zip reqs).map Prod.fst).map Prod.fst by
      rw [List.map_map]; rfl, List.map_fst_zip (by omega)]
  · rw [List.length_zip]
    omega

theorem zip_chainRequests_ne_nil (hne : ms ≠ [])
    (h : chainRequests c ms localId remoteId opcode = .ok reqs) : ms.zip reqs ≠ [] := by
  intro hnil
  obtain ⟨-, haddrs, -⟩ := zip_chainRequests h
  rw [hnil, List.map_nil] at haddrs
  exact hne (List.map_eq_nil_iff.mp haddrs.symm)

/-- The driver reads the requests, under the ids taken for them. -/
theorem requests_post (malloc : Malloc) (hl : IsList Meta.next metas cur ms) (hne : ms ≠ [])
    (hfuel : ms.length ≤ fuel) (h : chainRequests c ms localId remoteId opcode = .ok reqs) :
    (post malloc c metas cur (ms.zip reqs)).requests fuel = some (takeIds c.ctx reqs).1 := by
  obtain ⟨hsnd, haddrs, hzip⟩ := zip_chainRequests h
  have hlist := isList_post malloc c metas cur (zip_chainRequests_ne_nil hne h)
  have hnodes : (nodes malloc 0 c.ctx.lastSend (ms.zip reqs)).length ≤ fuel := by
    rw [length_nodes, hzip, length_chainRequests h]
    exact hfuel
  rw [Post.requests, walk_eq_some hlist hnodes, Option.bind_some, requests_nodes, hsnd]
  exact fun x hx =>
    ⟨plain_chainRequests h x hx, turns_metas_of_mem _ (haddrs ▸ hl.nodup) hx⟩

/-- And the release finds the list. -/
theorem release_post (malloc : Malloc) (metas : Heap Meta) (cur : ℕ) (hne : ms ≠ [])
    (hfuel : ms.length ≤ fuel) (h : chainRequests c ms localId remoteId opcode = .ok reqs) :
    release SendWr.next fuel (post malloc c metas cur (ms.zip reqs)).wrs
        (post malloc c metas cur (ms.zip reqs)).head =
      some (fun _ => none, (nodes malloc 0 c.ctx.lastSend (ms.zip reqs)).map Prod.fst) := by
  have hlist := isList_post malloc c metas cur (zip_chainRequests_ne_nil hne h)
  have hnodes : (nodes malloc 0 c.ctx.lastSend (ms.zip reqs)).length ≤ fuel := by
    rw [length_nodes, (zip_chainRequests h).2.2, length_chainRequests h]
    exact hfuel
  rw [release_eq_some hlist hnodes, ← without_nodes c metas cur]
  rfl

/-- The call, for a chain all of whose requests can be made. -/
theorem sendRdmaOperation_of_ok (malloc : Malloc) (hl : IsList Meta.next metas cur ms)
    (hne : ms ≠ []) (hfuel : ms.length ≤ fuel)
    (h : chainRequests c ms localId remoteId opcode = .ok reqs) :
    sendRdmaOperation malloc fuel c metas cur localId remoteId opcode =
      some ([post malloc c metas cur (ms.zip reqs)],
        (submit { c with ctx := countOps (takeIds c.ctx reqs).2 reqs.length }
          "failed to post rdma operation" (takeIds c.ctx reqs).1).map fun conn =>
          { ret := c.ctx.lastSend + UInt32.ofNat reqs.length
            conn
            metas := (post malloc c metas cur (ms.zip reqs)).metas
            wrs := fun _ => none
            freed := (nodes malloc 0 c.ctx.lastSend (ms.zip reqs)).map Prod.fst }) := by
  have hne' := zip_chainRequests_ne_nil hne h
  have hzip := (zip_chainRequests h).2.2
  have hrequests := requests_post malloc hl hne hfuel h
  have hrelease := release_post malloc metas cur hne hfuel h
  obtain ⟨⟨localMr, remoteMr⟩, hregions, hmap⟩ := Except.bind_eq_ok.mp h
  replace hmap : (ms.mapM fun x => rdmaRequest localMr remoteMr opcode x.2.read) = .ok reqs := hmap
  have hctx : (turns malloc (start c metas cur) (ms.zip reqs)).ctx =
      countOps (takeIds c.ctx reqs).2 reqs.length := by
    rw [turns_ctx, takeIds_snd, hzip]
    rfl
  have hloop := batchLoop_eq localMr remoteMr opcode (between_start malloc c metas cur) hl hne
    hfuel
  rw [hmap] at hloop
  simp only [sendRdmaOperation, hregions, hloop, Except.map, postBatch]
  rw [show (Loop.post _).requests fuel = _ from hrequests, Option.bind_some, hctx]
  cases submit { c with ctx := countOps (takeIds c.ctx reqs).2 reqs.length }
      "failed to post rdma operation" (takeIds c.ctx reqs).1 with
  | error e => rfl
  | ok conn =>
    have hlast : (turns malloc (start c metas cur) (ms.zip reqs)).lastWrId =
        c.ctx.lastSend + UInt32.ofNat reqs.length := by
      rw [turns_lastWrId _ hne', hzip]
      rfl
    simp only [hlast]
    rw [show release SendWr.next fuel (turns malloc (start c metas cur) (ms.zip reqs)).wrs
      (turns malloc (start c metas cur) (ms.zip reqs)).wrHead = _ from hrelease]
    rfl

/-- And one a request of which cannot be made. -/
theorem sendRdmaOperation_of_error (malloc : Malloc) (hl : IsList Meta.next metas cur ms)
    (hne : ms ≠ []) (hfuel : ms.length ≤ fuel) {e : Stop}
    (h : chainRequests c ms localId remoteId opcode = .error e) :
    sendRdmaOperation malloc fuel c metas cur localId remoteId opcode = some ([], .error e) := by
  rw [chainRequests] at h
  cases hregions : regions c.ctx localId remoteId opcode with
  | error e' =>
    rw [hregions] at h
    obtain rfl : e' = e := Except.error.inj h
    simp only [sendRdmaOperation, hregions]
  | ok mrs =>
    obtain ⟨localMr, remoteMr⟩ := mrs
    rw [hregions] at h
    have hmap : (ms.mapM fun x => rdmaRequest localMr remoteMr opcode x.2.read) = .error e := h
    have hloop := batchLoop_eq localMr remoteMr opcode (between_start malloc c metas cur) hl hne
      hfuel
    rw [hmap] at hloop
    simp only [sendRdmaOperation, hregions, hloop, Except.map]

/-- The regions and the chain lead to what `Verbs` says. -/
theorem sendRdmaOperation_eq (c : Conn) (chain : List RdmaMeta) (localId remoteId : ℤ)
    (opcode : WrOpcode) :
    Rdma.sendRdmaOperation c chain localId remoteId opcode = (do
      let (localMr, remoteMr) ← regions c.ctx localId remoteId opcode
      let wrs ← chain.mapM (rdmaRequest localMr remoteMr opcode)
      let (wrs, ctx) := takeIds c.ctx wrs
      let last ← deref wrs.getLast?
      let c ← submit { c with ctx := countOps ctx wrs.length } "failed to post rdma operation" wrs
      return (last.wrId.toUInt32, c)) := by
  simp only [Rdma.sendRdmaOperation, regions, bind_assoc, pure_bind]

theorem getLast?_takeIds (ctx : ConnContext) {wrs : List WorkRequest} (hne : wrs ≠ []) :
    ∃ last, (takeIds ctx wrs).1.getLast? = some last ∧
      last.wrId.toUInt32 = ctx.lastSend + UInt32.ofNat wrs.length := by
  have hlen := takeIds_length ctx wrs
  have hpos : 0 < wrs.length := List.length_pos_iff.mpr hne
  obtain ⟨last, hlast⟩ : ∃ last, (takeIds ctx wrs).1[wrs.length - 1]? = some last :=
    ⟨_, List.getElem?_eq_getElem (by omega)⟩
  refine ⟨last, ?_, ?_⟩
  · rw [List.getLast?_eq_getElem?, hlen]
    exact hlast
  · rw [takeIds_numbered ctx wrs _ _ hlast, UInt32.toUInt32_toUInt64]
    rw [show wrs.length - 1 + 1 = wrs.length by omega]

/-- A batch that the driver takes is submitted. -/
theorem exists_submit_takeIds {c : Conn} {reqs : List WorkRequest} (hne : reqs ≠ [])
    (hiqp : c.ctx.iqp ≠ none) (hqp : c.qp.postList (takeIds c.ctx reqs).1 ≠ none) :
    ∃ conn, submit { c with ctx := countOps (takeIds c.ctx reqs).2 reqs.length }
      "failed to post rdma operation" (takeIds c.ctx reqs).1 = .ok conn := by
  refine exists_submit_iff.mpr ⟨by rw [takeIds_snd]; exact hiqp, fun hnil => ?_, hqp⟩
  have hids := takeIds_length c.ctx reqs
  rw [hnil] at hids
  exact hne (List.eq_nil_of_length_eq_zero hids.symm)

/-- The call on the heaps does what the call on lists does. -/
theorem sendRdmaOperation_refines (hl : IsList Meta.next metas cur ms) (hne : ms ≠ [])
    (hfuel : ms.length ≤ fuel) :
    (sendRdmaOperation malloc fuel c metas cur localId remoteId opcode).map
        (fun out => out.2.map fun sent => (sent.ret, sent.conn)) =
      some (Rdma.sendRdmaOperation c (ms.map fun x => x.2.read) localId remoteId opcode) := by
  have hchain : chainRequests c ms localId remoteId opcode = (do
      let (localMr, remoteMr) ← regions c.ctx localId remoteId opcode
      (ms.map fun x => x.2.read).mapM (rdmaRequest localMr remoteMr opcode)) := by
    simp only [chainRequests, List.mapM_map]
    rfl
  have hlist : Rdma.sendRdmaOperation c (ms.map fun x => x.2.read) localId remoteId opcode = (do
      let wrs ← chainRequests c ms localId remoteId opcode
      let (wrs, ctx) := takeIds c.ctx wrs
      let last ← deref wrs.getLast?
      let c ← submit { c with ctx := countOps ctx wrs.length } "failed to post rdma operation" wrs
      return (last.wrId.toUInt32, c)) := by
    rw [sendRdmaOperation_eq, hchain]
    simp only [bind_assoc]
  rw [hlist]
  cases h : chainRequests c ms localId remoteId opcode with
  | error e =>
    rw [sendRdmaOperation_of_error malloc hl hne hfuel h]
    rfl
  | ok reqs =>
    have hreqs : reqs ≠ [] := by
      intro hnil
      have hlen := length_chainRequests h
      rw [hnil, List.length_nil] at hlen
      exact hne (List.eq_nil_of_length_eq_zero hlen.symm)
    obtain ⟨last, hlast, hid⟩ := getLast?_takeIds c.ctx hreqs
    rw [sendRdmaOperation_of_ok malloc hl hne hfuel h]
    simp only [bind, Except.bind, hlast, deref, takeIds_length, Option.map_some]
    cases submit { c with ctx := countOps (takeIds c.ctx reqs).2 reqs.length }
        "failed to post rdma operation" (takeIds c.ctx reqs).1 with
    | error e => rfl
    | ok conn =>
      simp only [Except.map, hid]
      rfl

end

/-! ### A batch, field by field -/

theorem getElem?_nodes (malloc : Malloc) (k : ℕ) (wrId : UInt32) {xs : List Item} {j : ℕ} {x : Item}
    (hx : xs[j]? = some x) : ∃ next, (nodes malloc k wrId xs)[j]? =
      some (malloc.block (k + j), node x.1.1 x.2 (wrId + UInt32.ofNat (j + 1)) next) := by
  induction xs generalizing k wrId j with
  | nil => simp at hx
  | cons y xs ih =>
    cases j with
    | zero =>
      obtain rfl : y = x := by simpa using hx
      exact ⟨firstBlock malloc (k + 1) xs, rfl⟩
    | succ j =>
      obtain ⟨next, hnext⟩ := ih (k + 1) (wrId + 1) (by simpa using hx)
      refine ⟨next, ?_⟩
      rw [nodes, List.getElem?_cons_succ, hnext, add_one_add_ofNat,
        show k + 1 + j = k + (j + 1) by omega]

/-- The regions an operation uses are ready. -/
structure MrsReady (ctx : ConnContext) (op : WrapperOp) (localId remoteId : ℤ)
    (localMr : IbvMr) (remoteMr : MrContext) : Prop where
  remoteId_le : remoteId ≤ MAX_MR
  localReady : readAt ctx.localMrReady localId = .ok true
  localMr : readAt ctx.localMr localId = .ok (some localMr)
  remoteReady : op.OneSided → readAt ctx.remoteMrReady remoteId = .ok true
  remoteMr : op.OneSided → readAt ctx.remoteMr remoteId = .ok (some remoteMr)

/-- The SGEs with the key of the local region. -/
def keyed (localMr : IbvMr) (sges : List Sge) : List Sge :=
  sges.map fun sge => { sge with lkey := localMr.lkey }

/-- The request of an element, without its id. -/
def requestOf (op : WrapperOp) (localMr : IbvMr) (remoteMr : MrContext) (m : Meta) :
    WorkRequest :=
  { sgList := keyed localMr m.sgeEntries
    opcode := op.opcode
    flags := { signaled := true }
    remoteAddr := if op.OneSided then m.addr else 0
    rkey := if op.OneSided then remoteMr.rkey else 0
    immData := if op.WithImm then htonl m.imm else 0 }

/-- The requests of a chain, without their ids. -/
def requestsOf (op : WrapperOp) (localMr : IbvMr) (remoteMr : MrContext)
    (ms : List (ℕ × Meta)) : List WorkRequest :=
  ms.map fun x => requestOf op localMr remoteMr x.2

/-- The heap with the keys of the chain at `as` filled in. -/
def withKeys (localMr : IbvMr) (metas : Heap Meta) (as : List ℕ) : Heap Meta := fun a =>
  if a ∈ as then (metas a).map fun m => { m with sgeEntries := keyed localMr m.sgeEntries }
  else metas a

/-- The node `w` is made of the element at `a`. -/
structure Translates (op : WrapperOp) (remoteMr : MrContext) (a : ℕ) (m : Meta) (wrId : UInt32)
    (w : SendWr) : Prop where
  wrId : w.wrId = wrId.toUInt64
  opcode : w.opcode = op.opcode
  flags : w.sendFlags = { signaled := true }
  numSge : w.numSge = m.sgeEntries.length
  sgList : w.sgList = if m.sgeEntries = [] then 0 else a
  target : (w.remoteAddr, w.rkey) = if op.OneSided then (m.addr, remoteMr.rkey) else (0, 0)
  immData : w.immData = if op.WithImm then htonl m.imm else 0

/-- The id of the `j`-th request after `lastSend`, counted from 0. -/
def idAfter (lastSend : UInt32) (j : ℕ) : UInt32 := lastSend + UInt32.ofNat (j + 1)

/-- What a call does with the chain `ms`: the post `p` it issues, and how it ends. -/
structure Translated (c : Conn) (op : WrapperOp) (localMr : IbvMr) (remoteMr : MrContext)
    (metas : Heap Meta) (ms : List (ℕ × Meta)) (p : Post) (result : Except Stop Sent) : Prop where
  /-- The list handed to the driver, and that it is released node by node. -/
  list : ∃ ns, IsList SendWr.next p.wrs p.head ns ∧ ns.length = ms.length ∧
    (∀ j x n, ms[j]? = some x → ns[j]? = some n →
      Translates op remoteMr x.1 x.2 (idAfter c.ctx.lastSend j) n.2) ∧
    ∀ sent, result = .ok sent → sent.freed = ns.map Prod.fst ∧ sent.freed.Nodup ∧
      sent.wrs = fun _ => none
  /-- The elements of the chain have the keys, and nothing else is written. -/
  metas : p.metas = withKeys localMr metas (ms.map Prod.fst)
  /-- The requests as the driver reads them, and what it does with them. -/
  requests : ∃ wrs : List WorkRequest,
    (∀ fuel ≥ ms.length, p.requests fuel = some wrs) ∧ wrs.length = ms.length ∧
    (∀ j x wr, ms[j]? = some x → wrs[j]? = some wr → wr =
      { requestOf op localMr remoteMr x.2 with
        wrId := (idAfter c.ctx.lastSend j).toUInt64 }) ∧
    (∀ sent, result = .ok sent → c.qp.postList wrs = some sent.conn.qp) ∧
    (c.ctx.iqp ≠ none → c.qp.postList wrs ≠ none → ∃ sent, result = .ok sent)
  /-- The id returned and the counters. -/
  returned : ∀ sent, result = .ok sent →
    sent.ret = c.ctx.lastSend + UInt32.ofNat ms.length ∧
    sent.conn.ctx.lastSend = sent.ret ∧
    sent.conn.ctx.nPostedOps = c.ctx.nPostedOps + UInt32.ofNat ms.length ∧
    sent.metas = p.metas

section

variable {c : Conn} {localId remoteId : ℤ} {op : WrapperOp} {localMr : IbvMr}
  {remoteMr : MrContext}

/-- When the checks of the regions pass. -/
theorem regions_eq_ok_iff {ctx : ConnContext} {opcode : WrOpcode} {l : Option IbvMr}
    {r : Option MrContext} :
    regions ctx localId remoteId opcode = .ok (l, r) ↔
      remoteId ≤ MAX_MR ∧ readAt ctx.localMrReady localId = .ok true ∧
        (opOneSided opcode → readAt ctx.remoteMrReady remoteId = .ok true) ∧
        readAt ctx.localMr localId = .ok l ∧ remoteMrFor ctx opcode remoteId = .ok r := by
  have hrange : readAt ctx.localMrReady localId = .ok true → ¬ localId > MAX_MR := by
    intro hread hgt
    rw [readAt] at hread
    split at hread
    · rename_i hin
      have : localId.toNat < MAX_MR := hin.2
      omega
    · exact absurd hread (by simp)
  have hlocal (hle : ¬ localId > MAX_MR) :
      mrLocalReady ctx localId = readAt ctx.localMrReady localId := if_neg hle
  have hremote (hle : ¬ remoteId > MAX_MR) : remoteReady ctx opcode remoteId = .ok true ↔
      (opOneSided opcode → readAt ctx.remoteMrReady remoteId = .ok true) := by
    rw [remoteReady, mrRemoteReady, if_neg hle]
    by_cases hop : opOneSided opcode = true
    · rw [if_pos hop]
      exact ⟨fun h _ => h, fun h => h hop⟩
    · rw [if_neg hop]
      exact ⟨fun _ h => absurd h hop, fun _ => rfl⟩
  constructor
  · intro h
    obtain ⟨_, hdie, h⟩ := Except.bind_eq_ok.mp h
    obtain ⟨lready, hl, h⟩ := Except.bind_eq_ok.mp h
    obtain ⟨_, hdie₁, h⟩ := Except.bind_eq_ok.mp h
    obtain ⟨rready, hr, h⟩ := Except.bind_eq_ok.mp h
    obtain ⟨_, hdie₂, h⟩ := Except.bind_eq_ok.mp h
    obtain ⟨lmr, hlmr, h⟩ := Except.bind_eq_ok.mp h
    obtain ⟨rmr, hrmr, h⟩ := Except.bind_eq_ok.mp h
    rw [Except.pure_eq_ok, Prod.mk.injEq] at h
    obtain ⟨rfl, rfl⟩ := h
    have hids := dieIf_eq_ok.mp hdie
    rw [decide_eq_false_iff_not, not_or] at hids
    have hlready : lready = true := by simpa using dieIf_eq_ok.mp hdie₁
    have hrready : rready = true := by simpa using dieIf_eq_ok.mp hdie₂
    rw [hlready, hlocal hids.1] at hl
    rw [hrready] at hr
    exact ⟨not_lt.mp hids.2, hl, (hremote hids.2).mp hr, hlmr, hrmr⟩
  · rintro ⟨hle, hl, hr, hlmr, hrmr⟩
    have hle' : ¬ remoteId > MAX_MR := not_lt.mpr hle
    have hdie : dieIf (localId > MAX_MR ∨ remoteId > MAX_MR)
        "invalid memory regions specified" = .ok () :=
      dieIf_eq_ok.mpr (decide_eq_false (not_or.mpr ⟨hrange hl, hle'⟩))
    rw [regions, hdie, hlocal (hrange hl), hl, (hremote hle').mpr hr, hlmr, hrmr]
    rfl

theorem regions_of_ready (h : MrsReady c.ctx op localId remoteId localMr remoteMr) :
    regions c.ctx localId remoteId op.opcode =
      .ok (some localMr, if op.OneSided then some remoteMr else none) := by
  refine regions_eq_ok_iff.mpr ⟨h.remoteId_le, h.localReady, h.remoteReady, h.localMr, ?_⟩
  by_cases hop : op.OneSided
  · rw [remoteMrFor, if_pos hop, if_pos hop, h.remoteMr hop]
  · rw [remoteMrFor, if_neg hop, if_neg hop]
    rfl

theorem withLkey_some (mr : IbvMr) (sges : List Sge) :
    withLkey (some mr) sges = .ok (keyed mr sges) := by
  cases sges <;> rfl

theorem rdmaRequest_of_ready (op : WrapperOp) (localMr : IbvMr) (remoteMr : MrContext)
    (m : Meta) :
    rdmaRequest (some localMr) (if op.OneSided then some remoteMr else none) op.opcode m.read =
      .ok (requestOf op localMr remoteMr m) := by
  rw [rdmaRequest, show m.read.sgeEntries = m.sgeEntries from rfl, withLkey_some]
  cases op <;> rfl

theorem chainRequests_of_ready (h : MrsReady c.ctx op localId remoteId localMr remoteMr)
    (ms : List (ℕ × Meta)) :
    chainRequests c ms localId remoteId op.opcode = .ok (requestsOf op localMr remoteMr ms) := by
  rw [chainRequests, regions_of_ready h]
  show (ms.mapM fun x => rdmaRequest _ _ op.opcode x.2.read) = _
  simp only [rdmaRequest_of_ready]
  exact List.mapM_pure

/-- The elements of the chain with their requests. -/
def items (op : WrapperOp) (localMr : IbvMr) (remoteMr : MrContext) (ms : List (ℕ × Meta)) :
    List Item :=
  ms.map fun x => (x, requestOf op localMr remoteMr x.2)

theorem zip_requests (ms : List (ℕ × Meta)) :
    ms.zip (requestsOf op localMr remoteMr ms) = items op localMr remoteMr ms := by
  have h := List.zip_map' (l := ms) (f := id) (g := fun x => requestOf op localMr remoteMr x.2)
  rwa [List.map_id] at h

/-- The turns fill in the keys of the chain. -/
theorem metas_post {malloc : Malloc} {metas : Heap Meta} {cur : ℕ} {ms : List (ℕ × Meta)}
    (hl : IsList Meta.next metas cur ms) :
    (post malloc c metas cur (items op localMr remoteMr ms)).metas =
      withKeys localMr metas (ms.map Prod.fst) := by
  have haddrs : (items op localMr remoteMr ms).map (fun x => x.1.1) = ms.map Prod.fst := by
    rw [items, List.map_map]
    rfl
  funext a
  by_cases ha : a ∈ ms.map Prod.fst
  · obtain ⟨x, hx, rfl⟩ := List.mem_map.mp ha
    have hitem : (x, requestOf op localMr remoteMr x.2) ∈ items op localMr remoteMr ms :=
      List.mem_map_of_mem hx
    rw [withKeys, if_pos ha, (hl.mem hx).2, Option.map_some]
    exact turns_metas_of_mem _ (haddrs ▸ hl.nodup) hitem
  · rw [withKeys, if_neg ha]
    exact turns_metas_of_not_mem _ (haddrs ▸ ha)

/-- The node of an element has the fields it should. -/
theorem translates_node (op : WrapperOp) (localMr : IbvMr) (remoteMr : MrContext) (a : ℕ)
    (m : Meta) (wrId : UInt32) (next : ℕ) :
    Translates op remoteMr a m wrId (node a (requestOf op localMr remoteMr m) wrId next) where
  wrId := rfl
  opcode := rfl
  flags := rfl
  numSge := by simp [node, requestOf, keyed]
  sgList := by simp [node, requestOf, keyed]
  target := by
    by_cases hop : op.OneSided
    · simp only [node, requestOf, if_pos hop]
    · simp only [node, requestOf, if_neg hop]
  immData := rfl

/-- The nodes handed to the driver. -/
theorem translates_nodes {malloc : Malloc} {ms : List (ℕ × Meta)} {ns : List (ℕ × SendWr)}
    (hns : ns = nodes malloc 0 c.ctx.lastSend (items op localMr remoteMr ms))
    {j : ℕ} {x : ℕ × Meta} {n : ℕ × SendWr} (hx : ms[j]? = some x) (hn : ns[j]? = some n) :
    Translates op remoteMr x.1 x.2 (idAfter c.ctx.lastSend j) n.2 := by
  have hitem : (items op localMr remoteMr ms)[j]? =
      some (x, requestOf op localMr remoteMr x.2) := by
    rw [items, List.getElem?_map, hx, Option.map_some]
  obtain ⟨next, hnext⟩ :=
    getElem?_nodes malloc 0 c.ctx.lastSend hitem
  obtain rfl := Option.some_inj.mp (hn.symm.trans (hns ▸ hnext))
  exact translates_node op localMr remoteMr x.1 x.2 _ next

/-- Every batch is translated as it should be. -/
theorem batch_translated (malloc : Malloc) {metas : Heap Meta} {cur : ℕ}
    {ms : List (ℕ × Meta)} (hready : MrsReady c.ctx op localId remoteId localMr remoteMr)
    (hl : IsList Meta.next metas cur ms) (hne : ms ≠ []) :
    ∃ p result, Translated c op localMr remoteMr metas ms p result ∧
      ∀ fuel ≥ ms.length,
        sendRdmaOperation malloc fuel c metas cur localId remoteId op.opcode =
          some ([p], result) := by
  have hreqs := chainRequests_of_ready hready ms
  have hlen : (requestsOf op localMr remoteMr ms).length = ms.length := List.length_map _
  have hcall := fun fuel (hfuel : ms.length ≤ fuel) =>
    sendRdmaOperation_of_ok malloc hl hne hfuel hreqs
  have hrequests := fun fuel (hfuel : ms.length ≤ fuel) =>
    requests_post malloc hl hne hfuel hreqs
  rw [zip_requests] at hcall hrequests
  have hlist : IsList SendWr.next
      (post malloc c metas cur (items op localMr remoteMr ms)).wrs
      (post malloc c metas cur (items op localMr remoteMr ms)).head
      (nodes malloc 0 c.ctx.lastSend (items op localMr remoteMr ms)) :=
    isList_post malloc c metas cur (by simpa [items] using hne)
  refine ⟨_, _, ?_, hcall⟩
  refine ⟨⟨_, hlist, by rw [length_nodes, items, List.length_map], ?_, ?_⟩, metas_post hl,
    ⟨_, hrequests, by rw [takeIds_length, hlen], ?_, ?_, ?_⟩, ?_⟩
  -- the list: every node, and its release
  · intro j x n hx hn
    exact translates_nodes rfl hx hn
  · intro sent hsent
    obtain ⟨conn, -, rfl⟩ := Except.map_eq_ok.mp hsent
    exact ⟨rfl, hlist.nodup, rfl⟩
  -- the requests: what they are, and what the driver does with them
  · intro j x wr hx hwr
    rw [getElem?_takeIds, requestsOf, List.getElem?_map, hx, Option.map_some, Option.map_some,
      Option.some_inj] at hwr
    exact hwr.symm
  · intro sent hsent
    obtain ⟨conn, hsubmit, rfl⟩ := Except.map_eq_ok.mp hsent
    exact (submit_eq_ok hsubmit).2
  · intro hiqp hqp
    have hreqs_ne : requestsOf op localMr remoteMr ms ≠ [] := by
      intro hnil
      rw [hnil] at hlen
      exact hne (List.eq_nil_of_length_eq_zero hlen.symm)
    obtain ⟨conn, hsubmit⟩ := exists_submit_takeIds hreqs_ne hiqp hqp
    exact ⟨_, Except.map_eq_ok.mpr ⟨conn, hsubmit, rfl⟩⟩
  -- the id and the counters
  · intro sent hsent
    obtain ⟨conn, hsubmit, rfl⟩ := Except.map_eq_ok.mp hsent
    obtain ⟨iqp, w, -, -, hctx⟩ := updateScurPost_eq_ok (submit_eq_ok hsubmit).1
    refine ⟨by rw [hlen], ?_, ?_, rfl⟩
    · rw [hctx, takeIds_snd]
      rfl
    · rw [hctx, takeIds_snd, hlen]
      rfl

end

/-! ### Two writes, the ids wrapping between them -/

/-- A chain of two elements, the second without SGEs. -/
def twoMetas : Heap Meta := fun a =>
  if a = 1 then some { addr := 4096, imm := 5, next := 2, sgeEntries := [⟨512, 8, 0⟩] }
  else if a = 2 then some { addr := 8192 }
  else none

def chainOfTwo : List (ℕ × Meta) :=
  [(1, { addr := 4096, imm := 5, next := 2, sgeEntries := [⟨512, 8, 0⟩] }), (2, { addr := 8192 })]

/-- A connection that writes to a region of its peer. -/
def wrapping : Conn :=
  { conn64 with
    ctx :=
      { conn64.ctx with
        remoteMr := fun _ => some { rkey := 9 }
        remoteMrReady := fun _ => true
        lastSend := 4294967294 } }

/-- Blocks one after the other. -/
def bump : Malloc where
  block i := i + 1
  block_ne_zero i := Nat.succ_ne_zero i
  block_injective := Nat.succ_injective

theorem batch_translated_two : ∃ p result,
    Translated wrapping .rdmaWriteWithImm ⟨0x1000, 4096, 7, 8, 0⟩ { rkey := 9 } twoMetas
      chainOfTwo p result ∧
    ∀ fuel ≥ chainOfTwo.length,
      sendRdmaOperation bump fuel wrapping twoMetas 1 0 1 WrapperOp.rdmaWriteWithImm.opcode =
        some ([p], result) :=
  batch_translated bump ⟨by decide, rfl, rfl, fun _ => rfl, fun _ => rfl⟩
    ⟨rfl, by decide, rfl, rfl, by decide, rfl, rfl⟩ (by decide)

end Batch

end Rdma
