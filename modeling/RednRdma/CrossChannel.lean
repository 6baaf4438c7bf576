/-
Waits and enables, as the driver counts them (vendored `libmlx5`, `qp.c`, `verbs.c`).

A WAIT names a CQE of a completion queue and an ENABLE a request of a managed queue, and
the driver works both out from counts: a count goes on from `wait_index` or
`head_en_index`, and a request with `IBV_EXP_SEND_WAIT_EN_LAST` moves that by the largest
count since it was moved last.  All queues that post share these fields.  They are moved before
the data segments are laid out, and stay moved when that fails.

* `Cq.wait`, `Wq.enable` — the two branches of `__mlx5_post_send_one_rc_dc`;
* `step` — the posting of lists on any number of queue pairs;
* `WaitsTrack`, `EnablesTrack` — the fields are the floor of the marks set so far, and how
  far the highest of them is above it;
* `run_waits`, `run_enables` — the indexes that any run works out.
-/
import RednRdma.WqeBuilder
import RednRdma.Lib.Machine
import RednRdma.Lib.Marks
import Mathlib.Tactic.Common

namespace Rdma

namespace CrossChannel

open Marks

open Builder (toInt)

/-- The macro `max` on two unsigned numbers. -/
def umax (a b : UInt32) : UInt32 := if a > b then a else b

/-- What waits read and move of a `struct mlx5_cq`, as `create_cq` leaves it. -/
structure Cq where
  cqn : UInt32 := 0
  waitIndex : UInt32 := 0 - 1
  waitCount : UInt32 := 0
  deriving Repr, DecidableEq

/-- The branch `IBV_EXP_WR_CQE_WAIT`: the queue, and the index that goes into the WQE. -/
def Cq.wait (cq : Cq) (count : UInt32) (last : Bool) : Cq × UInt32 :=
  let waitIndex := cq.waitIndex + count
  let waitCount := umax cq.waitCount count
  if last then ({ cq with waitIndex := cq.waitIndex + waitCount, waitCount := 0 }, waitIndex)
  else ({ cq with waitCount }, waitIndex)

/-- The `head` of a work queue with its `struct mlx5_wq_recv_send_enable`, as
`mlx5_init_qp_indices` leaves them. -/
structure Wq where
  head : UInt32 := 0
  headEnIndex : UInt32 := 0
  headEnCount : UInt32 := 0
  /-- Whether a CQE was asked for, for each request posted so far. -/
  signals : List Bool := []
  deriving Repr, DecidableEq

/-- The requests posted so far. -/
def Wq.posted (wq : Wq) : ℕ := wq.signals.length

/-- The branch of `IBV_EXP_WR_SEND_ENABLE` and `IBV_EXP_WR_RECV_ENABLE` for the queue that
is enabled: the queue, and the index, or none for `EINVAL`. -/
def Wq.enable (wq : Wq) (count : UInt32) (last : Bool) : Wq × Option UInt32 :=
  if count ≠ 0 then
    let index := wq.headEnIndex + count
    let wq := { wq with headEnCount := umax wq.headEnCount count }
    -- `(int)(wq->head - head_en_index) < 0`
    if 2 ^ 31 ≤ (wq.head - index).toNat then (wq, none)
    else if last then
      ({ wq with headEnIndex := wq.headEnIndex + wq.headEnCount, headEnCount := 0 }, some index)
    else (wq, some index)
  else
    let index := wq.head
    let wq := { wq with headEnCount := wq.head - wq.headEnIndex }
    if last then
      ({ wq with headEnIndex := wq.headEnIndex + wq.headEnCount, headEnCount := 0 }, some index)
    else (wq, some index)

/-- `head += nreq`. -/
def Wq.grow (wq : Wq) (signals : List Bool) : Wq :=
  { wq with
    head := wq.head + UInt32.ofNat signals.length
    signals := wq.signals ++ signals }

/-- The two work queues of a queue pair. -/
inductive Side
  | send | recv
  deriving Repr, DecidableEq

/-- The cross-channel bits of `create_flags`. -/
structure CreateFlags where
  crossChannel : Bool := false
  managedSend : Bool := false
  managedRecv : Bool := false
  deriving Repr, DecidableEq

/-- The queue is released by enables. -/
def CreateFlags.managed (flags : CreateFlags) : Side → Bool
  | .send => flags.managedSend
  | .recv => flags.managedRecv

/-- A WAIT whose `struct mlx5_wqe_wait_en_seg` has been set, on whichever queue. -/
structure WaitWqe where
  cq : ℕ
  count : UInt32
  last : Bool
  objNum : UInt32
  pi : UInt32
  /-- The data segments followed: the WQE is posted. -/
  laid : Bool
  deriving Repr, DecidableEq

/-- An ENABLE whose segment has been set, and what was posted on its queue by then. -/
structure EnableWqe where
  qpNum : UInt32
  side : Side
  count : UInt32
  last : Bool
  posted : ℕ
  pi : UInt32
  /-- The data segments followed: the WQE is posted. -/
  laid : Bool
  deriving Repr, DecidableEq

/-- A WQE of one of the two kinds. -/
inductive Wqe
  | wait (w : WaitWqe)
  | enable (e : EnableWqe)
  deriving Repr, DecidableEq

/-- The WAIT, if it is one for the completion queue. -/
def Wqe.waitOn (cq : ℕ) : Wqe → Option WaitWqe
  | wait w => if w.cq = cq then some w else none
  | enable _ => none

/-- The ENABLE, if it is one of the work queue. -/
def Wqe.enableOn (i : UInt32 × Side) : Wqe → Option EnableWqe
  | wait _ => none
  | enable e => if (e.qpNum, e.side) = i then some e else none

/-- The queues of a device, and the WAITs and ENABLEs so far in the order of their posts,
with the queue pairs they were posted on. -/
structure State where
  flags : UInt32 → CreateFlags
  maxInlineData : UInt32 → ℤ := fun _ => 0
  wq : UInt32 × Side → Wq := fun _ => {}
  cq : ℕ → Cq := fun _ => {}
  log : List (UInt32 × Wqe) := []

/-- `MLX5_IB_OPCODE_GET_CLASS(mlx5_ib_opcode[opcode]) == MLX5_OPCODE_MANAGED`. -/
def managedClass : WrOpcode → Bool
  | .sendEnable | .recvEnable | .cqeWait => true
  | _ => false

/-- The loop of `set_data_inl_seg`: no sum of the lengths is above `max_inline_data`. -/
def inlineFits (maxInlineData : ℤ) : ℤ → List Sge → Bool
  | _, [] => true
  | inl, sge :: sges =>
    let inl := toInt (inl + toInt sge.length.toNat)
    inl ≤ maxInlineData && inlineFits maxInlineData inl sges

/-- `set_data_seg` does not return `ENOMEM`. -/
def State.dataFits (s : State) (qp : UInt32) (wr : WorkRequest) : Bool :=
  !wr.flags.inl || inlineFits (s.maxInlineData qp) 0 wr.sgList

/-- A WAIT on `qp` for the completion queue. -/
def State.cqeWait (s : State) (qp : UInt32) (cq : ℕ) (count : UInt32) (last laid : Bool) :
    State :=
  let (cq', pi) := (s.cq cq).wait count last
  { s with
    cq := Function.update s.cq cq cq'
    log := s.log ++ [(qp, .wait { cq, count, last, objNum := cq'.cqn, pi, laid })] }

/-- An ENABLE on `qp` of a queue, and whether it was accepted. -/
def State.wqeEnable (s : State) (qp qpNum : UInt32) (side : Side) (count : UInt32)
    (last laid : Bool) : State × Bool :=
  if (s.flags qpNum).managed side = false then (s, false)
  else
    match (s.wq (qpNum, side)).enable count last with
    | (wq, none) => ({ s with wq := Function.update s.wq (qpNum, side) wq }, false)
    | (wq, some pi) =>
      ({ s with
        wq := Function.update s.wq (qpNum, side) wq
        log := s.log ++
          [(qp, .enable { qpNum, side, count, last, posted := wq.posted, pi, laid })] },
        laid)

/-- What `post_send_one` does for a request on `qp`; `none` where `task` is of another kind
than the opcode. -/
def State.postSendOne (s : State) (qp : UInt32) (wr : WorkRequest) : Option (State × Bool) :=
  if (managedClass wr.opcode ∨ wr.flags.withCalc) ∧ (s.flags qp).crossChannel = false then
    some (s, false)
  else
    let laid := s.dataFits qp wr
    match wr.opcode, wr.task with
    | .cqeWait, .cqeWait (some cq) count =>
      -- the index is not taken back when the data does not fit
      some (s.cqeWait qp cq count wr.flags.waitEnLast laid, laid)
    | .sendEnable, .wqeEnable qpNum count =>
      some (s.wqeEnable qp qpNum .send count wr.flags.waitEnLast laid)
    | .recvEnable, .wqeEnable qpNum count =>
      some (s.wqeEnable qp qpNum .recv count wr.flags.waitEnLast laid)
    | .cqeWait, _ | .sendEnable, _ | .recvEnable, _ => none
    | _, _ => some (s, true)

/-- The loop of `__mlx5_post_send`, with `nreq`.  Before the request `room` something else
refuses the list: the queue is full, or a check that does not concern waits and enables. -/
def State.postLoop (qp : UInt32) : ℕ → State → List WorkRequest → Option (State × ℕ)
  | _, s, [] => some (s, 0)
  | 0, s, _ :: _ => some (s, 0)
  | room + 1, s, wr :: wrs =>
    match s.postSendOne qp wr with
    | none => none
    | some (s, false) => some (s, 0)
    | some (s, true) => (postLoop qp room s wrs).map fun r => (r.1, r.2 + 1)

/-- The queue has that many more requests. -/
def State.grow (s : State) (qp : UInt32) (side : Side) (signals : List Bool) : State :=
  { s with wq := Function.update s.wq (qp, side) ((s.wq (qp, side)).grow signals) }

inductive Act
  /-- `__mlx5_post_send`. -/
  | postSend (qp : UInt32) (room : ℕ) (wrs : List WorkRequest)
  /-- `mlx5_post_recv`, of which so many receives are taken. -/
  | postRecv (qp : UInt32) (nreq : ℕ)

/-- The queue pairs are made with `sq_sig_all` 0: a send brings a CQE if it asks for one. -/
def step (s : State) : Act → Option State
  | .postSend qp room wrs =>
    (s.postLoop qp room wrs).map fun r =>
      r.1.grow qp .send ((wrs.take r.2).map (·.flags.signaled))
  | .postRecv qp nreq => some (s.grow qp .recv (List.replicate nreq true))

/-- Nothing has been posted. -/
structure Created (s : State) : Prop where
  wq : ∀ i, s.wq i = {}
  cq : ∀ c, (s.cq c).waitIndex = 0 - 1 ∧ (s.cq c).waitCount = 0
  log : s.log = []

/-- The WAITs for a completion queue. -/
def State.waitsOn (s : State) (cq : ℕ) : List WaitWqe := s.log.filterMap (·.2.waitOn cq)

/-- The ENABLEs of a work queue. -/
def State.enablesOn (s : State) (i : UInt32 × Side) : List EnableWqe :=
  s.log.filterMap (·.2.enableOn i)

/-- A WAIT asks for so many CQEs more. -/
def WaitWqe.place (w : WaitWqe) : Place × Bool := (.above w.count.toNat, w.last)

/-- An ENABLE asks for so many requests more, or for all there are. -/
def EnableWqe.place (e : EnableWqe) : Place × Bool :=
  (if e.count = 0 then .here e.posted else .above e.count.toNat, e.last)

/-- The CQEs the WAITs ask for, counted from the first one ever. -/
def waitMarks (ws : List WaitWqe) : List Mark := lay (ws.map WaitWqe.place)

/-- The requests the ENABLEs release, counted from the first one ever. -/
def enableMarks (es : List EnableWqe) : List Mark := lay (es.map EnableWqe.place)

/-- The requests posted on a queue that no settled ENABLE has released. -/
def State.backlog (s : State) (i : UInt32 × Side) : ℕ :=
  (s.wq i).posted - floor (enableMarks (s.enablesOn i))

/-- What an ENABLE asks for, and what it finds, is within what an `int` tells apart: less than
`2 ^ 31` requests.  Beyond that `(int)(wq->head - head_en_index) < 0` says nothing. -/
def State.InWindow (s : State) : Task → Prop
  | .wqeEnable qpNum count =>
    count.toNat < 2 ^ 31 ∧ s.backlog (qpNum, .send) < 2 ^ 31 ∧ s.backlog (qpNum, .recv) < 2 ^ 31
  | _ => True

instance (s : State) : DecidablePred s.InWindow
  | .wqeEnable .. => inferInstanceAs (Decidable (_ ∧ _))
  | .cqeWait .. | .none => inferInstanceAs (Decidable True)

/-- The list is posted as far as there is room: no request is refused for itself.  Its ENABLEs
are in the window. -/
def Orderly (s : State) : Act → Prop
  | .postSend qp room wrs =>
    (∀ wr ∈ wrs, s.InWindow wr.task) ∧ ∀ r ∈ s.postLoop qp room wrs, r.2 = min room wrs.length
  | .postRecv .. => True

instance (s : State) : DecidablePred (Orderly s)
  | .postSend .. => inferInstanceAs (Decidable (_ ∧ _))
  | .postRecv .. => inferInstanceAs (Decidable True)

/-! ### One queue -/

theorem toNat_umax (a b : UInt32) : (umax a b).toNat = max a.toNat b.toNat := by
  rw [umax]
  split
  · rename_i h
    have := UInt32.lt_iff_toNat_lt.mp h
    omega
  · rename_i h
    have := UInt32.le_iff_toNat_le.mp (UInt32.not_lt.mp h)
    omega

/-- The fields of a completion queue after the WAITs for it. -/
structure WaitsTrack (cq : Cq) (ws : List WaitWqe) : Prop where
  index : cq.waitIndex = UInt32.ofNat (floor (waitMarks ws)) - 1
  count : cq.waitCount.toNat = top (waitMarks ws) - floor (waitMarks ws)
  pi : ws.map WaitWqe.pi = (waitMarks ws).map fun m => UInt32.ofNat m.pos - 1

/-- From one mark up to another, in unsigned arithmetic. -/
theorem ofNat_add_of_sub {m n : ℕ} {d : UInt32} (hle : m ≤ n) (h : d.toNat = n - m) :
    UInt32.ofNat m + d = UInt32.ofNat n := by
  rw [← UInt32.ofNat_toNat (x := d), h, ← UInt32.ofNat_add, Nat.add_sub_cancel' hle]

theorem waitMarks_concat (ws : List WaitWqe) (w : WaitWqe) :
    waitMarks (ws ++ [w]) =
      waitMarks ws ++ [⟨floor (waitMarks ws) + w.count.toNat, w.last⟩] := by
  rw [waitMarks, List.map_append, List.map_singleton, lay_concat]
  rfl

theorem WaitsTrack.wait {cq : Cq} {ws : List WaitWqe} {w : WaitWqe} (h : WaitsTrack cq ws)
    (hpi : w.pi = (cq.wait w.count w.last).2) :
    WaitsTrack (cq.wait w.count w.last).1 (ws ++ [w]) := by
  -- `wait_count` reaches to the new top, still from the old floor
  have hcount : (umax cq.waitCount w.count).toNat =
      top (waitMarks (ws ++ [w])) - floor (waitMarks ws) := by
    rw [toNat_umax, h.count, waitMarks_concat, top_concat_sub]
  have hindex : w.pi = UInt32.ofNat (floor (waitMarks ws) + w.count.toNat) - 1 := by
    have hsum : w.pi = cq.waitIndex + w.count := by
      rw [hpi, Cq.wait]
      split <;> rfl
    rw [hsum, h.index, UInt32.ofNat_add, UInt32.ofNat_toNat]
    grind
  have hpis : (ws ++ [w]).map WaitWqe.pi =
      (waitMarks (ws ++ [w])).map fun m => UInt32.ofNat m.pos - 1 := by
    rw [waitMarks_concat, List.map_append, List.map_append, h.pi, List.map_singleton,
      List.map_singleton, hindex]
  cases hlast : w.last with
  | false =>
    have hfloor : floor (waitMarks (ws ++ [w])) = floor (waitMarks ws) := by
      rw [waitMarks_concat]
      exact floor_open _ hlast
    exact ⟨h.index.trans (by rw [hfloor]), hcount.trans (by rw [hfloor]), hpis⟩
  | true =>
    have hfloor : floor (waitMarks (ws ++ [w])) = top (waitMarks (ws ++ [w])) := by
      rw [waitMarks_concat, floor_settles _ hlast, top_concat]
    refine ⟨?_, ?_, hpis⟩
    · show cq.waitIndex + umax cq.waitCount w.count = _
      rw [hfloor, h.index]
      have hle : floor (waitMarks ws) ≤ top (waitMarks (ws ++ [w])) := by
        rw [waitMarks_concat, top_concat]
        exact (floor_le_top _).trans (le_max_left _ _)
      have hsum := ofNat_add_of_sub hle hcount
      grind
    · rw [hfloor, Nat.sub_self]
      rfl

/-- The fields of a managed queue after the ENABLEs of it. -/
structure EnablesTrack (wq : Wq) (es : List EnableWqe) : Prop where
  head : wq.head = UInt32.ofNat wq.posted
  index : wq.headEnIndex = UInt32.ofNat (floor (enableMarks es))
  count : wq.headEnCount.toNat = top (enableMarks es) - floor (enableMarks es)
  top_le : top (enableMarks es) ≤ wq.posted
  pi : es.map EnableWqe.pi = (enableMarks es).map fun m => UInt32.ofNat m.pos

theorem enableMarks_concat (es : List EnableWqe) (e : EnableWqe) :
    enableMarks (es ++ [e]) = enableMarks es ++ [⟨e.place.1.pos (enableMarks es), e.last⟩] := by
  rw [enableMarks, List.map_append, List.map_singleton, lay_concat]
  rfl

theorem EnablesTrack.floor_le {wq : Wq} {es : List EnableWqe} (h : EnablesTrack wq es) :
    floor (enableMarks es) ≤ wq.posted := (floor_le_top _).trans h.top_le

/-- `wq->head - head_en_index`, for an index below the head or not far above it. -/
theorem EnablesTrack.head_sub {wq : Wq} {es : List EnableWqe} {count : UInt32}
    (h : EnablesTrack wq es) (hcount : count.toNat < 2 ^ 31)
    (hback : wq.posted - floor (enableMarks es) < 2 ^ 31) :
    2 ^ 31 ≤ (wq.head - (wq.headEnIndex + count)).toNat ↔
      wq.posted < floor (enableMarks es) + count.toNat := by
  have hle := h.floor_le
  have hindex : wq.headEnIndex + count =
      UInt32.ofNat (floor (enableMarks es) + count.toNat) := by
    rw [h.index, UInt32.ofNat_add, UInt32.ofNat_toNat]
  rw [hindex, h.head]
  rcases Nat.lt_or_ge wq.posted (floor (enableMarks es) + count.toNat) with hlt | hge
  · -- the difference is below zero, by less than half of the range
    obtain ⟨k, hk⟩ : ∃ k, floor (enableMarks es) + count.toNat = wq.posted + k :=
      ⟨_, (Nat.add_sub_cancel' hlt.le).symm⟩
    have hneg : UInt32.ofNat wq.posted - UInt32.ofNat (wq.posted + k) = 0 - UInt32.ofNat k := by
      rw [UInt32.ofNat_add]
      grind
    have hk32 : (UInt32.ofNat k).toNat = k :=
      UInt32.toNat_ofNat_of_lt' (by simp only [UInt32.size]; omega)
    rw [hk, hneg, UInt32.toNat_sub, hk32, UInt32.toNat_zero]
    omega
  · have hsub : UInt32.ofNat wq.posted -
        UInt32.ofNat (floor (enableMarks es) + count.toNat) =
        UInt32.ofNat (wq.posted - (floor (enableMarks es) + count.toNat)) :=
      (UInt32.ofNat_sub hge).symm
    rw [hsub, UInt32.toNat_ofNat_of_lt' (by simp only [UInt32.size]; omega)]
    omega

/-- An ENABLE is refused when it asks for more than there is. -/
theorem EnablesTrack.enable_eq_none_iff {wq : Wq} {es : List EnableWqe} {count : UInt32}
    {last : Bool} (h : EnablesTrack wq es) (hcount : count.toNat < 2 ^ 31)
    (hback : wq.posted - floor (enableMarks es) < 2 ^ 31) :
    (wq.enable count last).2 = none ↔
      count ≠ 0 ∧ wq.posted < floor (enableMarks es) + count.toNat := by
  have hsub := h.head_sub hcount hback
  rw [Wq.enable]
  by_cases hzero : count = 0
  · rw [if_neg (not_not_intro hzero)]
    cases last <;> simp [hzero]
  · rw [if_pos hzero]
    by_cases hover : wq.posted < floor (enableMarks es) + count.toNat
    · rw [if_pos (hsub.mpr hover)]
      exact iff_of_true rfl ⟨hzero, hover⟩
    · rw [if_neg (mt hsub.mp hover)]
      cases last <;> simp [hover]

/-- An ENABLE that is accepted leaves the count at the way to the top, or the index there. -/
theorem Wq.enable_eq_some {wq wq' : Wq} {count pi : UInt32} {last : Bool}
    (h : wq.enable count last = (wq', some pi)) : ∃ d : UInt32,
    (count ≠ 0 ∧ pi = wq.headEnIndex + count ∧ d = umax wq.headEnCount count ∨
      count = 0 ∧ pi = wq.head ∧ d = wq.head - wq.headEnIndex) ∧
    wq' = if last then { wq with headEnIndex := wq.headEnIndex + d, headEnCount := 0 }
      else { wq with headEnCount := d } := by
  rw [Wq.enable] at h
  by_cases hzero : count = 0
  · rw [if_neg (not_not_intro hzero)] at h
    cases last with
    | false =>
      obtain ⟨rfl, hpi⟩ := Prod.mk.inj h
      exact ⟨_, Or.inr ⟨hzero, (Option.some_inj.mp hpi).symm, rfl⟩, rfl⟩
    | true =>
      obtain ⟨rfl, hpi⟩ := Prod.mk.inj h
      exact ⟨_, Or.inr ⟨hzero, (Option.some_inj.mp hpi).symm, rfl⟩, rfl⟩
  · rw [if_pos hzero] at h
    dsimp only at h
    split at h
    · exact absurd (Prod.mk.inj h).2 (by simp)
    · cases last with
      | false =>
        obtain ⟨rfl, hpi⟩ := Prod.mk.inj h
        exact ⟨_, Or.inl ⟨hzero, (Option.some_inj.mp hpi).symm, rfl⟩, rfl⟩
      | true =>
        obtain ⟨rfl, hpi⟩ := Prod.mk.inj h
        exact ⟨_, Or.inl ⟨hzero, (Option.some_inj.mp hpi).symm, rfl⟩, rfl⟩

theorem EnablesTrack.enable {wq wq' : Wq} {es : List EnableWqe} {e : EnableWqe}
    (h : EnablesTrack wq es) (hposted : e.posted = wq.posted)
    (hcount : e.count.toNat < 2 ^ 31)
    (hback : wq.posted - floor (enableMarks es) < 2 ^ 31)
    (he : wq.enable e.count e.last = (wq', some e.pi)) : EnablesTrack wq' (es ++ [e]) := by
  have hfl := h.floor_le
  have hflt := floor_le_top (enableMarks es)
  have hsome : ¬ (wq.enable e.count e.last).2 = none := by
    rw [he]
    exact Option.some_ne_none _
  rw [h.enable_eq_none_iff hcount hback] at hsome
  obtain ⟨d, hcase, hwq⟩ := Wq.enable_eq_some he
  -- where the mark is, and how far the top is above the floor from now on
  obtain ⟨hpi, hd, hpos⟩ : e.pi = UInt32.ofNat (e.place.1.pos (enableMarks es)) ∧
      d.toNat = top (enableMarks (es ++ [e])) - floor (enableMarks es) ∧
      e.place.1.pos (enableMarks es) ≤ wq.posted := by
    rw [enableMarks_concat, EnableWqe.place]
    rcases hcase with ⟨hne, hpi, rfl⟩ | ⟨hzero, hpi, rfl⟩
    · rw [if_neg hne]
      refine ⟨?_, ?_, ?_⟩
      · rw [hpi, h.index, Place.pos, UInt32.ofNat_add, UInt32.ofNat_toNat]
      · rw [toNat_umax, h.count, Place.pos, top_concat_sub]
      · have : ¬ wq.posted < floor (enableMarks es) + e.count.toNat := fun hlt =>
          hsome ⟨hne, hlt⟩
        exact Nat.not_lt.mp this
    · rw [if_pos hzero]
      refine ⟨?_, ?_, hposted.le⟩
      · rw [hpi, h.head, Place.pos, hposted]
      · rw [top_concat, h.head, h.index, ← UInt32.ofNat_sub hfl,
          UInt32.toNat_ofNat_of_lt' (by simp only [UInt32.size]; omega), Place.pos, hposted,
          Nat.max_eq_right h.top_le]
  have htop : top (enableMarks (es ++ [e])) ≤ wq.posted := by
    rw [enableMarks_concat, top_concat]
    exact Nat.max_le.mpr ⟨h.top_le, hpos⟩
  have hpis : (es ++ [e]).map EnableWqe.pi =
      (enableMarks (es ++ [e])).map fun m => UInt32.ofNat m.pos := by
    rw [enableMarks_concat, List.map_append, List.map_append, h.pi, List.map_singleton,
      List.map_singleton, hpi]
  cases hlast : e.last with
  | false =>
    rw [hlast, if_neg (by simp)] at hwq
    have hfloor : floor (enableMarks (es ++ [e])) = floor (enableMarks es) := by
      rw [enableMarks_concat]
      exact floor_open _ hlast
    rw [hwq]
    exact ⟨h.head, h.index.trans (by rw [hfloor]), hd.trans (by rw [hfloor]), htop, hpis⟩
  | true =>
    rw [hlast, if_pos rfl] at hwq
    have hfloor : floor (enableMarks (es ++ [e])) = top (enableMarks (es ++ [e])) := by
      rw [enableMarks_concat, floor_settles _ hlast, top_concat]
    have hle : floor (enableMarks es) ≤ top (enableMarks (es ++ [e])) := by
      rw [enableMarks_concat, top_concat]
      exact hflt.trans (le_max_left _ _)
    rw [hwq]
    refine ⟨h.head, ?_, ?_, htop, hpis⟩
    · show wq.headEnIndex + d = _
      rw [hfloor, h.index]
      exact ofNat_add_of_sub hle hd
    · rw [hfloor, Nat.sub_self]
      rfl

theorem Wq.posted_grow (wq : Wq) (signals : List Bool) :
    (wq.grow signals).posted = wq.posted + signals.length := List.length_append

theorem EnablesTrack.grow {wq : Wq} {es : List EnableWqe} (h : EnablesTrack wq es)
    (signals : List Bool) : EnablesTrack (wq.grow signals) es where
  head := by
    show wq.head + UInt32.ofNat signals.length = UInt32.ofNat (wq.grow signals).posted
    rw [h.head, Wq.posted_grow, UInt32.ofNat_add]
  index := h.index
  count := h.count
  top_le := by
    rw [Wq.posted_grow]
    exact h.top_le.trans (Nat.le_add_right _ _)
  pi := h.pi

/-! ### All queues -/

/-- What the fields of all completion queues are. -/
def State.WaitInv (s : State) : Prop := ∀ c, WaitsTrack (s.cq c) (s.waitsOn c)

/-- What the fields of all managed queues are. -/
def State.EnableInv (s : State) : Prop := ∀ i, EnablesTrack (s.wq i) (s.enablesOn i)

theorem Created.waitInv {s : State} (h : Created s) : s.WaitInv := by
  intro c
  rw [State.waitsOn, h.log, List.filterMap_nil]
  obtain ⟨hindex, hcount⟩ := h.cq c
  exact ⟨hindex, by rw [hcount]; rfl, rfl⟩

theorem Created.enableInv {s : State} (h : Created s) : s.EnableInv := by
  intro i
  rw [State.enablesOn, h.log, List.filterMap_nil, h.wq]
  exact ⟨rfl, rfl, rfl, Nat.zero_le _, rfl⟩

/-- The WAITs for a completion queue when one more segment has been set. -/
theorem filterMap_waitOn (log : List (UInt32 × Wqe)) (x : UInt32 × Wqe) (c : ℕ) :
    (log ++ [x]).filterMap (·.2.waitOn c) =
      log.filterMap (·.2.waitOn c) ++ (x.2.waitOn c).toList := by
  rw [List.filterMap_append, List.filterMap_cons, List.filterMap_nil]
  cases x.2.waitOn c <;> rfl

theorem filterMap_enableOn (log : List (UInt32 × Wqe)) (x : UInt32 × Wqe) (i : UInt32 × Side) :
    (log ++ [x]).filterMap (·.2.enableOn i) =
      log.filterMap (·.2.enableOn i) ++ (x.2.enableOn i).toList := by
  rw [List.filterMap_append, List.filterMap_cons, List.filterMap_nil]
  cases x.2.enableOn i <;> rfl

/-- What an ENABLE does: it is refused before or at the check, or its segment is set. -/
theorem State.wqeEnable_cases {s s' : State} {qp qpNum : UInt32} {side : Side} {count : UInt32}
    {last laid ok : Bool} (h : s.wqeEnable qp qpNum side count last laid = (s', ok)) :
    s'.cq = s.cq ∧ (ok = false ∧ s'.log = s.log ∨ ok = laid ∧
      ∃ (wq : Wq) (pi : UInt32), (s.wq (qpNum, side)).enable count last = (wq, some pi) ∧
        s'.wq = Function.update s.wq (qpNum, side) wq ∧
        s'.log = s.log ++
          [(qp, .enable { qpNum, side, count, last, posted := wq.posted, pi, laid })]) := by
  rw [State.wqeEnable] at h
  split at h
  · obtain ⟨rfl, rfl⟩ := Prod.mk.inj h
    exact ⟨rfl, Or.inl ⟨rfl, rfl⟩⟩
  · split at h
    · obtain ⟨rfl, rfl⟩ := Prod.mk.inj h
      exact ⟨rfl, Or.inl ⟨rfl, rfl⟩⟩
    · rename_i wq pi henable
      obtain ⟨rfl, rfl⟩ := Prod.mk.inj h
      exact ⟨rfl, Or.inr ⟨rfl, wq, pi, henable, rfl, rfl⟩⟩

/-- What a request does: nothing, a WAIT, or an ENABLE. -/
theorem State.postSendOne_cases {s s' : State} {qp : UInt32} {wr : WorkRequest} {ok : Bool}
    (h : s.postSendOne qp wr = some (s', ok)) :
    s' = s ∨ (∃ cq count laid, s' = s.cqeWait qp cq count wr.flags.waitEnLast laid) ∨
      ∃ qpNum side count laid, wr.task = .wqeEnable qpNum count ∧
        s.wqeEnable qp qpNum side count wr.flags.waitEnLast laid = (s', ok) := by
  rw [State.postSendOne] at h
  split at h
  · exact Or.inl (Prod.mk.inj (Option.some_inj.mp h)).1.symm
  · split at h
    · exact Or.inr (Or.inl ⟨_, _, _, (Prod.mk.inj (Option.some_inj.mp h)).1.symm⟩)
    · rename_i htask
      exact Or.inr (Or.inr ⟨_, _, _, _, htask, Option.some_inj.mp h⟩)
    · rename_i htask
      exact Or.inr (Or.inr ⟨_, _, _, _, htask, Option.some_inj.mp h⟩)
    · exact absurd h (by simp)
    · exact absurd h (by simp)
    · exact absurd h (by simp)
    · exact Or.inl (Prod.mk.inj (Option.some_inj.mp h)).1.symm

theorem State.WaitInv.cqeWait {s : State} (h : s.WaitInv) (qp : UInt32) (cq : ℕ)
    (count : UInt32) (last laid : Bool) : (s.cqeWait qp cq count last laid).WaitInv := by
  intro c
  rw [State.waitsOn, State.cqeWait]
  dsimp only
  rw [filterMap_waitOn]
  by_cases hc : cq = c
  · subst hc
    rw [Function.update_self, Wqe.waitOn, if_pos rfl]
    exact (h cq).wait (w := { cq, count, last, objNum := _, pi := _, laid }) rfl
  · rw [Function.update_of_ne (Ne.symm hc), Wqe.waitOn, if_neg hc, Option.toList_none,
      List.append_nil]
    exact h c

theorem State.WaitInv.wqeEnable {s s' : State} {qp qpNum : UInt32} {side : Side}
    {count : UInt32} {last laid ok : Bool} (h : s.WaitInv)
    (hs : s.wqeEnable qp qpNum side count last laid = (s', ok)) : s'.WaitInv := by
  obtain ⟨hcq, ⟨-, hlog⟩ | ⟨-, wq, pi, -, -, hlog⟩⟩ := wqeEnable_cases hs
  · intro c
    rw [State.waitsOn, hcq, hlog]
    exact h c
  · intro c
    rw [State.waitsOn, hcq, hlog, filterMap_waitOn, Wqe.waitOn, Option.toList_none,
      List.append_nil]
    exact h c

theorem State.WaitInv.postSendOne {s s' : State} {qp : UInt32} {wr : WorkRequest} {ok : Bool}
    (h : s.WaitInv) (hs : s.postSendOne qp wr = some (s', ok)) : s'.WaitInv := by
  obtain rfl | ⟨cq, count, laid, rfl⟩ | ⟨qpNum, side, count, laid, -, henable⟩ :=
    postSendOne_cases hs
  · exact h
  · exact h.cqeWait qp cq count _ laid
  · exact h.wqeEnable henable

theorem State.WaitInv.postLoop {s s' : State} {qp : UInt32} {room nreq : ℕ}
    {wrs : List WorkRequest} (h : s.WaitInv) (hs : s.postLoop qp room wrs = some (s', nreq)) :
    s'.WaitInv := by
  induction wrs generalizing s room nreq with
  | nil =>
    rw [State.postLoop] at hs
    exact (Prod.mk.inj (Option.some_inj.mp hs)).1 ▸ h
  | cons wr wrs ih =>
    cases room with
    | zero =>
      rw [State.postLoop] at hs
      · exact (Prod.mk.inj (Option.some_inj.mp hs)).1 ▸ h
    | succ room =>
      rw [State.postLoop] at hs
      split at hs
      · exact absurd hs (by simp)
      · rename_i s₁ hone
        exact (Prod.mk.inj (Option.some_inj.mp hs)).1 ▸ h.postSendOne hone
      · rename_i s₁ hone
        obtain ⟨⟨s₂, n⟩, hrest, heq⟩ := Option.map_eq_some_iff.mp hs
        obtain ⟨rfl, -⟩ := Prod.mk.inj heq
        exact ih (h.postSendOne hone) hrest

theorem State.WaitInv.step {s s' : State} {a : Act} (h : s.WaitInv)
    (hs : step s a = some s') : s'.WaitInv := by
  cases a with
  | postSend qp room wrs =>
    obtain ⟨⟨s₁, n⟩, hloop, rfl⟩ := Option.map_eq_some_iff.mp hs
    have hend : s₁.WaitInv := h.postLoop hloop
    exact hend
  | postRecv qp nreq =>
    obtain rfl := Option.some_inj.mp hs
    exact h

theorem InWindow.backlog {s : State} {qpNum count : UInt32}
    (h : s.InWindow (.wqeEnable qpNum count)) (side : Side) : s.backlog (qpNum, side) < 2 ^ 31 := by
  cases side with
  | send => exact h.2.1
  | recv => exact h.2.2

/-- An ENABLE that is accepted adds a mark to its queue, and changes no other. -/
theorem State.EnableInv.wqeEnable {s s' : State} {qp qpNum : UInt32} {side : Side}
    {count : UInt32} {last laid : Bool} (h : s.EnableInv)
    (hw : s.InWindow (.wqeEnable qpNum count))
    (hs : s.wqeEnable qp qpNum side count last laid = (s', true)) :
    s'.EnableInv ∧ ∀ i, s'.backlog i ≤ s.backlog i := by
  -- accepted, so that it was neither refused at the check nor left without its data
  obtain ⟨-, ⟨hok, -⟩ | ⟨-, wq, pi, henable, hwq, hlog⟩⟩ := wqeEnable_cases hs
  · exact absurd hok (by simp)
  obtain ⟨d, -, hwq'⟩ := Wq.enable_eq_some henable
  have hposted : wq.posted = (s.wq (qpNum, side)).posted := by
    rw [hwq']
    split <;> rfl
  have hon : ∀ i, s'.enablesOn i = s.enablesOn i ++
      (Wqe.enableOn i
        (.enable { qpNum, side, count, last, posted := wq.posted, pi, laid })).toList := by
    intro i
    rw [State.enablesOn, hlog, filterMap_enableOn]
    rfl
  constructor
  · intro i
    rw [hwq, hon]
    by_cases hi : (qpNum, side) = i
    · subst hi
      rw [Function.update_self, Wqe.enableOn, if_pos rfl]
      exact (h _).enable hposted hw.1 (InWindow.backlog hw side) henable
    · rw [Function.update_of_ne (Ne.symm hi), Wqe.enableOn, if_neg hi, Option.toList_none,
        List.append_nil]
      exact h i
  · -- nothing is posted, and the floor does not go down
    intro i
    have hsame : (s'.wq i).posted = (s.wq i).posted := by
      rw [hwq]
      by_cases hi : i = (qpNum, side)
      · rw [hi, Function.update_self, hposted]
      · rw [Function.update_of_ne hi]
    have hmono : floor (enableMarks (s.enablesOn i)) ≤ floor (enableMarks (s'.enablesOn i)) := by
      rw [hon i, enableMarks, enableMarks, List.map_append]
      exact floor_lay_le_append _ _
    rw [State.backlog, State.backlog, hsame]
    omega

/-- A WAIT leaves the ENABLEs as they are. -/
theorem State.enablesOn_cqeWait (s : State) (qp : UInt32) (cq : ℕ) (count : UInt32)
    (last laid : Bool) (i : UInt32 × Side) :
    (s.cqeWait qp cq count last laid).enablesOn i = s.enablesOn i := by
  rw [State.enablesOn, State.cqeWait]
  dsimp only
  rw [filterMap_enableOn, Wqe.enableOn, Option.toList_none, List.append_nil, State.enablesOn]

theorem State.EnableInv.postSendOne {s s' : State} {qp : UInt32} {wr : WorkRequest}
    (h : s.EnableInv) (hw : s.InWindow wr.task) (hs : s.postSendOne qp wr = some (s', true)) :
    s'.EnableInv ∧ ∀ i, s'.backlog i ≤ s.backlog i := by
  obtain rfl | ⟨cq, count, laid, rfl⟩ | ⟨qpNum, side, count, laid, htask, henable⟩ :=
    postSendOne_cases hs
  · exact ⟨h, fun _ => le_refl _⟩
  · have hsame := s.enablesOn_cqeWait qp cq count wr.flags.waitEnLast laid
    refine ⟨fun i => ?_, fun i => ?_⟩
    · rw [hsame]
      exact h i
    · rw [State.backlog, hsame, State.backlog]
      exact le_refl _
  · rw [htask] at hw
    exact h.wqeEnable hw henable

theorem State.InWindow.mono {s s' : State} (hback : ∀ i, s'.backlog i ≤ s.backlog i)
    {task : Task} (h : s.InWindow task) : s'.InWindow task := by
  cases task with
  | none => trivial
  | cqeWait cq count => trivial
  | wqeEnable qpNum count =>
    exact ⟨h.1, (hback _).trans_lt h.2.1, (hback _).trans_lt h.2.2⟩

theorem State.EnableInv.postLoop {s s' : State} {qp : UInt32} {room nreq : ℕ}
    {wrs : List WorkRequest} (h : s.EnableInv) (hw : ∀ wr ∈ wrs, s.InWindow wr.task)
    (hs : s.postLoop qp room wrs = some (s', nreq)) (hall : nreq = min room wrs.length) :
    s'.EnableInv := by
  induction wrs generalizing s room nreq with
  | nil =>
    rw [State.postLoop] at hs
    exact (Prod.mk.inj (Option.some_inj.mp hs)).1 ▸ h
  | cons wr wrs ih =>
    cases room with
    | zero =>
      rw [State.postLoop] at hs
      exact (Prod.mk.inj (Option.some_inj.mp hs)).1 ▸ h
    | succ room =>
      rw [List.length_cons, Nat.add_min_add_right] at hall
      rw [State.postLoop] at hs
      split at hs
      · exact absurd hs (by simp)
      · have hzero := (Prod.mk.inj (Option.some_inj.mp hs)).2
        omega
      · rename_i s₁ hone
        obtain ⟨⟨s₂, n⟩, hrest, heq⟩ := Option.map_eq_some_iff.mp hs
        obtain ⟨rfl, hn⟩ := Prod.mk.inj heq
        obtain ⟨hwr, hwrs⟩ := List.forall_mem_cons.mp hw
        obtain ⟨h₁, hback⟩ := h.postSendOne hwr hone
        exact ih h₁ (fun w hmem => (hwrs w hmem).mono hback) hrest (by dsimp only at hn; omega)

theorem State.EnableInv.grow {s : State} (h : s.EnableInv) (qp : UInt32) (side : Side)
    (signals : List Bool) : (s.grow qp side signals).EnableInv := by
  intro i
  show EnablesTrack (Function.update s.wq (qp, side) _ i) (s.enablesOn i)
  by_cases hi : i = (qp, side)
  · rw [hi, Function.update_self]
    exact (h _).grow signals
  · rw [Function.update_of_ne hi]
    exact h i

theorem State.EnableInv.step {s s' : State} {a : Act} (h : s.EnableInv) (ho : Orderly s a)
    (hs : step s a = some s') : s'.EnableInv := by
  cases a with
  | postSend qp room wrs =>
    obtain ⟨⟨s₁, n⟩, hloop, rfl⟩ := Option.map_eq_some_iff.mp hs
    exact (h.postLoop ho.1 hloop (ho.2 _ hloop)).grow qp .send _
  | postRecv qp nreq =>
    obtain rfl := Option.some_inj.mp hs
    exact h.grow qp .recv _

/-! ### The indexes of a run -/

/-- The WAIT asks for its count from the first CQE ever exactly when no WAIT that settled
asked for any, nor one before such a WAIT. -/
theorem pos_eq_count_iff {ws : List WaitWqe} {k : ℕ} {w : WaitWqe} {m : Mark}
    (hw : ws[k]? = some w) (hm : (waitMarks ws)[k]? = some m) :
    m.pos = w.count.toNat ↔ ∀ x ∈ upToSettled ((waitMarks ws).take k), x.pos = 0 := by
  have hplace : (ws.map WaitWqe.place)[k]? = some w.place := by
    rw [List.getElem?_map, hw]
    rfl
  have hlay := getElem?_lay hplace
  rw [waitMarks] at hm
  obtain rfl := Option.some_inj.mp (hlay.symm.trans hm)
  rw [waitMarks, take_lay]
  have hfloor : floor (lay ((ws.map WaitWqe.place).take k)) = 0 ↔
      ∀ x ∈ upToSettled (lay ((ws.map WaitWqe.place).take k)), x.pos = 0 := by
    rw [← Nat.le_zero, floor, top_le_iff]
    exact forall₂_congr fun _ _ => Nat.le_zero
  rw [← hfloor]
  show floor _ + w.count.toNat = w.count.toNat ↔ _
  omega

/-- An ENABLE with a count releases just that many more than the last one that settled,
exactly when no ENABLE up to that one was above it. -/
theorem pos_eq_settled_add_iff {es : List EnableWqe} {k : ℕ} {e : EnableWqe} {m : Mark}
    (he : es[k]? = some e) (hcount : e.count ≠ 0) (hm : (enableMarks es)[k]? = some m) :
    m.pos = settled ((enableMarks es).take k) + e.count.toNat ↔
      ∀ x ∈ upToSettled ((enableMarks es).take k), x.pos ≤ settled ((enableMarks es).take k) := by
  have hplace : (es.map EnableWqe.place)[k]? = some (.above e.count.toNat, e.last) := by
    rw [List.getElem?_map, he, Option.map_some, EnableWqe.place, if_neg hcount]
  have hlay := getElem?_lay hplace
  rw [enableMarks] at hm
  obtain rfl := Option.some_inj.mp (hlay.symm.trans hm)
  rw [enableMarks, take_lay, ← floor_eq_settled_iff]
  show floor _ + e.count.toNat = _ + e.count.toNat ↔ _
  omega

/-- Every WAIT settles: each asks for its count on top of all the counts before. -/
theorem getElem?_waitMarks_of_settles {ws : List WaitWqe} (h : ∀ w ∈ ws, w.last = true) {k : ℕ}
    {w : WaitWqe} (hw : ws[k]? = some w) :
    (waitMarks ws)[k]? = some ⟨((ws.take (k + 1)).map (·.count.toNat)).sum, true⟩ := by
  have hplaces : ws.map WaitWqe.place =
      (ws.map (·.count.toNat)).map fun way => (.above way, true) := by
    rw [List.map_map]
    refine List.map_congr_left ?_
    intro w hw
    rw [WaitWqe.place, h w hw]
    rfl
  have hway : (ws.map (·.count.toNat))[k]? = some w.count.toNat := by
    rw [List.getElem?_map, hw]
    rfl
  rw [waitMarks, hplaces, getElem?_lay_of_settles hway, List.map_take]

/-- Queue pairs that take every kind of request, with nothing posted. -/
def crossQps : State := { flags := fun _ => ⟨true, true, true⟩ }

theorem crossQps_created : Created crossQps := ⟨fun _ => rfl, fun _ => ⟨rfl, rfl⟩, rfl⟩

/-- Three requests on queue 7; from queue 1 its release, one more in between, and WAITs for
completion queue 5, the first without `IBV_EXP_SEND_WAIT_EN_LAST`. -/
def crossPosts : List Act :=
  [.postSend 7 3 (List.replicate 3 { opcode := .send }),
    .postSend 1 2
      [{ opcode := .sendEnable, task := .wqeEnable 7 2, flags := { waitEnLast := true } },
        { opcode := .cqeWait, task := .cqeWait (some 5) 3 }],
    .postSend 2 2
      [{ opcode := .cqeWait, task := .cqeWait (some 5) 1, flags := { waitEnLast := true } },
        { opcode := .sendEnable, task := .wqeEnable 7 0 }],
    .postSend 1 2
      [{ opcode := .cqeWait, task := .cqeWait (some 5) 1, flags := { waitEnLast := true } },
        { opcode := .sendEnable, task := .wqeEnable 7 1, flags := { waitEnLast := true } }]]

/-- A WAIT for two CQEs with more data than may be inline, and one for a single CQE. -/
def refusedPosts : List Act :=
  [.postSend 1 1
      [{ opcode := .cqeWait, task := .cqeWait (some 5) 2, sgList := [⟨0, 64, 0⟩],
         flags := { waitEnLast := true, inl := true } }],
    .postSend 2 1
      [{ opcode := .cqeWait, task := .cqeWait (some 5) 1, flags := { waitEnLast := true } }]]

/-- **What the WAITs of a run ask for.**  The WAITs for a completion queue, whatever queues
they are posted on, name the CQEs of the marks their counts set.  One that is posted when
none has settled above zero asks for its own count from the first CQE ever, and only such a
one; and if all settle, each asks for its count on top of all the counts before it.  The
counts are those of all WAITs whose segments have been set, also of those that the driver then
refuses, as their data does not fit. -/
theorem run_waits {s₀ s : State} {as : List Act} (h : Created s₀)
    (hr : Machine.run step s₀ as = some s) (c : ℕ) :
    (s.waitsOn c).map WaitWqe.pi =
        (waitMarks (s.waitsOn c)).map (fun m => UInt32.ofNat m.pos - 1) ∧
      (∀ (k : ℕ) w m, (s.waitsOn c)[k]? = some w → (waitMarks (s.waitsOn c))[k]? = some m →
        (m.pos = w.count.toNat ↔
          ∀ x ∈ upToSettled ((waitMarks (s.waitsOn c)).take k), x.pos = 0)) ∧
      ((∀ w ∈ s.waitsOn c, w.last = true) → ∀ (k : ℕ) w, (s.waitsOn c)[k]? = some w →
        w.pi = UInt32.ofNat (((s.waitsOn c).take (k + 1)).map (·.count.toNat)).sum - 1) := by
  have hinv : s.WaitInv := Machine.run_inv (fun _ _ _ hi hs => hi.step hs) h.waitInv hr
  have hpi := (hinv c).pi
  refine ⟨hpi, fun k w m hw hm => pos_eq_count_iff hw hm, ?_⟩
  intro hlast k w hw
  have hk := congrArg (·[k]?) hpi
  simp only [List.getElem?_map, hw, getElem?_waitMarks_of_settles hlast hw, Option.map_some,
    Option.some_inj] at hk
  exact hk

/-- The WAIT on queue 2 is for the first CQE; the one behind it counts from the third, which
the first WAIT on queue 1 is for.  The last one counts on from one that has no WQE. -/
theorem run_waits_shared : ∃ s, Machine.run step crossQps (crossPosts ++ refusedPosts) = some s ∧
    (s.waitsOn 5).map WaitWqe.laid = [true, true, true, false, true] ∧
    (s.waitsOn 5).map WaitWqe.pi = [2, 0, 3, 5, 6] := by
  obtain ⟨s, hr, hlaid, hmarks⟩ : ∃ s,
      Machine.run step crossQps (crossPosts ++ refusedPosts) = some s ∧
      (s.waitsOn 5).map WaitWqe.laid = [true, true, true, false, true] ∧
      waitMarks (s.waitsOn 5) =
        [⟨3, false⟩, ⟨1, true⟩, ⟨4, true⟩, ⟨6, true⟩, ⟨7, true⟩] := ⟨_, rfl, rfl, by decide⟩
  refine ⟨s, hr, hlaid, ?_⟩
  rw [(run_waits crossQps_created hr 5).1, hmarks]
  rfl

/-- **What the ENABLEs of a run release.**  If the lists are posted as far as there is
room, with ENABLEs in the window only, the ENABLEs of a managed queue name the requests of the
marks their counts set, none of them beyond what has been posted on the queue.  One with a
count that is not 0 releases just that many more than the last that settled if none up to that
one, without `IBV_EXP_SEND_WAIT_EN_LAST`, was above it, and only then; and the next one in the
window is refused exactly when its count is not 0 and asks for more than there is. -/
theorem run_enables {s₀ s : State} {as : List Act} (h : Created s₀)
    (hm : Machine.Meets step Orderly s₀ as) (hr : Machine.run step s₀ as = some s)
    (i : UInt32 × Side) :
    (s.enablesOn i).map EnableWqe.pi =
        (enableMarks (s.enablesOn i)).map (fun m => UInt32.ofNat m.pos) ∧
      (∀ m ∈ enableMarks (s.enablesOn i), m.pos ≤ (s.wq i).posted) ∧
      (∀ (k : ℕ) e m, (s.enablesOn i)[k]? = some e → e.count ≠ 0 →
        (enableMarks (s.enablesOn i))[k]? = some m →
        (m.pos = settled ((enableMarks (s.enablesOn i)).take k) + e.count.toNat ↔
          ∀ x ∈ upToSettled ((enableMarks (s.enablesOn i)).take k),
            x.pos ≤ settled ((enableMarks (s.enablesOn i)).take k))) ∧
      ∀ (count : UInt32) last, count.toNat < 2 ^ 31 → s.backlog i < 2 ^ 31 →
        (((s.wq i).enable count last).2 = none ↔ count ≠ 0 ∧
          (s.wq i).posted < floor (enableMarks (s.enablesOn i)) + count.toNat) := by
  have hinv : s.EnableInv := Machine.run_inv_of_meets (fun _ _ _ hi ho hs => hi.step ho hs)
    h.enableInv hm hr
  exact ⟨(hinv i).pi, top_le_iff.mp (hinv i).top_le,
    fun _ _ _ he hcount hmark => pos_eq_settled_add_iff he hcount hmark,
    fun _ _ hcount hback => (hinv i).enable_eq_none_iff hcount hback⟩

/-- All three requests are released, and the release of one more is refused. -/
theorem run_enables_refuses : ∃ s, Machine.run step crossQps crossPosts = some s ∧
    (s.enablesOn (7, .send)).map EnableWqe.pi = [2, 3, 3] ∧
    ((s.wq (7, .send)).enable 1 true).2 = none := by
  obtain ⟨s, hr, hmarks, hfloor, hposted⟩ : ∃ s,
      Machine.run step crossQps crossPosts = some s ∧
      enableMarks (s.enablesOn (7, .send)) = [⟨2, true⟩, ⟨3, false⟩, ⟨3, true⟩] ∧
      floor (enableMarks (s.enablesOn (7, .send))) = 3 ∧ (s.wq (7, .send)).posted = 3 :=
    ⟨_, rfl, by decide, by decide, rfl⟩
  obtain ⟨hpi, -, -, hnone⟩ := run_enables crossQps_created (by decide) hr (7, .send)
  refine ⟨s, hr, by rw [hpi, hmarks]; rfl, (hnone 1 true (by decide) ?_).mpr ⟨by decide, ?_⟩⟩
  · rw [State.backlog, hfloor, hposted]
    decide
  · rw [hfloor, hposted]
    decide

end CrossChannel

end Rdma
