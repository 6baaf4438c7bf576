/-
The bookkeeping of a send queue (vendored `libmlx5`, `qp.c`, `cq.c`).

`__mlx5_post_send` counts the requests it has posted in `head`, and a CQE that is polled
moves `tail` behind the request it is for.  A request is refused when `max_post` of them
are between the two, which is what keeps the WQEs of the others from being written over.
A list that is refused in the middle has been posted up to there.

* `SendQueue.postSend` — the loop of `__mlx5_post_send`, with its error path;
* `SendQueue.takeCompletion` — what `mlx5_poll_one` does with the CQE of a request;
* `SendQueue.Tracks` — the requests behind `tail` are out of the way, the others whole;
* `Spec` — what the queue is for: a list of requests and three positions in it.
-/
import RednRdma.Driver
import RednRdma.Lib.Machine

namespace Rdma

/-- `n & (cnt - 1)`, where `cnt` is a power of two. -/
theorem toNat_and_sub_one {cnt : UInt32} (h : ∃ k < 32, cnt.toNat = 2 ^ k) (n : UInt32) :
    (n &&& (cnt - 1)).toNat = n.toNat % cnt.toNat := by
  obtain ⟨k, hk, hpow⟩ := h
  have hone : (1 : UInt32) ≤ cnt := by
    rw [UInt32.le_iff_toNat_le, hpow]
    exact Nat.one_le_two_pow
  have hmask : (cnt - 1).toNat = 2 ^ k - 1 := by
    rw [UInt32.toNat_sub_of_le _ _ hone, hpow]
    rfl
  rw [UInt32.toNat_and, hmask, Nat.and_two_pow_sub_one_eq_mod, hpow]

/-- `mlx5_wq_overflow`, on the fields of either queue and in unsigned arithmetic. -/
def mlx5WqOverflow (head tail maxPost : UInt32) (nreq : ℕ) : Bool :=
  head - tail + UInt32.ofNat nreq ≥ maxPost

/-- A queue is full when `max_post` of the requests posted have not been polled. -/
theorem mlx5WqOverflow_eq_false_iff {head tail maxPost : UInt32} {nreq posted polled : ℕ}
    (hhead : head + UInt32.ofNat nreq = UInt32.ofNat posted) (htail : tail = UInt32.ofNat polled)
    (hle : polled ≤ posted) (hroom : posted - polled ≤ maxPost.toNat) :
    mlx5WqOverflow head tail maxPost nreq = false ↔ posted - polled < maxPost.toNat := by
  have hlt := maxPost.toNat_lt
  have hdist : head - tail + UInt32.ofNat nreq = UInt32.ofNat (posted - polled) := by
    have hsplit : UInt32.ofNat posted = UInt32.ofNat (posted - polled) + UInt32.ofNat polled := by
      rw [← UInt32.ofNat_add, Nat.sub_add_cancel hle]
    rw [htail]
    grind
  rw [mlx5WqOverflow, hdist, decide_eq_false_iff_not, ge_iff_le, UInt32.le_iff_toNat_le,
    UInt32.toNat_ofNat_of_lt' (by simp only [UInt32.size]; omega), Nat.not_le]

/-- The send side of `struct mlx5_qp`.  `wqeBlocks` is the room `mlx5_calc_sq_size` left
for each WQE. -/
structure SendQueue where
  qp : DriverQp
  maxPost : UInt32
  wqeBlocks : ℕ
  head : UInt32 := 0
  tail : UInt32 := 0
  wqeHead : ℕ → UInt32 := fun _ => 0
  /-- `db[MLX5_SND_DBR]`. -/
  sndDbr : UInt32 := 0

namespace SendQueue

/-- `mlx5_wq_overflow(0, nreq, qp)`. -/
def overflow (q : SendQueue) (nreq : ℕ) : Bool :=
  mlx5WqOverflow q.head q.tail q.maxPost nreq

/-- The loop of `__mlx5_post_send`: the queue, `nreq` and what `bad_wr` is left at.
`refused` stands for the checks of `post_send_one` that read other queues or the flags of
this one. -/
def postLoop (refused : ℕ → Bool) :
    ℕ → SendQueue → List WorkRequest → SendQueue × ℕ × List WorkRequest
  | nreq, q, [] => (q, nreq, [])
  | nreq, q, wr :: wrs =>
    if q.overflow nreq ∨ refused nreq = true then (q, nreq, wr :: wrs)
    else
      match q.qp.postOne wr with
      | none => (q, nreq, wr :: wrs)
      | some qp =>
        postLoop refused (nreq + 1)
          { q with
            qp
            wqeHead := Function.update q.wqeHead q.qp.idx (q.head + UInt32.ofNat nreq) } wrs

/-- `__mlx5_post_send`.  No error is an empty `bad_wr`. -/
def postSend (refused : ℕ → Bool) (q : SendQueue) (wrs : List WorkRequest) :
    SendQueue × List WorkRequest :=
  let (q, nreq, bad) := postLoop refused 0 q wrs
  if nreq = 0 then (q, bad)
  else ({ q with head := q.head + UInt32.ofNat nreq, sndDbr := q.qp.scurPost &&& 0xffff }, bad)

/-- The part of `mlx5_poll_one` for the CQE of a request: its `wr_id`, and `tail`. -/
def takeCompletion (q : SendQueue) (wqeCounter : UInt16) : UInt64 × SendQueue :=
  let idx := (wqeCounter.toUInt32 &&& (q.qp.wqeCnt - 1)).toNat
  (q.qp.wrid idx, { q with tail := q.wqeHead idx + 1 })

/-- The requests posted. -/
def posted (q : SendQueue) : ℕ := q.qp.log.length

/-- The driver has a layout for the request. -/
def takes (q : SendQueue) (wr : WorkRequest) : Bool := (q.qp.wqeSize wr).isSome

/-- The requests of a list that are posted, when `waiting` of the others have not been
polled: up to the first that finds the queue full or is refused. -/
def accept (cap : ℕ) (takes : WorkRequest → Bool) (refused : ℕ → Bool) :
    ℕ → ℕ → List WorkRequest → List WorkRequest
  | _, _, [] => []
  | waiting, nreq, wr :: wrs =>
    if waiting < cap ∧ refused nreq = false ∧ takes wr = true then
      wr :: accept cap takes refused (waiting + 1) (nreq + 1) wrs
    else []

/-- The WQE of the request takes no more room than was left for it. -/
def Fits (q : SendQueue) (wr : WorkRequest) : Prop :=
  ∀ size, q.qp.wqeSize wr = some size → divRoundUp (size * 16) SEND_WQE_BB ≤ q.wqeBlocks

instance (q : SendQueue) (wr : WorkRequest) : Decidable (q.Fits wr) :=
  decidable_of_iff (∀ size ∈ q.qp.wqeSize wr, divRoundUp (size * 16) SEND_WQE_BB ≤ q.wqeBlocks)
    Iff.rfl

/-- The sizes `mlx5_calc_sq_size` chose; `max_send_wqebb` keeps the ring below what the
16 bits of a doorbell can count. -/
structure Sized (q : SendQueue) : Prop where
  blocks : q.maxPost.toNat * q.wqeBlocks ≤ q.qp.wqeCnt.toNat
  counter : q.qp.wqeCnt.toNat < 2 ^ 16

/-- With `nreq` requests of the present call posted, the first `retired` of all have been
polled and the WQEs of the others are where `wrid` and `wqe_head` say. -/
structure Tracks (q : SendQueue) (retired nreq : ℕ) : Prop where
  sized : q.Sized
  wound : q.qp.Wound
  tiled : Ring.Tiled q.qp.wqeCnt.toNat q.qp.log
  fits : ∀ p ∈ q.qp.log, 0 < p.len ∧ p.len ≤ q.wqeBlocks
  head : q.head + UInt32.ofNat nreq = UInt32.ofNat q.posted
  tail : q.tail = UInt32.ofNat retired
  retired_le : retired ≤ q.posted
  room : q.posted - retired ≤ q.maxPost.toNat
  noted : ∀ k p, retired ≤ k → q.qp.log[k]? = some p →
    q.wqeHead p.pos = UInt32.ofNat k ∧ q.qp.wrid p.pos = p.data.wrId

section

variable {q q' : SendQueue} {retired nreq : ℕ}

/-- Requests take a bounded number of blocks. -/
theorem total_le {log : List (Ring.Placed WorkRequest)} {b : ℕ}
    (h : ∀ p ∈ log, 0 < p.len ∧ p.len ≤ b) (k : ℕ) :
    Ring.total log ≤ Ring.start log k + (log.length - k) * b := by
  induction log using List.reverseRecOn with
  | nil => simp
  | append_singleton log p ih =>
    have hlog := ih fun r hr => h r (List.mem_append_left _ hr)
    have hp := (h p (by simp)).2
    rcases Nat.lt_or_ge log.length k with hlt | hle
    · have hstart : Ring.start (log ++ [p]) k = Ring.total (log ++ [p]) := by
        rw [Ring.start, List.take_of_length_le (by simp; omega)]
      omega
    · rw [Ring.total_concat, Ring.start_concat hle, List.length_append, List.length_singleton,
        show log.length + 1 - k = log.length - k + 1 by omega, Nat.add_mul, Nat.one_mul]
      omega

/-- From a request that has not been polled on, no more than the ring has been written. -/
theorem Tracks.total_le_start (h : q.Tracks retired nreq) {k : ℕ} (hk : retired ≤ k) :
    Ring.total q.qp.log ≤ Ring.start q.qp.log k + q.qp.wqeCnt.toNat := by
  have hroom := h.room
  have hbound : (q.posted - k) * q.wqeBlocks ≤ q.maxPost.toNat * q.wqeBlocks :=
    Nat.mul_le_mul_right _ (by omega)
  have hsized := h.sized.blocks
  have htotal := total_le h.fits k
  rw [posted] at hbound
  omega

/-- A request that has not been polled is whole. -/
theorem Tracks.resident (h : q.Tracks retired nreq) {k : ℕ} {p : Ring.Placed WorkRequest}
    (hk : retired ≤ k) (hp : q.qp.log[k]? = some p) :
    Ring.Resident q.qp.wqeCnt.toNat q.qp.log k p :=
  Ring.resident_of_total_le h.tiled hp (h.total_le_start hk)

/-- The queue is full when `max_post` requests have not been polled. -/
theorem Tracks.overflow_iff (h : q.Tracks retired nreq) :
    q.overflow nreq = false ↔ q.posted - retired < q.maxPost.toNat :=
  mlx5WqOverflow_eq_false_iff h.head h.tail h.retired_le h.room

/-- One turn of the loop. -/
theorem Tracks.postOne {wr : WorkRequest} {qp : DriverQp} (h : q.Tracks retired nreq)
    (hroom : q.posted - retired < q.maxPost.toNat) (hfits : q.Fits wr)
    (hone : q.qp.postOne wr = some qp) :
    Tracks { q with
      qp
      wqeHead := Function.update q.wqeHead q.qp.idx (q.head + UInt32.ofNat nreq) } retired
      (nreq + 1) := by
  have hwound := h.wound.postOne hone
  obtain ⟨size, hsize, hcnt, -, -, hwrid, -, hlog⟩ := DriverQp.postOne_eq_some hone
  have hidx := h.wound.idx_eq_total_mod
  have hretired := h.retired_le
  have htiled : Ring.Tiled q.qp.wqeCnt.toNat qp.log := by
    rw [hlog]
    exact h.tiled.concat hidx
  have hlen : ∀ p ∈ qp.log, 0 < p.len ∧ p.len ≤ q.wqeBlocks := by
    intro p hp
    rw [hlog] at hp
    rcases List.mem_append.mp hp with hp | hp
    · exact h.fits p hp
    · rw [List.mem_singleton.mp hp]
      exact ⟨DriverQp.blocks_pos hsize, hfits size hsize⟩
  have hposted : qp.log.length = q.posted + 1 := by
    rw [hlog, List.length_append, List.length_singleton, posted]
  refine ⟨⟨?_, ?_⟩, hwound, ?_, hlen, ?_, h.tail, ?_, ?_, ?_⟩
  · rw [hcnt]
    exact h.sized.blocks
  · rw [hcnt]
    exact h.sized.counter
  · rwa [hcnt]
  · have := h.head
    rw [posted, hposted, UInt32.ofNat_add, UInt32.ofNat_add, ← h.head]
    grind
  · rw [posted, hposted]
    omega
  · rw [posted, hposted]
    change _ ≤ q.maxPost.toNat
    omega
  · intro k p hk hp
    have hplaced : qp.log[k]? = some p := hp
    rw [hlog] at hplaced
    rcases Nat.lt_or_ge k q.posted with hlt | hge
    · -- the new WQE does not start where one starts that has not been polled
      rw [List.getElem?_append_left hlt] at hplaced
      have hres : Ring.Resident q.qp.wqeCnt.toNat qp.log k p := by
        refine Ring.resident_of_total_le htiled hp ?_
        have htotal := total_le hlen k
        have hbound : (qp.log.length - k) * q.wqeBlocks ≤ q.maxPost.toNat * q.wqeBlocks :=
          Nat.mul_le_mul_right _ (by omega)
        have hsized := h.sized.blocks
        omega
      have hnew : (⟨q.qp.idx, divRoundUp (size * 16) SEND_WQE_BB, wr⟩ : Ring.Placed WorkRequest) ∈
          qp.log.drop (k + 1) := by
        rw [hlog, List.drop_append_of_le_length (by rw [posted] at hlt; omega)]
        simp
      have hne : p.pos ≠ q.qp.idx := by
        intro heq
        exact hres.2 _ hnew (Ring.overlap_of_pos_eq
          (h.fits p (List.mem_of_getElem? hplaced)).1 (DriverQp.blocks_pos hsize) heq)
      obtain ⟨hhead, hid⟩ := h.noted k p hk hplaced
      rw [hwrid]
      exact ⟨(Function.update_of_ne hne _ _).trans hhead,
        (Function.update_of_ne hne _ _).trans hid⟩
    · obtain ⟨hlt', -⟩ := List.getElem?_eq_some_iff.mp hplaced
      rw [List.length_append, List.length_singleton] at hlt'
      obtain rfl : k = q.qp.log.length := by
        rw [posted] at hge
        omega
      obtain rfl : _ = p := by simpa using hplaced
      rw [hwrid]
      exact ⟨(Function.update_self ..).trans h.head, Function.update_self ..⟩

/-- What posting `acc` does to a queue, `head` and the doorbell aside. -/
structure Posts (q q' : SendQueue) (acc : List WorkRequest) : Prop where
  maxPost : q'.maxPost = q.maxPost
  wqeBlocks : q'.wqeBlocks = q.wqeBlocks
  wqeCnt : q'.qp.wqeCnt = q.qp.wqeCnt
  takes : q'.takes = q.takes
  fits : q'.Fits = q.Fits
  log : ∃ new, q'.qp.log = q.qp.log ++ new ∧ new.map Ring.Placed.data = acc

theorem Posts.refl (q : SendQueue) : Posts q q [] :=
  ⟨rfl, rfl, rfl, rfl, rfl, [], by simp, rfl⟩

theorem wqeSize_congr {qp qp' : DriverQp} (hgs : qp'.maxGs = qp.maxGs)
    (hinl : qp'.maxInlineData = qp.maxInlineData) (wr : WorkRequest) :
    qp'.wqeSize wr = qp.wqeSize wr := by
  rw [DriverQp.wqeSize, DriverQp.wqeSize, hgs, DriverQp.dataUnits, DriverQp.dataUnits, hinl]

theorem Posts.postOne {wr : WorkRequest} {qp : DriverQp} (wqeHead : ℕ → UInt32)
    (hone : q.qp.postOne wr = some qp) : Posts q { q with qp, wqeHead } [wr] := by
  obtain ⟨size, -, hcnt, hgs, hinl, -, -, hlog⟩ := DriverQp.postOne_eq_some hone
  have hsize : qp.wqeSize = q.qp.wqeSize := funext (wqeSize_congr hgs hinl)
  refine ⟨rfl, rfl, hcnt, ?_, ?_, _, hlog, rfl⟩
  · funext w
    rw [SendQueue.takes, SendQueue.takes, hsize]
  · funext w
    rw [Fits, Fits, hsize]

theorem Posts.trans {q₁ q₂ : SendQueue} {acc acc' : List WorkRequest} (h : Posts q q₁ acc)
    (h' : Posts q₁ q₂ acc') : Posts q q₂ (acc ++ acc') := by
  obtain ⟨new, hlog, hdata⟩ := h.log
  obtain ⟨new', hlog', hdata'⟩ := h'.log
  refine ⟨h'.maxPost.trans h.maxPost, h'.wqeBlocks.trans h.wqeBlocks, h'.wqeCnt.trans h.wqeCnt,
    h'.takes.trans h.takes, h'.fits.trans h.fits, new ++ new', ?_, ?_⟩
  · rw [hlog', hlog, List.append_assoc]
  · rw [List.map_append, hdata, hdata']

theorem Posts.posted {acc : List WorkRequest} (h : Posts q q' acc) :
    q'.posted = q.posted + acc.length := by
  obtain ⟨new, hlog, hdata⟩ := h.log
  rw [SendQueue.posted, SendQueue.posted, hlog, List.length_append, ← hdata, List.length_map]

/-- The loop posts the requests that are accepted and leaves `bad_wr` at the next. -/
theorem Tracks.postLoop (refused : ℕ → Bool) {wrs : List WorkRequest}
    (h : q.Tracks retired nreq) (hfits : ∀ wr ∈ wrs, q.Fits wr) :
    let acc := accept q.maxPost.toNat q.takes refused (q.posted - retired) nreq wrs
    ∃ q', SendQueue.postLoop refused nreq q wrs = (q', nreq + acc.length, wrs.drop acc.length) ∧
      q'.Tracks retired (nreq + acc.length) ∧ Posts q q' acc ∧ q'.head = q.head ∧
      q'.sndDbr = q.sndDbr := by
  induction wrs generalizing q nreq with
  | nil => exact ⟨q, rfl, h, Posts.refl q, rfl, rfl⟩
  | cons wr wrs ih =>
    by_cases hok : q.posted - retired < q.maxPost.toNat ∧ refused nreq = false ∧ q.takes wr = true
    · obtain ⟨hroom, href, htakes⟩ := hok
      obtain ⟨size, hsize⟩ := Option.isSome_iff_exists.mp htakes
      obtain ⟨qp, hone⟩ : ∃ qp, q.qp.postOne wr = some qp := by simp [DriverQp.postOne, hsize]
      have hstep := h.postOne hroom (hfits wr List.mem_cons_self) hone
      have hposts := Posts.postOne
        (Function.update q.wqeHead q.qp.idx (q.head + UInt32.ofNat nreq)) hone
      obtain ⟨q', hloop, htracks, hrest, hhead, hdbr⟩ := ih hstep (by
        rw [hposts.fits]
        exact fun w hw => hfits w (List.mem_cons_of_mem wr hw))
      have hposted := hposts.posted
      have hle := h.retired_le
      have hacc : accept q.maxPost.toNat q.takes refused (q.posted - retired) nreq (wr :: wrs) =
          wr :: accept q.maxPost.toNat q.takes refused (q.posted - retired + 1) (nreq + 1) wrs := by
        rw [accept, if_pos ⟨hroom, href, htakes⟩]
      rw [hposts.maxPost, hposts.takes, hposted, List.length_singleton,
        show q.posted + 1 - retired = q.posted - retired + 1 by omega] at hloop htracks hrest
      refine ⟨q', ?_, ?_, ?_, hhead, hdbr⟩
      · rw [hacc, SendQueue.postLoop, if_neg (by simp [h.overflow_iff.mpr hroom, href]), hone,
          List.length_cons, List.drop_succ_cons]
        simp only
        rw [hloop]
        congr 2
        omega
      · rw [hacc, List.length_cons, show ∀ n, nreq + (n + 1) = nreq + 1 + n by omega]
        exact htracks
      · rw [hacc]
        exact hposts.trans hrest
    · have hacc : accept q.maxPost.toNat q.takes refused (q.posted - retired) nreq (wr :: wrs) =
          [] := by
        rw [accept, if_neg hok]
      refine ⟨q, ?_, ?_, ?_, rfl, rfl⟩
      · rw [hacc, SendQueue.postLoop]
        split
        · rfl
        · rename_i hno
          rw [not_or, Bool.not_eq_true, Bool.not_eq_true] at hno
          have hnone : q.qp.postOne wr = none := by
            have : ¬ q.takes wr = true := fun ht => hok ⟨h.overflow_iff.mp hno.1, hno.2, ht⟩
            rw [SendQueue.takes, Bool.not_eq_true, Option.isSome_eq_false_iff,
              Option.isNone_iff_eq_none] at this
            rw [DriverQp.postOne, this]
            rfl
          rw [hnone]
          rfl
      · rw [hacc]
        exact h
      · rw [hacc]
        exact Posts.refl q

/-- The device has been told of every request. -/
def Rung (q : SendQueue) : Prop := q.sndDbr = q.qp.scurPost &&& 0xffff

/-- The end of a call. -/
theorem Tracks.close (h : q.Tracks retired nreq) (sndDbr : UInt32) :
    Tracks { q with head := q.head + UInt32.ofNat nreq, sndDbr } retired 0 where
  sized := ⟨h.sized.blocks, h.sized.counter⟩
  wound := h.wound
  tiled := h.tiled
  fits := h.fits
  head := by
    change q.head + UInt32.ofNat nreq + 0 = _
    rw [UInt32.add_zero]
    exact h.head
  tail := h.tail
  retired_le := h.retired_le
  room := h.room
  noted := h.noted

/-- A call posts the requests that are accepted, and tells the device of them even when it
fails on the next. -/
theorem Tracks.postSend (refused : ℕ → Bool) {wrs : List WorkRequest} (h : q.Tracks retired 0)
    (hrung : q.Rung) (hfits : ∀ wr ∈ wrs, q.Fits wr) :
    let acc := accept q.maxPost.toNat q.takes refused (q.posted - retired) 0 wrs
    ∃ q', SendQueue.postSend refused q wrs = (q', wrs.drop acc.length) ∧
      q'.Tracks retired 0 ∧ q'.Rung ∧ Posts q q' acc := by
  obtain ⟨q₁, hloop, htracks, hposts, hhead, hdbr⟩ := h.postLoop refused hfits
  rw [SendQueue.postSend, hloop]
  rw [Nat.zero_add] at htracks ⊢
  dsimp only
  split
  · rename_i hzero
    rw [hzero] at htracks ⊢
    refine ⟨q₁, rfl, htracks, ?_, hposts⟩
    -- nothing was posted
    obtain ⟨new, hlog, hdata⟩ := hposts.log
    rw [List.eq_nil_of_length_eq_zero hzero, List.map_eq_nil_iff] at hdata
    have hpost : q₁.qp.scurPost = q.qp.scurPost := by
      rw [← UInt32.toNat_inj, htracks.wound, h.wound, hlog, hdata, List.append_nil]
    rw [Rung, hdbr, hpost]
    exact hrung
  · exact ⟨_, rfl, htracks.close _, rfl, hposts.maxPost, hposts.wqeBlocks, hposts.wqeCnt,
      hposts.takes, hposts.fits, hposts.log⟩

/-- A list that is posted to its end is posted as `postList` posts it. -/
theorem postLoop_qp {refused : ℕ → Bool} {n : ℕ} {wrs : List WorkRequest}
    (h : SendQueue.postLoop refused nreq q wrs = (q', n, [])) :
    q.qp.postList wrs = some q'.qp := by
  induction wrs generalizing q nreq with
  | nil =>
    obtain ⟨rfl, -⟩ := Prod.mk.inj h
    rfl
  | cons wr wrs ih =>
    rw [SendQueue.postLoop] at h
    split at h
    · simp at h
    · rw [DriverQp.postList]
      cases hone : q.qp.postOne wr with
      | none =>
        rw [hone] at h
        simp at h
      | some qp =>
        rw [hone] at h
        rw [Option.bind_some]
        exact ih h

theorem postSend_qp {refused : ℕ → Bool} {wrs : List WorkRequest}
    (h : q.postSend refused wrs = (q', [])) : q.qp.postList wrs = some q'.qp := by
  rw [SendQueue.postSend] at h
  rcases hloop : SendQueue.postLoop refused 0 q wrs with ⟨q₁, n, bad⟩
  rw [hloop] at h
  dsimp only at h
  split at h
  · obtain ⟨rfl, rfl⟩ := Prod.mk.inj h
    exact postLoop_qp hloop
  · obtain ⟨hq, rfl⟩ := Prod.mk.inj h
    have hqp : q'.qp = q₁.qp := by rw [← hq]
    rw [hqp]
    exact postLoop_qp hloop

/-- The counter in the control segment of the `k`-th WQE, which its CQE carries back. -/
def counter (q : SendQueue) (k : ℕ) : UInt16 := UInt16.ofNat (Ring.start q.qp.log k)

/-- A CQE finds the WQE it is for. -/
theorem Tracks.counter_idx (h : q.Tracks retired 0) {k : ℕ} {p : Ring.Placed WorkRequest}
    (hp : q.qp.log[k]? = some p) :
    ((q.counter k).toUInt32 &&& (q.qp.wqeCnt - 1)).toNat = p.pos := by
  obtain ⟨j, hj, hpow⟩ := q.qp.wqeCnt_pow
  have hcounter := h.sized.counter
  have hle : j ≤ 16 := by
    rw [hpow] at hcounter
    exact (Nat.pow_lt_pow_iff_right (by decide)).mp hcounter |>.le
  rw [toNat_and_sub_one q.qp.wqeCnt_pow, h.tiled k p hp, hpow, counter, UInt16.toNat_toUInt32,
    UInt16.toNat_ofNat', Nat.mod_mod_of_dvd _ (Nat.pow_dvd_pow 2 hle)]

/-- A position from which on no more than a ring of blocks has been written is not mistaken
for another. -/
theorem Tracks.rung_iff (h : q.Tracks retired 0) (hrung : q.Rung) {k : ℕ} (hk : retired ≤ k)
    (hle : k ≤ q.posted) : (q.counter k).toUInt32 = q.sndDbr ↔ k = q.posted := by
  have hdbr : q.sndDbr.toNat = Ring.total q.qp.log % 2 ^ 16 := by
    have hmask : (0xffff : UInt32).toNat = 2 ^ 16 - 1 := rfl
    rw [hrung, UInt32.toNat_and, hmask, Nat.and_two_pow_sub_one_eq_mod, h.wound,
      Nat.mod_mod_of_dvd _ (by decide)]
  have hcounter : (q.counter k).toUInt32.toNat = Ring.start q.qp.log k % 2 ^ 16 := by
    rw [counter, UInt16.toNat_toUInt32, UInt16.toNat_ofNat']
  rw [← UInt32.toNat_inj, hcounter, hdbr]
  constructor
  · intro heq
    by_contra hne
    have hnext : k < q.qp.log.length := by
      rw [posted] at hne hle
      omega
    have hgone := h.total_le_start hk
    have hcnt := h.sized.counter
    have hpos := (h.fits _ (List.getElem_mem hnext)).1
    have hstart := Ring.start_succ (List.getElem?_eq_getElem hnext)
    have hend := Ring.start_le_total q.qp.log (k + 1)
    omega
  · intro heq
    rw [heq, posted, Ring.start_length]

/-- The CQE of a request that has not been polled gives its `wr_id`, and takes `tail`
behind it. -/
theorem Tracks.takeCompletion (h : q.Tracks retired 0) {k : ℕ} {p : Ring.Placed WorkRequest}
    (hk : retired ≤ k) (hp : q.qp.log[k]? = some p) :
    (q.takeCompletion (q.counter k)).1 = p.data.wrId ∧
      (q.takeCompletion (q.counter k)).2.Tracks (k + 1) 0 := by
  obtain ⟨hhead, hid⟩ := h.noted k p hk hp
  obtain ⟨hlt, -⟩ := List.getElem?_eq_some_iff.mp hp
  have hroom := h.room
  rw [SendQueue.takeCompletion, h.counter_idx hp]
  refine ⟨hid, ?_⟩
  constructor
  · exact ⟨h.sized.blocks, h.sized.counter⟩
  · exact h.wound
  · exact h.tiled
  · exact h.fits
  · exact h.head
  · rw [UInt32.ofNat_add, ← hhead]
    rfl
  · exact hlt
  · change q.posted - (k + 1) ≤ q.maxPost.toNat
    omega
  · exact fun m r hm => h.noted m r (by omega)

end

/-! ### The queue at work -/

structure State where
  sq : SendQueue
  /-- How many requests the NIC has executed. -/
  executed : ℕ := 0
  /-- The WQE counters of the CQEs that wait to be polled, oldest first. -/
  cqes : List UInt16 := []
  /-- What `bad_wr` was left at last. -/
  bad : List WorkRequest := []
  /-- The ids that have been polled, oldest first. -/
  polled : List UInt64 := []
  /-- The requests the CQEs are for, and how many of all have been polled.  These are not
  state of the driver: they name what happened. -/
  labels : List ℕ := []
  retired : ℕ := 0

/-- What can happen next. -/
inductive Act
  /-- `ibv_post_send`. -/
  | post (refused : ℕ → Bool) (wrs : List WorkRequest)
  /-- The NIC executes the next WQE it has been told of. -/
  | execute (fails : Bool)
  /-- `ibv_poll_cq` takes one CQE. -/
  | poll

/-- How far the NIC is, as it counts. -/
def State.cursor (s : State) : UInt16 := s.sq.counter s.executed

/-- The NIC stops where the doorbell says. -/
def execute (s : State) (fails : Bool) : Option State :=
  if s.cursor.toUInt32 = s.sq.sndDbr then none
  else s.sq.qp.log[s.executed]?.map fun r =>
    if r.data.flags.signaled ∨ fails then
      { s with
        executed := s.executed + 1
        cqes := s.cqes ++ [s.cursor]
        labels := s.labels ++ [s.executed] }
    else { s with executed := s.executed + 1 }

def poll (s : State) : Option State :=
  match s.cqes with
  | [] => none
  | c :: cqes =>
    let (wrId, sq) := s.sq.takeCompletion c
    some { s with
      sq
      cqes
      polled := s.polled ++ [wrId]
      labels := s.labels.tail
      retired := s.labels.headD 0 + 1 }

def step (s : State) : Act → Option State
  | .post refused wrs =>
    let (sq, bad) := s.sq.postSend refused wrs
    some { s with sq, bad }
  | .execute fails => execute s fails
  | .poll => poll s

/-- What the queue is for: the requests posted, in order, and how far each side is. -/
structure Spec where
  cap : ℕ
  takes : WorkRequest → Bool
  reqs : List WorkRequest := []
  executed : ℕ := 0
  /-- The requests with a completion to be polled. -/
  pending : List ℕ := []
  bad : List WorkRequest := []
  polled : List UInt64 := []
  /-- The requests up to the last that was polled. -/
  retired : ℕ := 0

def Spec.step (f : Spec) : Act → Option Spec
  | .post refused wrs =>
    let acc := accept f.cap f.takes refused (f.reqs.length - f.retired) 0 wrs
    some { f with reqs := f.reqs ++ acc, bad := wrs.drop acc.length }
  | .execute fails =>
    f.reqs[f.executed]?.map fun wr =>
      if wr.flags.signaled ∨ fails then
        { f with executed := f.executed + 1, pending := f.pending ++ [f.executed] }
      else { f with executed := f.executed + 1 }
  | .poll =>
    match f.pending with
    | [] => none
    | k :: pending =>
      f.reqs[k]?.map fun wr =>
        { f with pending, polled := f.polled ++ [wr.wrId], retired := k + 1 }

def view (s : State) : Spec where
  cap := s.sq.maxPost.toNat
  takes := s.sq.takes
  reqs := s.sq.qp.log.map Ring.Placed.data
  executed := s.executed
  pending := s.labels
  bad := s.bad
  polled := s.polled
  retired := s.retired

structure Inv (s : State) : Prop where
  tracks : s.sq.Tracks s.retired 0
  rung : s.sq.Rung
  cqes : s.cqes = s.labels.map s.sq.counter
  sorted : s.labels.Pairwise (· < ·)
  pending : ∀ k ∈ s.labels, s.retired ≤ k ∧ k < s.executed
  retired_le : s.retired ≤ s.executed
  executed_le : s.executed ≤ s.sq.posted

/-- A queue pair on which nothing has been posted. -/
structure Initial (s : State) : Prop where
  sized : s.sq.Sized
  log : s.sq.qp.log = []
  scurPost : s.sq.qp.scurPost = 0
  head : s.sq.head = 0
  tail : s.sq.tail = 0
  sndDbr : s.sq.sndDbr = 0
  executed : s.executed = 0
  cqes : s.cqes = []
  labels : s.labels = []
  retired : s.retired = 0

/-- The requests that are posted fit the room the queue has for a WQE. -/
def Fitting (s : State) : Act → Prop
  | .post _ wrs => ∀ wr ∈ wrs, s.sq.Fits wr
  | _ => True

instance (s : State) : ∀ a, Decidable (Fitting s a)
  | .post _ wrs => inferInstanceAs (Decidable (∀ wr ∈ wrs, s.sq.Fits wr))
  | .execute _ => isTrue trivial
  | .poll => isTrue trivial

theorem Initial.inv {s : State} (h : Initial s) : Inv s where
  tracks := by
    rw [h.retired]
    refine ⟨h.sized, ?_, ?_, ?_, ?_, h.tail, Nat.zero_le _, ?_, ?_⟩
    · rw [DriverQp.Wound, h.scurPost, h.log]
      rfl
    · rw [h.log]
      exact Ring.tiled_nil
    · simp [h.log]
    · simp [h.head, posted, h.log]
    · simp [posted, h.log]
    · simp [h.log]
  rung := by
    rw [Rung, h.sndDbr, h.scurPost]
    rfl
  cqes := by simp [h.cqes, h.labels]
  sorted := by simp [h.labels]
  pending := by simp [h.labels]
  retired_le := by simp [h.retired]
  executed_le := by simp [h.executed]

section

variable {s s' : State}

/-- The NIC has come to the doorbell when it has executed every request. -/
theorem Inv.cursor_eq_iff (h : Inv s) :
    s.cursor.toUInt32 = s.sq.sndDbr ↔ s.executed = s.sq.posted :=
  h.tracks.rung_iff h.rung h.retired_le h.executed_le

theorem counter_append {q q' : SendQueue} {acc : List WorkRequest} (h : Posts q q' acc) {k : ℕ}
    (hk : k ≤ q.posted) : q'.counter k = q.counter k := by
  obtain ⟨new, hlog, -⟩ := h.log
  rw [counter, counter, hlog, Ring.start, Ring.start, List.take_append_of_le_length hk]

theorem Inv.post (refused : ℕ → Bool) {wrs : List WorkRequest} (h : Inv s)
    (hfits : ∀ wr ∈ wrs, s.sq.Fits wr) :
    let acc := accept s.sq.maxPost.toNat s.sq.takes refused (s.sq.posted - s.retired) 0 wrs
    ∃ s', step s (.post refused wrs) = some s' ∧ Inv s' ∧ Posts s.sq s'.sq acc ∧
      s' = { s with sq := s'.sq, bad := wrs.drop acc.length } := by
  obtain ⟨q', hpost, htracks, hrung, hposts⟩ := h.tracks.postSend refused h.rung hfits
  refine ⟨{ s with sq := q', bad := _ }, by rw [step, hpost],
    ⟨htracks, hrung, ?_, h.sorted, h.pending, h.retired_le, ?_⟩, hposts, rfl⟩
  · rw [h.cqes]
    refine List.map_congr_left fun k hk => (counter_append hposts ?_).symm
    have := h.executed_le
    have := (h.pending k hk).2
    omega
  · have hexec := h.executed_le
    change s.executed ≤ q'.posted
    rw [hposts.posted]
    omega

theorem Inv.execute {fails : Bool} (h : Inv s) (hs : execute s fails = some s') :
    Inv s' ∧ ∃ r, s.sq.qp.log[s.executed]? = some r ∧
      s' = if r.data.flags.signaled ∨ fails then
          { s with
            executed := s.executed + 1
            cqes := s.cqes ++ [s.cursor]
            labels := s.labels ++ [s.executed] }
        else { s with executed := s.executed + 1 } := by
  rw [SendQueue.execute] at hs
  split at hs
  · exact absurd hs (by simp)
  · obtain ⟨r, hr, rfl⟩ := Option.map_eq_some_iff.mp hs
    obtain ⟨hlt, -⟩ := List.getElem?_eq_some_iff.mp hr
    refine ⟨?_, r, hr, rfl⟩
    split
    · refine ⟨h.tracks, h.rung, ?_, ?_, ?_, Nat.le_succ_of_le h.retired_le, hlt⟩
      · rw [h.cqes, List.map_append]
        rfl
      · rw [List.pairwise_append]
        refine ⟨h.sorted, by simp, ?_⟩
        intro a ha b hb
        rw [List.mem_singleton.mp hb]
        exact (h.pending a ha).2
      · intro k hk
        rcases List.mem_append.mp hk with hk | hk
        · exact ⟨(h.pending k hk).1, Nat.lt_succ_of_lt (h.pending k hk).2⟩
        · rw [List.mem_singleton.mp hk]
          exact ⟨h.retired_le, Nat.lt_succ_self _⟩
    · refine ⟨h.tracks, h.rung, h.cqes, h.sorted, ?_, Nat.le_succ_of_le h.retired_le, hlt⟩
      exact fun k hk => ⟨(h.pending k hk).1, Nat.lt_succ_of_lt (h.pending k hk).2⟩

theorem Inv.poll (h : Inv s) (hs : poll s = some s') :
    Inv s' ∧ ∃ k r, s.labels = k :: s'.labels ∧ s.sq.qp.log[k]? = some r ∧
      s'.sq.qp = s.sq.qp ∧ s'.sq.maxPost = s.sq.maxPost ∧ s'.executed = s.executed ∧
      s'.retired = k + 1 ∧ s'.polled = s.polled ++ [r.data.wrId] ∧ s'.bad = s.bad := by
  obtain ⟨sq, executed, cqes, bad, polled, labels, retired⟩ := s
  obtain rfl : cqes = labels.map sq.counter := h.cqes
  cases labels with
  | nil => exact absurd hs (by simp [SendQueue.poll])
  | cons k labels =>
    obtain ⟨hk, hexec⟩ := h.pending k List.mem_cons_self
    have hr := List.getElem?_eq_getElem (lt_of_lt_of_le hexec h.executed_le)
    obtain ⟨hid, htracks⟩ := h.tracks.takeCompletion hk hr
    obtain ⟨hfirst, hsorted⟩ := List.pairwise_cons.mp h.sorted
    obtain rfl := Option.some_inj.mp hs
    refine ⟨⟨htracks, h.rung, rfl, hsorted, ?_, hexec, h.executed_le⟩, k, _, rfl, hr, rfl, rfl,
      rfl, rfl, ?_, rfl⟩
    · intro m hm
      exact ⟨hfirst m hm, (h.pending m (List.mem_cons_of_mem k hm)).2⟩
    · change polled ++ [(sq.takeCompletion (sq.counter k)).1] = _
      rw [hid]

theorem Inv.step {a : Act} (h : Inv s) (hc : Fitting s a) (hs : step s a = some s') : Inv s' := by
  cases a with
  | post refused wrs =>
    obtain ⟨s₁, hs₁, h₁, -⟩ := h.post refused hc
    obtain rfl := Option.some_inj.mp (hs₁.symm.trans hs)
    exact h₁
  | execute fails => exact (h.execute hs).1
  | poll => exact (h.poll hs).1

/-- One step of the driver and the NIC is one step of the list of requests. -/
theorem Inv.view_step {a : Act} (h : Inv s) (hc : Fitting s a) :
    (SendQueue.step s a).map view = (view s).step a := by
  cases a with
  | post refused wrs =>
    obtain ⟨s₁, hs₁, -, hposts, hframe⟩ := h.post refused hc
    obtain ⟨new, hlog, hdata⟩ := hposts.log
    have hview : view s₁ = { view s with
        reqs := (view s).reqs ++ accept s.sq.maxPost.toNat s.sq.takes refused
          (s.sq.posted - s.retired) 0 wrs
        bad := wrs.drop (accept s.sq.maxPost.toNat s.sq.takes refused
          (s.sq.posted - s.retired) 0 wrs).length } := by
      rw [hframe, view, view, hposts.maxPost, hposts.takes, hlog, List.map_append, hdata]
    rw [hs₁, Option.map_some, hview, Spec.step, view, List.length_map]
    rfl
  | execute fails =>
    rw [SendQueue.step, Spec.step]
    have hreq : (view s).reqs[s.executed]? = s.sq.qp.log[s.executed]?.map Ring.Placed.data :=
      List.getElem?_map ..
    rw [show (view s).executed = s.executed from rfl, hreq]
    cases hs : SendQueue.execute s fails with
    | none =>
      have hdone : s.sq.qp.log[s.executed]? = none := by
        rw [SendQueue.execute] at hs
        split at hs
        · rename_i hcursor
          rw [h.cursor_eq_iff.mp hcursor, posted, List.getElem?_eq_none_iff]
        · exact Option.map_eq_none_iff.mp hs
      rw [hdone]
      rfl
    | some s₁ =>
      obtain ⟨-, r, hr, rfl⟩ := h.execute hs
      rw [hr, Option.map_some, Option.map_some, Option.map_some]
      split <;> rfl
  | poll =>
    rw [SendQueue.step, Spec.step]
    cases hs : SendQueue.poll s with
    | none =>
      have hnil : s.labels = [] := by
        rw [SendQueue.poll] at hs
        split at hs
        · rename_i hcqes
          rwa [h.cqes, List.map_eq_nil_iff] at hcqes
        · exact absurd hs (by simp)
      rw [show (view s).pending = [] from hnil]
      rfl
    | some s₁ =>
      obtain ⟨-, k, r, hlabels, hr, hqp, hpost, hexec, hret, hpolled, hbad⟩ := h.poll hs
      have hreq : (view s).reqs[k]? = some r.data := by
        rw [view, List.getElem?_map, hr]
        rfl
      have htakes : s₁.sq.takes = s.sq.takes := by
        funext wr
        rw [SendQueue.takes, SendQueue.takes, hqp]
      rw [show (view s).pending = k :: s₁.labels from hlabels, Option.map_some]
      simp only
      rw [hreq, Option.map_some, view, hpost, htakes, hqp, hexec, hret, hpolled, hbad]
      rfl

end

/-- **A send queue is a list of requests** with three positions in it, over every run in
which the requests posted fit: a call posts up to the first request that is refused or
finds `max_post` of them unpolled, the NIC executes them in order, and each completion is
polled under the `wr_id` of its own request. -/
theorem run_requests {s : State} (h : Initial s) {as : List Act}
    (hm : Machine.Meets step Fitting s as) :
    (Machine.run step s as).map view = Machine.run Spec.step (view s) as :=
  Machine.run_map_of_meets (fun _ _ _ h hc hs => Inv.step h hc hs)
    (fun _ _ h hc => Inv.view_step h hc) h.inv hm

/-- A ring of eight blocks, for two requests. -/
def queue8 : State where
  sq :=
    { qp :=
        { wqeCnt := 8, maxGs := 1, maxInlineData := 0
          wqeCnt_pow := ⟨3, by decide, rfl⟩
          maxGs_fits := by decide }
      maxPost := 2
      wqeBlocks := 1 }

theorem queue8_initial : Initial queue8 where
  sized := ⟨by decide, by decide⟩
  log := rfl
  scurPost := rfl
  head := rfl
  tail := rfl
  sndDbr := rfl
  executed := rfl
  cqes := rfl
  labels := rfl
  retired := rfl

/-- Three signaled writes at once, an execution and a poll. -/
def threeWrites : List Act :=
  [.post (fun _ => false) ([7, 8, 9].map fun wrId =>
    { wrId, opcode := .rdmaWrite, flags := { signaled := true } }), .execute false, .poll]

theorem threeWrites_fit : Machine.Meets step Fitting queue8 threeWrites := by decide

/-- The third is refused, and the first is polled. -/
theorem run_requests_refuses : ∃ f, (Machine.run step queue8 threeWrites).map view = some f ∧
    f.bad.map WorkRequest.wrId = [9] ∧ f.polled = [7] ∧ f.retired = 1 := by
  rw [run_requests queue8_initial threeWrites_fit]
  exact ⟨_, rfl, rfl, rfl, rfl⟩

/-- In such a run no WQE is written over before a completion at or behind its own has been
polled. -/
theorem unpolled_whole {s₀ s : State} (h : Initial s₀) {as : List Act}
    (hm : Machine.Meets step Fitting s₀ as) (hr : Machine.run step s₀ as = some s) {k : ℕ}
    (hk : s.retired ≤ k) (hlt : k < s.sq.posted) :
    ∃ p, Ring.Resident s.sq.qp.wqeCnt.toNat s.sq.qp.log k p := by
  have hinv := Machine.run_inv_of_meets (fun _ _ _ h hc hs => Inv.step h hc hs) h.inv hm hr
  exact ⟨_, hinv.tracks.resident hk (List.getElem?_eq_getElem hlt)⟩

theorem unpolled_whole_after : ∃ s p, Machine.run step queue8 threeWrites = some s ∧
    Ring.Resident s.sq.qp.wqeCnt.toNat s.sq.qp.log 1 p := by
  have hr : Machine.run step queue8 threeWrites = some _ := rfl
  obtain ⟨p, hp⟩ := unpolled_whole queue8_initial threeWrites_fit hr (k := 1) (by decide)
    (by decide)
  exact ⟨_, p, hr, hp⟩

end SendQueue

end Rdma
