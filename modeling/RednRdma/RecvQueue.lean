/-
The receive queue of the driver (vendored `libmlx5`, `qp.c`, `verbs.c`, `cq.c`).

Receives are written one to a slot and completed in order, so `mlx5_poll_one` needs no
counter to find the one that a CQE is for: it is the one at `tail`.

* `mlx5CalcRqSize` — the slots and what they hold;
* `RecvQueue.postRecv` — `mlx5_post_recv`, with its error path;
* `RecvQueue.takeReceive` — what `mlx5_poll_one` does with the CQE of a receive;
* `RecvQueue.Tracks` — the slots between `tail` and `head` hold the receives between them;
* `RecvQueue.Rung` — the doorbell is up to date.
-/
import RednRdma.QueueSizes
import RednRdma.Execution

namespace Rdma

open Builder (toInt toInt_of_lt)

/-- What `mlx5_calc_rq_size` finds. -/
structure RqSizes where
  wqeSize : ℕ
  wqeCnt : ℕ
  maxGs : ℕ
  deriving Repr, DecidableEq

/-- `mlx5_calc_rcv_wqe`.  The size is an `int`. -/
def mlx5CalcRcvWqe (lim : DeviceLimits) (cap : QpCap) : Option ℕ :=
  let size := toInt (16 * max cap.maxRecvSge.toNat 1 : ℕ)
  if size < 0 ∨ size > lim.maxRqDescSz then none else mlx5RoundUpPowerOfTwo size

/-- `mlx5_calc_rq_size`.  `max_post` is set to `wqe_cnt` when the queue pair is done. -/
def mlx5CalcRqSize (lim : DeviceLimits) (cap : QpCap) : Option RqSizes :=
  if cap.maxRecvWr = 0 then some ⟨0, 0, 0⟩
  else if cap.maxRecvWr.toNat > lim.maxRecvWr then none
  else
    match mlx5CalcRcvWqe lim cap, mlx5RoundUpPowerOfTwo cap.maxRecvWr.toNat with
    | some wqeSize, some n =>
      if wqeSize > lim.maxRqDescSz then none
      else some {
        wqeSize
        wqeCnt := max (n * wqeSize) SEND_WQE_BB / wqeSize
        maxGs := wqeSize / 16 }
    | _, _ => none

/-- The receive side of `struct mlx5_qp`.  The log keeps every receive that has been
written. -/
structure RecvQueue where
  wqeCnt : UInt32
  maxPost : UInt32
  maxGs : ℕ
  wrid : ℕ → UInt64 := fun _ => 0
  head : UInt32 := 0
  tail : UInt32 := 0
  /-- `db[MLX5_RCV_DBR]`. -/
  rcvDbr : UInt32 := 0
  log : List RecvRequest := []

namespace RecvQueue

/-- `mlx5_wq_overflow(1, nreq, qp)`. -/
def overflow (q : RecvQueue) (nreq : ℕ) : Bool :=
  mlx5WqOverflow q.head q.tail q.maxPost nreq

/-- The loop of `mlx5_post_recv`: the queue, `nreq` and what `bad_wr` is left at. -/
def recvLoop : ℕ → UInt32 → RecvQueue → List RecvRequest → RecvQueue × ℕ × List RecvRequest
  | nreq, _, q, [] => (q, nreq, [])
  | nreq, ind, q, wr :: wrs =>
    if q.overflow nreq ∨ wr.sgList.length > q.maxGs then (q, nreq, wr :: wrs)
    else
      recvLoop (nreq + 1) ((ind + 1) &&& (q.wqeCnt - 1))
        { q with wrid := Function.update q.wrid ind.toNat wr.wrId, log := q.log ++ [wr] } wrs

/-- `mlx5_post_recv`.  No error is an empty `bad_wr`. -/
def postRecv (q : RecvQueue) (wrs : List RecvRequest) : RecvQueue × List RecvRequest :=
  let (q', nreq, bad) := recvLoop 0 (q.head &&& (q.wqeCnt - 1)) q wrs
  if nreq = 0 then (q', bad)
  else
    let head := q'.head + UInt32.ofNat nreq
    ({ q' with head, rcvDbr := head &&& 0xffff }, bad)

/-- The part of `mlx5_poll_one` for the CQE of a receive. -/
def takeReceive (q : RecvQueue) : UInt64 × RecvQueue :=
  (q.wrid (q.tail &&& (q.wqeCnt - 1)).toNat, { q with tail := q.tail + 1 })

/-- The receives of a list that are posted, when `waiting` of the others have not been
polled: up to the first that finds the queue full or has too many elements. -/
def accept (cap maxGs : ℕ) : ℕ → List RecvRequest → List RecvRequest
  | _, [] => []
  | waiting, wr :: wrs =>
    if waiting < cap ∧ wr.sgList.length ≤ maxGs then wr :: accept cap maxGs (waiting + 1) wrs
    else []

/-- With `nreq` receives of the present call written, the first `taken` of all have been
polled and the others are in their slots. -/
structure Tracks (q : RecvQueue) (taken nreq : ℕ) : Prop where
  pow : ∃ k < 32, q.wqeCnt.toNat = 2 ^ k
  sized : q.maxPost.toNat ≤ q.wqeCnt.toNat
  head : q.head + UInt32.ofNat nreq = UInt32.ofNat q.log.length
  tail : q.tail = UInt32.ofNat taken
  taken_le : taken ≤ q.log.length
  room : q.log.length - taken ≤ q.maxPost.toNat
  noted : ∀ k r, taken ≤ k → q.log[k]? = some r → q.wrid (k % q.wqeCnt.toNat) = r.wrId

/-- A receive queue on which nothing has been posted. -/
structure Blank (q : RecvQueue) : Prop where
  pow : ∃ k < 16, q.wqeCnt.toNat = 2 ^ k
  maxPost : q.maxPost = q.wqeCnt
  head : q.head = 0
  tail : q.tail = 0
  rcvDbr : q.rcvDbr = 0
  log : q.log = []

/-- A receive queue that has just been created. -/
structure Created (q : RecvQueue) (lim : DeviceLimits) (cap : QpCap) (sz : RqSizes) : Prop where
  sizes : mlx5CalcRqSize lim cap = some sz
  wqeCnt : q.wqeCnt = UInt32.ofNat sz.wqeCnt
  maxPost : q.maxPost = q.wqeCnt
  maxGs : q.maxGs = sz.maxGs
  head : q.head = 0
  tail : q.tail = 0
  rcvDbr : q.rcvDbr = 0
  log : q.log = []

section

variable {q q' : RecvQueue} {taken nreq : ℕ}

theorem Tracks.idx (h : q.Tracks taken nreq) (n : ℕ) :
    (UInt32.ofNat n &&& (q.wqeCnt - 1)).toNat = n % q.wqeCnt.toNat := by
  obtain ⟨k, hk, hpow⟩ := h.pow
  rw [toNat_and_sub_one h.pow, UInt32.toNat_ofNat', hpow,
    Nat.mod_mod_of_dvd _ (Nat.pow_dvd_pow 2 hk.le)]

/-- The queue is full when `max_post` receives have not been polled. -/
theorem Tracks.overflow_iff (h : q.Tracks taken nreq) :
    q.overflow nreq = false ↔ q.log.length - taken < q.maxPost.toNat :=
  mlx5WqOverflow_eq_false_iff h.head h.tail h.taken_le h.room

/-- One turn of the loop. -/
theorem Tracks.write (wr : RecvRequest) (h : q.Tracks taken nreq)
    (hroom : q.log.length - taken < q.maxPost.toNat) :
    Tracks { q with
      wrid := Function.update q.wrid (q.log.length % q.wqeCnt.toNat) wr.wrId
      log := q.log ++ [wr] } taken (nreq + 1) := by
  have hle := h.taken_le
  have hsized := h.sized
  refine ⟨h.pow, h.sized, ?_, h.tail, ?_, ?_, ?_⟩
  · rw [List.length_append, List.length_singleton, UInt32.ofNat_add, UInt32.ofNat_add, ← h.head]
    grind
  · rw [List.length_append, List.length_singleton]
    omega
  · rw [List.length_append, List.length_singleton]
    change _ ≤ q.maxPost.toNat
    omega
  · intro k r hk hr
    have hr : (q.log ++ [wr])[k]? = some r := hr
    change Function.update q.wrid (q.log.length % q.wqeCnt.toNat) wr.wrId (k % q.wqeCnt.toNat) = _
    rcases Nat.lt_or_ge k q.log.length with hlt | hge
    · rw [List.getElem?_append_left hlt] at hr
      have hne : k % q.wqeCnt.toNat ≠ q.log.length % q.wqeCnt.toNat := by
        intro heq
        have : k + q.wqeCnt.toNat ≤ q.log.length := Nat.ModEq.add_le_of_lt heq hlt
        omega
      rw [Function.update_of_ne hne]
      exact h.noted k r hk hr
    · obtain ⟨hlt', -⟩ := List.getElem?_eq_some_iff.mp hr
      rw [List.length_append, List.length_singleton] at hlt'
      obtain rfl : k = q.log.length := by omega
      obtain rfl : wr = r := by simpa using hr
      exact Function.update_self ..

/-- The loop writes the receives that are accepted and leaves `bad_wr` at the next. -/
theorem Tracks.recvLoop (wrs : List RecvRequest) (h : q.Tracks taken nreq) {ind : UInt32}
    (hind : ind.toNat = q.log.length % q.wqeCnt.toNat) :
    let acc := accept q.maxPost.toNat q.maxGs (q.log.length - taken) wrs
    ∃ q', RecvQueue.recvLoop nreq ind q wrs = (q', nreq + acc.length, wrs.drop acc.length) ∧
      q'.Tracks taken (nreq + acc.length) ∧ q'.log = q.log ++ acc ∧ q'.maxPost = q.maxPost ∧
      q'.maxGs = q.maxGs ∧ q'.wqeCnt = q.wqeCnt ∧ (acc = [] → q' = q) := by
  induction wrs generalizing q nreq ind with
  | nil => exact ⟨q, rfl, h, by simp [accept], rfl, rfl, rfl, fun _ => rfl⟩
  | cons wr wrs ih =>
    by_cases hok : q.log.length - taken < q.maxPost.toNat ∧ wr.sgList.length ≤ q.maxGs
    · have hle := h.taken_le
      have hacc : accept q.maxPost.toNat q.maxGs (q.log.length - taken) (wr :: wrs) =
          wr :: accept q.maxPost.toNat q.maxGs (q.log.length - taken + 1) wrs := by
        rw [accept, if_pos hok]
      have hstep := h.write wr hok.1
      have hnext : ((ind + 1) &&& (q.wqeCnt - 1)).toNat =
          (q.log ++ [wr]).length % q.wqeCnt.toNat := by
        obtain ⟨k, hk, hpow⟩ := h.pow
        have hdvd : q.wqeCnt.toNat ∣ 2 ^ 32 := hpow ▸ Nat.pow_dvd_pow 2 hk.le
        rw [toNat_and_sub_one h.pow, UInt32.toNat_add, hind, Nat.mod_mod_of_dvd _ hdvd,
          UInt32.toNat_one, Nat.mod_add_mod, List.length_append, List.length_singleton]
      obtain ⟨q', hloop, htracks, hlog, hpost, hgs, hcnt, -⟩ := ih hstep hnext
      rw [List.length_append, List.length_singleton,
        show q.log.length + 1 - taken = q.log.length - taken + 1 by omega] at hloop htracks hlog
      dsimp only at hloop htracks hlog
      refine ⟨q', ?_, ?_, ?_, hpost, hgs, hcnt, ?_⟩
      · rw [hacc, RecvQueue.recvLoop, if_neg (by simp [h.overflow_iff.mpr hok.1, hok.2]), hind,
          List.length_cons, List.drop_succ_cons, hloop]
        congr 2
        omega
      · rw [hacc, List.length_cons, show ∀ n, nreq + (n + 1) = nreq + 1 + n by omega]
        exact htracks
      · rw [hacc, hlog, List.append_assoc]
        rfl
      · rw [hacc]
        simp
    · have hacc : accept q.maxPost.toNat q.maxGs (q.log.length - taken) (wr :: wrs) = [] := by
        rw [accept, if_neg hok]
      have hstop : q.overflow nreq = true ∨ wr.sgList.length > q.maxGs := by
        by_contra hno
        rw [not_or, Bool.not_eq_true, h.overflow_iff, Nat.not_lt] at hno
        exact hok hno
      refine ⟨q, ?_, ?_, ?_, rfl, rfl, rfl, fun _ => rfl⟩
      · rw [hacc, RecvQueue.recvLoop, if_pos hstop]
        rfl
      · rw [hacc]
        exact h
      · rw [hacc, List.append_nil]

theorem Blank.tracks (h : q.Blank) : q.Tracks 0 0 where
  pow := by
    obtain ⟨k, hk, hpow⟩ := h.pow
    exact ⟨k, by omega, hpow⟩
  sized := by rw [h.maxPost]
  head := by simp [h.head, h.log]
  tail := h.tail
  taken_le := Nat.zero_le _
  room := by simp [h.log]
  noted := by simp [h.log]

/-- The doorbell has been told of all receives. -/
def Rung (q : RecvQueue) : Prop := q.rcvDbr = q.head &&& 0xffff

/-- A call writes the receives that are accepted, and rings. -/
theorem Tracks.postRecv (wrs : List RecvRequest) (h : q.Tracks taken 0) (hrung : q.Rung) :
    let acc := accept q.maxPost.toNat q.maxGs (q.log.length - taken) wrs
    ∃ q', RecvQueue.postRecv q wrs = (q', wrs.drop acc.length) ∧ q'.Tracks taken 0 ∧ q'.Rung ∧
      q'.log = q.log ++ acc ∧ q'.maxPost = q.maxPost ∧ q'.maxGs = q.maxGs ∧
      q'.wqeCnt = q.wqeCnt ∧ (acc = [] → q' = q) := by
  have hind : (q.head &&& (q.wqeCnt - 1)).toNat = q.log.length % q.wqeCnt.toNat := by
    have hhead : q.head = UInt32.ofNat q.log.length := by
      rw [← h.head]
      exact (UInt32.add_zero _).symm
    rw [hhead, h.idx]
  obtain ⟨q₁, hloop, htracks, hlog, hpost, hgs, hcnt, hnil⟩ := h.recvLoop wrs hind
  rw [RecvQueue.postRecv, hloop]
  rw [Nat.zero_add] at htracks ⊢
  dsimp only
  split
  · rename_i hzero
    rw [hzero] at htracks
    obtain rfl := hnil (List.length_eq_zero_iff.mp hzero)
    exact ⟨_, rfl, htracks, hrung, hlog, hpost, hgs, hcnt, fun _ => rfl⟩
  · rename_i hsome
    refine ⟨_, rfl, ⟨htracks.pow, htracks.sized, ?_, htracks.tail, htracks.taken_le, htracks.room,
      htracks.noted⟩, rfl, hlog, hpost, hgs, hcnt,
      fun hnil' => absurd (List.length_eq_zero_iff.mpr hnil') hsome⟩
    change q₁.head + UInt32.ofNat _ + 0 = _
    rw [UInt32.add_zero]
    exact htracks.head

/-- The NIC has come to the doorbell when every receive has completed. -/
theorem Tracks.rung_iff {received : ℕ} (h : q.Tracks taken 0) (hrung : q.Rung)
    (hcnt : q.wqeCnt.toNat < 2 ^ 16) (htaken : taken ≤ received) (hle : received ≤ q.log.length) :
    UInt32.ofNat received &&& 0xffff = q.rcvDbr ↔ received = q.log.length := by
  have hhead : q.head = UInt32.ofNat q.log.length := by
    rw [← h.head]
    exact (UInt32.add_zero _).symm
  have hroom := h.room
  have hsized := h.sized
  have hmask : ∀ n : ℕ, (UInt32.ofNat n &&& 0xffff).toNat = n % 2 ^ 16 := by
    intro n
    have hbits : (0xffff : UInt32).toNat = 2 ^ 16 - 1 := rfl
    rw [UInt32.toNat_and, hbits, Nat.and_two_pow_sub_one_eq_mod, UInt32.toNat_ofNat',
      Nat.mod_mod_of_dvd _ (by decide)]
  rw [hrung, hhead, ← UInt32.toNat_inj, hmask, hmask]
  constructor
  · intro heq
    omega
  · intro heq
    rw [heq]

/-- The CQE of the oldest receive gives its `wr_id`. -/
theorem Tracks.takeReceive (h : q.Tracks taken 0) {r : RecvRequest}
    (hr : q.log[taken]? = some r) :
    q.takeReceive.1 = r.wrId ∧ q.takeReceive.2.Tracks (taken + 1) 0 := by
  obtain ⟨hlt, -⟩ := List.getElem?_eq_some_iff.mp hr
  have hroom := h.room
  refine ⟨?_, h.pow, h.sized, h.head, ?_, hlt, ?_, fun k r hk => h.noted k r (by omega)⟩
  · rw [RecvQueue.takeReceive, h.tail, h.idx]
    exact h.noted taken r (le_refl _) hr
  · rw [UInt32.ofNat_add, ← h.tail]
    rfl
  · change q.log.length - (taken + 1) ≤ q.maxPost.toNat
    omega

end

/-! ### A new queue -/

/-- A ring takes a block, if its slots take less. -/
theorem max_mul_div (a b : ℕ) :
    max (2 ^ a * 2 ^ b) SEND_WQE_BB / 2 ^ b = 2 ^ max a (6 - b) := by
  have hbb : SEND_WQE_BB = 2 ^ 6 := rfl
  rcases Nat.lt_or_ge (a + b) 6 with hlt | hge
  · have hsmall : 2 ^ a * 2 ^ b ≤ SEND_WQE_BB := by
      rw [hbb, ← pow_add]
      exact Nat.pow_le_pow_right (by decide) hlt.le
    have hsplit : SEND_WQE_BB = 2 ^ (6 - b) * 2 ^ b := by
      rw [hbb, ← pow_add, Nat.sub_add_cancel (by omega)]
    rw [max_eq_right hsmall, max_eq_right (by omega), hsplit,
      Nat.mul_div_cancel _ (Nat.two_pow_pos b)]
  · have hlarge : SEND_WQE_BB ≤ 2 ^ a * 2 ^ b := by
      rw [hbb, ← pow_add]
      exact Nat.pow_le_pow_right (by decide) hge
    rw [max_eq_left hlarge, max_eq_left (by omega), Nat.mul_div_cancel _ (Nat.two_pow_pos b)]

section

variable {lim : DeviceLimits} {cap : QpCap} {sz : RqSizes} {q : RecvQueue}

/-- The slot of a receive has room for the elements asked for, unless their size wraps. -/
theorem mlx5CalcRcvWqe_eq_some {wqeSize : ℕ} (h : mlx5CalcRcvWqe lim cap = some wqeSize) :
    (∃ b, wqeSize = 2 ^ b) ∧
      (cap.maxRecvSge.toNat < 2 ^ 28 → 16 * cap.maxRecvSge.toNat ≤ wqeSize) := by
  rw [mlx5CalcRcvWqe] at h
  split at h
  · exact absurd h (by simp)
  · rename_i hdesc
    refine ⟨mlx5RoundUpPowerOfTwo_pow h, fun hsmall => ?_⟩
    have hlt := lim.rqDesc_lt
    have hsize := le_of_roundUp h (by omega)
    -- below 2 ^ 28 elements the size only wraps into the negative numbers, which are refused
    rw [toInt, Int.bmod_def] at hdesc hsize
    omega

/-- What the driver works out for a queue of some receives. -/
theorem mlx5CalcRqSize_eq_some (h : mlx5CalcRqSize lim cap = some sz) (hwr : cap.maxRecvWr ≠ 0) :
    (∃ k < 16, sz.wqeCnt = 2 ^ k ∧ cap.maxRecvWr.toNat ≤ 2 ^ k) ∧
      (cap.maxRecvSge.toNat ≤ sz.maxGs ↔ cap.maxRecvSge.toNat < 2 ^ 28) := by
  rw [mlx5CalcRqSize, if_neg hwr] at h
  split at h
  · exact absurd h (by simp)
  · rename_i hmany
    split at h
    · rename_i wqeSize n hwqe hn
      split at h
      · exact absurd h (by simp)
      · rename_i hdesc
        obtain rfl := Option.some_inj.mp h
        obtain ⟨⟨b, rfl⟩, hroom⟩ := mlx5CalcRcvWqe_eq_some hwqe
        obtain ⟨a, rfl⟩ := mlx5RoundUpPowerOfTwo_pow hn
        have hlim := lim.recvWr_le
        have hlt := lim.rqDesc_lt
        have ha : a ≤ 15 := by
          refine (Nat.pow_le_pow_iff_right (by decide : 1 < 2)).mp (roundUp_le hn ?_)
          exact_mod_cast (Nat.not_lt.mp hmany).trans hlim
        have hle := le_of_roundUp hn (by omega)
        refine ⟨⟨max a (6 - b), by omega, max_mul_div a b, ?_⟩, ?_⟩
        · refine le_trans ?_ (Nat.pow_le_pow_right (by decide) (le_max_left a _))
          exact_mod_cast hle
        · change _ ≤ 2 ^ b / 16 ↔ _
          omega
    · exact absurd h (by simp)

/-- The caller gets the receives that were asked for, and the elements of each unless their
size wraps. -/
theorem Created.blank (h : q.Created lim cap sz) (hwr : cap.maxRecvWr ≠ 0) :
    q.Blank ∧ cap.maxRecvWr.toNat ≤ q.maxPost.toNat ∧
      (cap.maxRecvSge.toNat ≤ q.maxGs ↔ cap.maxRecvSge.toNat < 2 ^ 28) := by
  obtain ⟨⟨k, hk, hcnt, hle⟩, hsge⟩ := mlx5CalcRqSize_eq_some h.sizes hwr
  have hpow : q.wqeCnt.toNat = 2 ^ k := by
    have hlt : 2 ^ k < 2 ^ 16 := Nat.pow_lt_pow_right (by decide) hk
    rw [h.wqeCnt, hcnt]
    exact UInt32.toNat_ofNat_of_lt' (by simp only [UInt32.size]; omega)
  refine ⟨⟨⟨k, hk, hpow⟩, h.maxPost, h.head, h.tail, h.rcvDbr, h.log⟩, ?_, ?_⟩
  · rw [h.maxPost, hpow]
    exact hle
  · rw [h.maxGs]
    exact hsge

end

end RecvQueue

end Rdma
