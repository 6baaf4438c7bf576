/-
Batches released one after the other (`verbs.c`, vendored `libmlx5`).

`IBV_SET_TRIGGER` posts a chain for a managed queue: an ENABLE of `nwait` of its requests,
and then `nops - 1` times a WAIT for `nwait` of its CQEs and the next ENABLE.  The NIC runs
the chain while it runs the queue, and starts requests before those in front of them have
completed.  A request brings a CQE only if it asks for one: where one of a batch does not, the
WAIT behind the batch needs another.

* `Settled` — the driver's fields when nothing is left open;
* `chain_posted` — the indexes of the chain, and where the driver refuses it;
* `Nic.step` — the chain and the queue, run together;
* `set_trigger_batches` — a batch is started only when those before it have completed, as
  far as no other CQEs have come, and the chain stops short only of a batch that does not ask
  for all its CQEs.
-/
import RednRdma.CrossChannel
import RednRdma.SetTrigger

namespace Rdma

namespace Batches

open CrossChannel Marks

/-- A WQE of the chain with its count unwrapped. -/
inductive ChainWqe
  /-- Release the requests up to here. -/
  | enable (upTo : ℕ)
  /-- Wait for so many CQEs. -/
  | wait (cqes : ℕ)
  deriving Repr, DecidableEq

/-- The WQE is in the ring and says so, for the queue and the completion queue. -/
def Lays (qpNum : UInt32) (cq : ℕ) : Wqe → ChainWqe → Prop
  | .enable e, .enable upTo =>
    e.laid = true ∧ e.qpNum = qpNum ∧ e.side = .send ∧ e.pi = UInt32.ofNat upTo
  | .wait w, .wait cqes => w.laid = true ∧ w.cq = cq ∧ w.pi = UInt32.ofNat cqes - 1
  | _, _ => False

/-- The chain for `nops` batches of `n`, behind `released` requests and `awaited` CQEs. -/
def chainWqes (n : ℕ) : ℕ → ℕ → ℕ → List ChainWqe
  | _, _, 0 => []
  | released, _, 1 => [.enable (released + n)]
  | released, awaited, nops + 2 =>
    .enable (released + n) :: .wait (awaited + n) ::
      chainWqes n (released + n) (awaited + n) (nops + 1)

/-- The requests of the chain the driver takes: all, or those in front of the first ENABLE
that asks for more than has been posted. -/
def taken (n posted released nops : ℕ) : ℕ :=
  if released + n * nops ≤ posted then 2 * nops - 1 else 2 * ((posted - released) / n)

/-- The fields when the last WAIT and the last ENABLE settled. -/
structure Settled (s : State) (i : UInt32 × Side) (cq posted released awaited : ℕ) : Prop where
  head : (s.wq i).head = UInt32.ofNat posted
  index : (s.wq i).headEnIndex = UInt32.ofNat released
  count : (s.wq i).headEnCount = 0
  waitIndex : (s.cq cq).waitIndex = UInt32.ofNat awaited - 1
  waitCount : (s.cq cq).waitCount = 0
  released_le : released ≤ posted
  window : posted - released < 2 ^ 31

/-! ### What the driver makes of the chain -/

section

variable {s : State} (qp : UInt32) {qpNum : UInt32} {cq posted released awaited : ℕ}
  {nwait : UInt32}

/-- An ENABLE within what has been posted. -/
theorem Settled.enable (h : Settled s (qpNum, .send) cq posted released awaited)
    (hpos : nwait ≠ 0) (hmanaged : (s.flags qpNum).managedSend = true)
    (hroom : released + nwait.toNat ≤ posted) :
    ∃ s' wqe, s.wqeEnable qp qpNum .send nwait true true = (s', true) ∧ s'.flags = s.flags ∧
      s'.log = s.log ++ [(qp, wqe)] ∧ Lays qpNum cq wqe (.enable (released + nwait.toNat)) ∧
      Settled s' (qpNum, .send) cq posted (released + nwait.toNat) awaited := by
  have hindex : (s.wq (qpNum, .send)).headEnIndex + nwait =
      UInt32.ofNat (released + nwait.toNat) := by
    rw [h.index, UInt32.ofNat_add, UInt32.ofNat_toNat]
  have hwindow := h.window
  have hdiff : ((s.wq (qpNum, .send)).head - ((s.wq (qpNum, .send)).headEnIndex + nwait)).toNat <
      2 ^ 31 := by
    rw [hindex, h.head, ← UInt32.ofNat_sub hroom,
      UInt32.toNat_ofNat_of_lt' (by simp only [UInt32.size]; omega)]
    omega
  have hmax : umax (s.wq (qpNum, .send)).headEnCount nwait = nwait := by
    rw [h.count, ← UInt32.toNat_inj, toNat_umax, UInt32.toNat_zero, Nat.zero_max]
  have henable : (s.wq (qpNum, .send)).enable nwait true =
      ({ s.wq (qpNum, .send) with
          headEnIndex := UInt32.ofNat (released + nwait.toNat), headEnCount := 0 },
        some (UInt32.ofNat (released + nwait.toNat))) := by
    rw [Wq.enable, if_pos hpos]
    dsimp only
    rw [if_neg (Nat.not_le.mpr hdiff), if_pos rfl, hmax, hindex]
  rw [State.wqeEnable, CreateFlags.managed, hmanaged, if_neg (by simp), henable]
  refine ⟨_, _, rfl, rfl, rfl, ⟨rfl, rfl, rfl, rfl⟩, ?_⟩
  constructor
  · simpa using h.head
  · simp
  · simp
  · exact h.waitIndex
  · exact h.waitCount
  · exact hroom
  · omega

/-- An ENABLE of more than has been posted. -/
theorem Settled.enable_refused (h : Settled s (qpNum, .send) cq posted released awaited)
    (hpos : nwait ≠ 0) (hsmall : nwait.toNat < 2 ^ 31)
    (hover : ¬ released + nwait.toNat ≤ posted) :
    ∃ s', s.wqeEnable qp qpNum .send nwait true true = (s', false) ∧ s'.log = s.log := by
  have hle := h.released_le
  have hdiff : 2 ^ 31 ≤
      ((s.wq (qpNum, .send)).head - ((s.wq (qpNum, .send)).headEnIndex + nwait)).toNat := by
    obtain ⟨k, hk⟩ : ∃ k, released + nwait.toNat = posted + k :=
      ⟨released + nwait.toNat - posted, by omega⟩
    have hneg : (s.wq (qpNum, .send)).head - ((s.wq (qpNum, .send)).headEnIndex + nwait) =
        0 - UInt32.ofNat k := by
      have hindex : (s.wq (qpNum, .send)).headEnIndex + nwait = UInt32.ofNat (posted + k) := by
        rw [← hk, h.index, UInt32.ofNat_add, UInt32.ofNat_toNat]
      rw [hindex, h.head, UInt32.ofNat_add]
      grind
    have hk32 : (UInt32.ofNat k).toNat = k :=
      UInt32.toNat_ofNat_of_lt' (by simp only [UInt32.size]; omega)
    rw [hneg, UInt32.toNat_sub, hk32, UInt32.toNat_zero]
    omega
  rw [State.wqeEnable]
  split
  · exact ⟨_, rfl, rfl⟩
  · rw [Wq.enable, if_pos hpos]
    dsimp only
    rw [if_pos hdiff]
    exact ⟨_, rfl, rfl⟩

theorem Settled.wait {i : UInt32 × Side} (h : Settled s i cq posted released awaited)
    (nwait : UInt32) :
    ∃ wqe, (s.cqeWait qp cq nwait true true).log = s.log ++ [(qp, wqe)] ∧
      Lays i.1 cq wqe (.wait (awaited + nwait.toNat)) ∧
      (s.cqeWait qp cq nwait true true).flags = s.flags ∧
      Settled (s.cqeWait qp cq nwait true true) i cq posted released
        (awaited + nwait.toNat) := by
  have hmax : umax (s.cq cq).waitCount nwait = nwait := by
    rw [h.waitCount, ← UInt32.toNat_inj, toNat_umax, UInt32.toNat_zero, Nat.zero_max]
  have hindex : (s.cq cq).waitIndex + nwait = UInt32.ofNat (awaited + nwait.toNat) - 1 := by
    rw [h.waitIndex, UInt32.ofNat_add, UInt32.ofNat_toNat]
    grind
  have hwait : (s.cq cq).wait nwait true =
      ({ s.cq cq with waitIndex := UInt32.ofNat (awaited + nwait.toNat) - 1, waitCount := 0 },
        UInt32.ofNat (awaited + nwait.toNat) - 1) := by
    rw [Cq.wait]
    dsimp only
    rw [if_pos rfl, hmax, hindex]
  rw [State.cqeWait, hwait]
  refine ⟨_, rfl, ⟨rfl, rfl, rfl⟩, rfl, ?_⟩
  constructor
  · exact h.head
  · exact h.index
  · exact h.count
  · simp
  · simp
  · exact h.released_le
  · exact h.window

end

/-- What the driver takes of a chain that goes on after its first ENABLE. -/
theorem taken_succ {n posted released nops : ℕ} (hn : 0 < n) :
    taken n posted released (nops + 2) =
      if released + n ≤ posted then taken n posted (released + n) (nops + 1) + 2 else 0 := by
  have hmul : released + n * (nops + 2) = released + n + n * (nops + 1) := by
    rw [Nat.mul_add, Nat.mul_add]
    omega
  rw [taken, taken, hmul]
  by_cases hfirst : released + n ≤ posted
  · rw [if_pos hfirst]
    by_cases hall : released + n + n * (nops + 1) ≤ posted
    · rw [if_pos hall, if_pos hall]
      omega
    · rw [if_neg hall, if_neg hall]
      have hsub : posted - released = posted - (released + n) + n := by omega
      rw [hsub, Nat.add_div_right _ hn]
      omega
  · have hall : ¬ released + n + n * (nops + 1) ≤ posted := fun h =>
      hfirst ((Nat.le_add_right _ _).trans h)
    rw [if_neg hfirst, if_neg hall, Nat.div_eq_of_lt (by omega)]

theorem taken_one {n posted released : ℕ} :
    taken n posted released 1 =
      if released + n ≤ posted then 1 else 2 * ((posted - released) / n) := by
  rw [taken, Nat.mul_one]

section

variable {s : State} {qp : UInt32} {ctx : ConnContext} {cq : ℕ} {nwait : UInt32}

theorem postSendOne_enable (hcross : (s.flags qp).crossChannel = true) :
    s.postSendOne qp (Trigger.enable ctx nwait 0 0).toWorkRequest =
      some (s.wqeEnable qp ctx.qpNum .send nwait true true) := by
  rw [State.postSendOne, if_neg (by simp [hcross])]
  rfl

theorem postSendOne_wait (hcross : (s.flags qp).crossChannel = true) (hcq : ctx.cq = some cq) :
    s.postSendOne qp (Trigger.wait ctx nwait 0 0).toWorkRequest =
      some (s.cqeWait qp cq nwait true true, true) := by
  rw [State.postSendOne, if_neg (by simp [hcross]), Trigger.wait, hcq]
  rfl

/-- The ids play no part. -/
theorem postLoop_takeIds (mctx : ConnContext) (room : ℕ) (wrs : List WorkRequest) :
    s.postLoop qp room (takeIds mctx wrs).1 = s.postLoop qp room wrs := by
  induction wrs generalizing mctx room s with
  | nil => rfl
  | cons wr wrs ih =>
    cases room with
    | zero => rfl
    | succ room =>
      have hone : s.postSendOne qp { wr with wrId := (nextWrId mctx 1).1.toUInt64 } =
          s.postSendOne qp wr := rfl
      rw [takeIds, State.postLoop, State.postLoop, hone]
      simp only [ih]

/-- **What the driver makes of the chain**: it takes so many of its requests, and their WQEs
go on from what had been released and awaited. -/
theorem chain_posted {posted released awaited room nops : ℕ} (hcq : ctx.cq = some cq)
    (h : Settled s (ctx.qpNum, .send) cq posted released awaited)
    (hcross : (s.flags qp).crossChannel = true)
    (hmanaged : (s.flags ctx.qpNum).managedSend = true) (hpos : nwait ≠ 0)
    (hsmall : nwait.toNat < 2 ^ 31) (hroom : 2 * (nops + 1) - 1 ≤ room) :
    ∃ s' new, s.postLoop qp room (triggerChain ctx (nops + 1) nwait) =
        some (s', taken nwait.toNat posted released (nops + 1)) ∧
      s'.log = s.log ++ new ∧
      List.Forall₂ (fun x wqe => x.1 = qp ∧ Lays ctx.qpNum cq x.2 wqe) new
        ((chainWqes nwait.toNat released awaited (nops + 1)).take
          (taken nwait.toNat posted released (nops + 1))) := by
  have hn : 0 < nwait.toNat := by
    rw [Nat.pos_iff_ne_zero, ← UInt32.toNat_zero, Ne, UInt32.toNat_inj]
    exact hpos
  induction nops generalizing s released awaited room with
  | zero =>
    -- the last batch has no WAIT behind it
    obtain ⟨room, rfl⟩ : ∃ r, room = r + 1 := ⟨room - 1, by omega⟩
    have hchain : triggerChain ctx 1 nwait = [(Trigger.enable ctx nwait 0 0).toWorkRequest] := rfl
    rw [hchain, State.postLoop, postSendOne_enable hcross, Nat.zero_add, taken_one]
    by_cases hfits : released + nwait.toNat ≤ posted
    · obtain ⟨s', wqe, henable, -, hlog, hlays, -⟩ := h.enable qp hpos hmanaged hfits
      rw [henable, if_pos hfits]
      dsimp only
      rw [State.postLoop]
      exact ⟨s', _, rfl, hlog, .cons ⟨rfl, hlays⟩ .nil⟩
    · obtain ⟨s', henable, hlog⟩ := h.enable_refused qp hpos hsmall hfits
      rw [henable, if_neg hfits, Nat.div_eq_of_lt (by omega)]
      exact ⟨s', [], rfl, by rw [hlog, List.append_nil], .nil⟩
  | succ nops ih =>
    obtain ⟨room, rfl⟩ : ∃ r, room = r + 2 := ⟨room - 2, by omega⟩
    rw [Trigger.triggerChain_succ, State.postLoop, postSendOne_enable hcross, taken_succ hn]
    by_cases hfits : released + nwait.toNat ≤ posted
    · obtain ⟨s₁, wqe, henable, hflags₁, hlog₁, hlays₁, h₁⟩ :=
        h.enable qp hpos hmanaged hfits
      obtain ⟨wqe', hlog₂, hlays₂, hflags₂, h₂⟩ := h₁.wait qp nwait
      have hrest : 2 * (nops + 1) - 1 ≤ room := by omega
      obtain ⟨s', new, hloop, hlog, hnew⟩ := ih h₂ (by rw [hflags₂, hflags₁]; exact hcross)
        (by rw [hflags₂, hflags₁]; exact hmanaged) hrest
      rw [henable, if_pos hfits]
      refine ⟨s', (qp, wqe) :: (qp, wqe') :: new, ?_, ?_, ?_⟩
      · dsimp only
        rw [State.postLoop, postSendOne_wait (by rw [hflags₁]; exact hcross) hcq]
        dsimp only
        rw [hloop]
        rfl
      · rw [hlog, hlog₂, hlog₁, List.append_assoc, List.append_assoc]
        rfl
      · exact .cons ⟨rfl, hlays₁⟩ (.cons ⟨rfl, hlays₂⟩ hnew)
    · obtain ⟨s', henable, hlog⟩ := h.enable_refused qp hpos hsmall hfits
      rw [henable, if_neg hfits]
      exact ⟨s', [], rfl, by rw [hlog, List.append_nil], .nil⟩

end

/-! ### Running the chain -/

/-- The requests of the queue that have been released, started and completed, and the WQEs
of the chain that have run. -/
structure Nic where
  ran : ℕ := 0
  enabled : ℕ
  started : ℕ
  completed : ℕ
  /-- The CQEs that are not those of the requests. -/
  others : ℕ := 0
  deriving Repr, DecidableEq

inductive NicAct
  /-- Run the next WQE of the chain. -/
  | chain
  /-- Start the next request of the queue. -/
  | start
  /-- The first request still under way completes, with a CQE if it asked for one. -/
  | complete
  /-- A CQE of something else, such as a receive. -/
  | other
  deriving Repr, DecidableEq

/-- The CQEs of the requests from `released` to `completed`. -/
def ownCqes (signals : List Bool) (released completed : ℕ) : ℕ :=
  ((signals.take completed).drop released).count true

/-- The requests of the queue from `released` on ask for CQEs, as many as these. -/
def Asked (signals : List Bool) (released n : ℕ) : Prop :=
  ∀ k < n, signals[released + k]? = some true

instance (signals : List Bool) (released n : ℕ) : Decidable (Asked signals released n) :=
  inferInstanceAs (Decidable (∀ k < n, _))

namespace Nic

/-- The CQEs so far, when the ones the driver counts with had come before the first. -/
def cqes (signals : List Bool) (released awaited : ℕ) (s : Nic) : ℕ :=
  awaited + ownCqes signals released s.completed + s.others

/-- Run a WQE of the chain; a WAIT holds it up. -/
def runWqe (signals : List Bool) (released awaited : ℕ) (s : Nic) : ChainWqe → Option Nic
  | .enable upTo => some { s with ran := s.ran + 1, enabled := max s.enabled upTo }
  | .wait n =>
    if n ≤ s.cqes signals released awaited then some { s with ran := s.ran + 1 } else none

def step (wqes : List ChainWqe) (signals : List Bool) (released awaited : ℕ) (s : Nic) :
    NicAct → Option Nic
  | .chain => (wqes[s.ran]?).bind (s.runWqe signals released awaited)
  | .start =>
    if s.started < s.enabled ∧ s.started < signals.length then
      some { s with started := s.started + 1 }
    else none
  | .complete =>
    if s.completed < s.started then some { s with completed := s.completed + 1 } else none
  | .other => some { s with others := s.others + 1 }

/-- All that has been released has completed. -/
def idle (released : ℕ) : Nic :=
  { enabled := released, started := released, completed := released }

/-- The chain has run, and the requests it releases have completed. -/
def Finished (n released nops : ℕ) (s : Nic) : Prop :=
  s.ran = 2 * nops - 1 ∧ s.completed = released + n * nops

/-- A request is started only when those of the batches before its own have completed, the
other CQEs taken for completions. -/
def InBatches (n released : ℕ) (s : Nic) : Prop :=
  ∀ b, released + n * b < s.started → n * b ≤ s.completed - released + s.others

end Nic

theorem length_chainWqes (n released awaited nops : ℕ) :
    (chainWqes n released awaited (nops + 1)).length = 2 * nops + 1 := by
  induction nops generalizing released awaited with
  | zero => rfl
  | succ nops ih =>
    rw [chainWqes, List.length_cons, List.length_cons, ih]
    omega

/-- The WQEs of the chain, by their places. -/
theorem getElem?_chainWqes {n released awaited nops j : ℕ} (hj : j < 2 * nops + 1) :
    (chainWqes n released awaited (nops + 1))[j]? =
      some (if j % 2 = 0 then .enable (released + n * (j / 2 + 1))
        else .wait (awaited + n * (j / 2 + 1))) := by
  induction nops generalizing released awaited j with
  | zero =>
    obtain rfl : j = 0 := by omega
    simp [chainWqes]
  | succ nops ih =>
    rw [chainWqes]
    match j with
    | 0 => simp
    | 1 => simp
    | j + 2 =>
      have hdiv : (j + 2) / 2 + 1 = j / 2 + 1 + 1 := by omega
      have hnext : ∀ x, x + n + n * (j / 2 + 1) = x + n * (j / 2 + 1 + 1) := by
        intro x
        rw [Nat.mul_add n (j / 2 + 1)]
        omega
      rw [List.getElem?_cons_succ, List.getElem?_cons_succ, ih (by omega), Nat.add_mod_right,
        hdiv, hnext, hnext]

/-! ### The CQEs of the requests -/

section

variable {signals : List Bool} {released completed n : ℕ}

theorem ownCqes_le (signals : List Bool) (released completed : ℕ) :
    ownCqes signals released completed ≤ completed - released := by
  refine List.count_le_length.trans ?_
  rw [List.length_drop, List.length_take]
  exact Nat.sub_le_sub_right (min_le_left _ _) _

theorem ownCqes_succ (signals : List Bool) (released completed : ℕ) :
    ownCqes signals released completed ≤ ownCqes signals released (completed + 1) :=
  List.Sublist.count_le true
    ((List.take_sublist_take_left (Nat.le_succ completed)).drop released)

/-- Where `n` requests at most have completed, `n` CQEs are those of the first `n`. -/
theorem asked_of_le_ownCqes (h : n ≤ ownCqes signals released completed)
    (hle : completed ≤ released + n) : Asked signals released n := by
  have hlen : ((signals.take completed).drop released).length ≤ n := by
    rw [List.length_drop, List.length_take]
    omega
  have hcount : ((signals.take completed).drop released).count true =
      ((signals.take completed).drop released).length :=
    le_antisymm List.count_le_length (hlen.trans h)
  intro k hk
  have hlt : k < ((signals.take completed).drop released).length :=
    hk.trans_le (h.trans List.count_le_length)
  have htrue := List.count_eq_length.mp hcount _ (List.getElem_mem hlt)
  have hget : ((signals.take completed).drop released)[k]? = some true := by
    rw [List.getElem?_eq_getElem hlt, ← htrue]
  rw [List.getElem?_drop, List.getElem?_take] at hget
  split at hget
  · exact hget
  · exact absurd hget (by simp)

theorem ownCqes_of_asked (h : Asked signals released (completed - released)) :
    ownCqes signals released completed = completed - released := by
  have hlen : ((signals.take completed).drop released).length = completed - released := by
    rw [List.length_drop, List.length_take]
    rcases Nat.eq_zero_or_pos (completed - released) with hzero | hpos
    · omega
    · -- the last of the requests has been posted
      have hlast := h (completed - released - 1) (Nat.sub_lt hpos Nat.one_pos)
      have := (List.getElem?_eq_some_iff.mp hlast).1
      omega
  rw [ownCqes, ← hlen, List.count_eq_length]
  intro b hb
  obtain ⟨k, hk, rfl⟩ := List.mem_iff_getElem.mp hb
  have hget := h k (hlen ▸ hk)
  rw [List.getElem_drop, List.getElem_take]
  exact (Option.some_inj.mp ((List.getElem?_eq_getElem _).symm.trans hget)).symm

end

namespace Nic

variable {signals : List Bool} {n released awaited nops m : ℕ}

/-- Every ENABLE that has run released a batch, and every WAIT saw one completed. -/
structure Inv (signals : List Bool) (n released nops : ℕ) (s : Nic) : Prop where
  ran : s.ran ≤ 2 * nops + 1
  enabled : s.enabled = released + n * ((s.ran + 1) / 2)
  started : s.started ≤ s.enabled
  completed : released ≤ s.completed ∧ s.completed ≤ s.started
  awaited : n * (s.ran / 2) ≤ ownCqes signals released s.completed + s.others
  asked : s.others = 0 → Asked signals released (n * (s.ran / 2))

theorem idle_inv : Inv signals n released nops (idle released) where
  ran := Nat.zero_le _
  enabled := by simp [idle]
  started := le_refl _
  completed := ⟨le_refl _, le_refl _⟩
  awaited := by simp [idle]
  asked := by simp [idle, Asked]

theorem Inv.runWqe {s s' : Nic} (h : Inv signals n released nops s) (hj : s.ran < 2 * nops + 1)
    (hs : s.runWqe signals released awaited
      (if s.ran % 2 = 0 then .enable (released + n * (s.ran / 2 + 1))
        else .wait (awaited + n * (s.ran / 2 + 1))) = some s') :
    Inv signals n released nops s' := by
  have henabled := h.enabled
  rcases Nat.mod_two_eq_zero_or_one s.ran with heven | hodd
  · -- an ENABLE: one batch more than the last one
    rw [if_pos heven] at hs
    obtain rfl := Option.some_inj.mp hs
    have hhalf : (s.ran + 1) / 2 = s.ran / 2 := by omega
    have hnext : (s.ran + 1 + 1) / 2 = s.ran / 2 + 1 := by omega
    have hle : n * (s.ran / 2) ≤ n * (s.ran / 2 + 1) := Nat.mul_le_mul_left n (by omega)
    rw [hhalf] at henabled
    refine ⟨hj, ?_, h.started.trans (le_max_left _ _), h.completed, ?_, ?_⟩
    · show max s.enabled _ = released + n * ((s.ran + 1 + 1) / 2)
      rw [hnext, henabled]
      omega
    · show n * ((s.ran + 1) / 2) ≤ _
      rw [hhalf]
      exact h.awaited
    · show s.others = 0 → Asked signals released (n * ((s.ran + 1) / 2))
      rw [hhalf]
      exact h.asked
  · -- a WAIT: the batch released last has completed
    rw [if_neg (by omega), Nic.runWqe] at hs
    split at hs
    · rename_i hwait
      obtain rfl := Option.some_inj.mp hs
      have hhalf : (s.ran + 1) / 2 = s.ran / 2 + 1 := by omega
      have hnext : (s.ran + 1 + 1) / 2 = s.ran / 2 + 1 := by omega
      rw [cqes] at hwait
      refine ⟨hj, ?_, h.started, h.completed, ?_, ?_⟩
      · show s.enabled = released + n * ((s.ran + 1 + 1) / 2)
        rw [henabled, hhalf, hnext]
      · show n * ((s.ran + 1) / 2) ≤ ownCqes signals released s.completed + s.others
        rw [hhalf]
        omega
      · -- no more requests than those are released, so that every CQE is one of theirs
        show s.others = 0 → Asked signals released (n * ((s.ran + 1) / 2))
        intro hnone
        rw [hhalf]
        have hdone : s.completed ≤ released + n * (s.ran / 2 + 1) := by
          have := h.completed.2.trans h.started
          rwa [henabled, hhalf] at this
        exact asked_of_le_ownCqes (by omega) hdone
    · exact absurd hs (by simp)

theorem Inv.step {s s' : Nic} {a : NicAct} (h : Inv signals n released nops s)
    (hs : step ((chainWqes n released awaited (nops + 1)).take m) signals released awaited s a =
      some s') : Inv signals n released nops s' := by
  have hdone := h.completed
  have hbefore := h.awaited
  cases a with
  | chain =>
    obtain ⟨wqe, hwqe, hrun⟩ := Option.bind_eq_some_iff.mp hs
    rw [List.getElem?_take] at hwqe
    split at hwqe
    · have hj : s.ran < 2 * nops + 1 := by
        have := (List.getElem?_eq_some_iff.mp hwqe).1
        rwa [length_chainWqes] at this
      rw [getElem?_chainWqes hj, Option.some_inj] at hwqe
      subst hwqe
      exact h.runWqe hj hrun
    · exact absurd hwqe (by simp)
  | start =>
    simp only [Nic.step] at hs
    split at hs
    · rename_i hlt
      obtain rfl := Option.some_inj.mp hs
      exact ⟨h.ran, h.enabled, hlt.1, ⟨hdone.1, hdone.2.trans (Nat.le_succ _)⟩, hbefore, h.asked⟩
    · exact absurd hs (by simp)
  | complete =>
    simp only [Nic.step] at hs
    split at hs
    · rename_i hlt
      obtain rfl := Option.some_inj.mp hs
      refine ⟨h.ran, h.enabled, h.started, ⟨hdone.1.trans (Nat.le_succ _), hlt⟩, ?_, h.asked⟩
      exact hbefore.trans (Nat.add_le_add_right (ownCqes_succ signals released s.completed) _)
    · exact absurd hs (by simp)
  | other =>
    obtain rfl := Option.some_inj.mp hs
    refine ⟨h.ran, h.enabled, h.started, hdone, ?_, fun hnone => absurd hnone (Nat.succ_ne_zero _)⟩
    exact hbefore.trans (Nat.le_succ _)

theorem Inv.inBatches {s : Nic} (h : Inv signals n released nops s) : InBatches n released s := by
  intro b hb
  have hlt : released + n * b < released + n * ((s.ran + 1) / 2) := by
    rw [← h.enabled]
    exact hb.trans_le h.started
  have hbatch : b < (s.ran + 1) / 2 :=
    Nat.lt_of_mul_lt_mul_left (Nat.add_lt_add_iff_left.mp hlt)
  exact (Nat.mul_le_mul_left n (by omega)).trans
    (h.awaited.trans (Nat.add_le_add_right (ownCqes_le _ _ _) _))

/-- As long as something is left to do, something can be done, where every batch that a WAIT is
behind asks for its CQEs. -/
theorem Inv.progress {s : Nic} (h : Inv signals n released nops s)
    (hall : released + n * (nops + 1) ≤ signals.length)
    (hasked : Asked signals released (n * nops)) :
    Finished n released (nops + 1) s ∨ ∃ a, a ≠ NicAct.other ∧
      Nic.step (chainWqes n released awaited (nops + 1)) signals released awaited s a ≠ none := by
  have henabled := h.enabled
  -- a request under way can complete, and one that is released be started
  rcases Nat.lt_or_ge s.completed s.started with hlt | hge
  · exact Or.inr ⟨.complete, by decide, by simp [Nic.step, hlt]⟩
  rcases Nat.lt_or_ge s.started s.enabled with hlt | hge'
  · have hposted : s.started < signals.length := by
      have hran := h.ran
      have : n * ((s.ran + 1) / 2) ≤ n * (nops + 1) := Nat.mul_le_mul_left n (by omega)
      omega
    exact Or.inr ⟨.start, by decide, by simp [Nic.step, hlt, hposted]⟩
  -- everything that is released has completed
  have hdone : s.completed = released + n * ((s.ran + 1) / 2) := by
    have := h.started
    have := h.completed.2
    omega
  rcases Nat.lt_or_ge s.ran (2 * nops + 1) with hlt | hend
  · refine Or.inr ⟨.chain, by decide, ?_⟩
    rw [Nic.step, getElem?_chainWqes hlt, Option.bind_some]
    rcases Nat.mod_two_eq_zero_or_one s.ran with heven | hodd
    · rw [if_pos heven]
      exact Option.some_ne_none _
    · -- each request the WAIT is behind has brought its CQE
      have hhalf : (s.ran + 1) / 2 = s.ran / 2 + 1 := by omega
      have hsub : s.completed - released = n * (s.ran / 2 + 1) := by
        rw [hdone, hhalf, Nat.add_sub_cancel_left]
      have hbatches : n * (s.ran / 2 + 1) ≤ n * nops := Nat.mul_le_mul_left n (by omega)
      have hown : ownCqes signals released s.completed = s.completed - released :=
        ownCqes_of_asked fun k hk => hasked k (hk.trans_le (hsub.trans_le hbatches))
      have hcqes : awaited + n * (s.ran / 2 + 1) ≤ s.cqes signals released awaited := by
        rw [cqes, hown, hsub]
        omega
      rw [if_neg (by omega), Nic.runWqe, if_pos hcqes]
      exact Option.some_ne_none _
  · have hran := h.ran
    refine Or.inl ⟨by omega, ?_⟩
    rw [hdone]
    congr 2
    omega

end Nic

/-- The fields after a run whose last WAIT and last ENABLE settled. -/
theorem settled_of_inv {s : State} {i : UInt32 × Side} {cq : ℕ} (hw : s.WaitInv)
    (he : s.EnableInv) (hwait : top (waitMarks (s.waitsOn cq)) = floor (waitMarks (s.waitsOn cq)))
    (henable : top (enableMarks (s.enablesOn i)) = floor (enableMarks (s.enablesOn i)))
    (hback : s.backlog i < 2 ^ 31) :
    Settled s i cq (s.wq i).posted (floor (enableMarks (s.enablesOn i)))
      (floor (waitMarks (s.waitsOn cq))) where
  head := (he i).head
  index := (he i).index
  count := by
    rw [← UInt32.toNat_inj, (he i).count, henable, Nat.sub_self]
    rfl
  waitIndex := (hw cq).index
  waitCount := by
    rw [← UInt32.toNat_inj, (hw cq).count, hwait, Nat.sub_self]
    rfl
  released_le := (he i).floor_le
  window := hback

/-- **`IBV_SET_TRIGGER` runs a queue in batches.**  After any run, when the last ENABLE of
the queue and the last WAIT for its completion queue settled, the call is taken whole if
`nops * nwait` requests are waiting to be released, and else up to the first batch that is
not there.  The NIC goes on from where what had been released has completed, and as many CQEs
have come as were waited for.  Whatever it does with the chain and the queue, it starts no
request before those of the batches in front of it have completed, unless other CQEs stand in
for them; and without other CQEs it passes a WAIT only if all requests of the batches in front
of it ask for theirs.  If they do, up to the last batch but one, and the chain was taken whole,
the NIC never stops before the last batch has completed. -/
theorem set_trigger_batches {s₀ s : State} {as : List Act} (h : Created s₀)
    (hm : Machine.Meets CrossChannel.step Orderly s₀ as)
    (hr : Machine.run CrossChannel.step s₀ as = some s) {qp : UInt32} {mctx ctx : ConnContext}
    {cq room nops : ℕ} {nwait : UInt32} (hcq : ctx.cq = some cq)
    (hwait : top (waitMarks (s.waitsOn cq)) = floor (waitMarks (s.waitsOn cq)))
    (henable : top (enableMarks (s.enablesOn (ctx.qpNum, .send))) =
      floor (enableMarks (s.enablesOn (ctx.qpNum, .send))))
    (hback : s.backlog (ctx.qpNum, .send) < 2 ^ 31)
    (hcross : (s.flags qp).crossChannel = true)
    (hmanaged : (s.flags ctx.qpNum).managedSend = true) (hpos : nwait ≠ 0)
    (hsmall : nwait.toNat < 2 ^ 31) (hroom : 2 * (nops + 1) - 1 ≤ room) :
    let posted := (s.wq (ctx.qpNum, .send)).posted
    let signals := (s.wq (ctx.qpNum, .send)).signals
    let released := floor (enableMarks (s.enablesOn (ctx.qpNum, .send)))
    let awaited := floor (waitMarks (s.waitsOn cq))
    let wqes := (chainWqes nwait.toNat released awaited (nops + 1)).take
      (taken nwait.toNat posted released (nops + 1))
    (∃ s' new, s.postLoop qp room (takeIds mctx (triggerChain ctx (nops + 1) nwait)).1 =
        some (s', taken nwait.toNat posted released (nops + 1)) ∧ s'.log = s.log ++ new ∧
      List.Forall₂ (fun x wqe => x.1 = qp ∧ Lays ctx.qpNum cq x.2 wqe) new wqes) ∧
    ∀ nas t,
      Machine.run (Nic.step wqes signals released awaited) (Nic.idle released) nas = some t →
      t.InBatches nwait.toNat released ∧
      (t.others = 0 → Asked signals released (nwait.toNat * (t.ran / 2))) ∧
      (released + nwait.toNat * (nops + 1) ≤ posted →
        Asked signals released (nwait.toNat * nops) →
        t.Finished nwait.toNat released (nops + 1) ∨
          ∃ a, a ≠ NicAct.other ∧ Nic.step wqes signals released awaited t a ≠ none) := by
  intro posted signals released awaited wqes
  have hw : s.WaitInv := Machine.run_inv (fun _ _ _ hi hs => hi.step hs) h.waitInv hr
  have he : s.EnableInv := Machine.run_inv_of_meets (fun _ _ _ hi ho hs => hi.step ho hs)
    h.enableInv hm hr
  have hsettled := settled_of_inv hw he hwait henable hback
  constructor
  · rw [postLoop_takeIds]
    exact chain_posted hcq hsettled hcross hmanaged hpos hsmall hroom
  · intro nas t hrun
    have hinv : Nic.Inv signals nwait.toNat released nops t :=
      Machine.run_inv (fun _ _ _ hi hs => hi.step hs) Nic.idle_inv hrun
    refine ⟨hinv.inBatches, hinv.asked, ?_⟩
    intro hall hasked
    have hwhole : wqes = chainWqes nwait.toNat released awaited (nops + 1) := by
      refine List.take_of_length_le ?_
      rw [length_chainWqes, taken, if_pos hall]
      omega
    rw [hwhole]
    exact hinv.progress hall hasked

/-- Five sends that ask for their CQEs. -/
def fiveSends : List Act :=
  [.postSend 7 5 (List.replicate 5 { opcode := .send, flags := { signaled := true } })]

/-- Two batches of two out of five requests.  A CQE that is not theirs lets the second batch
start while a request of the first is under way. -/
theorem set_trigger_batches_surplus : ∃ s t,
    Machine.run CrossChannel.step crossQps fiveSends = some s ∧
    Machine.run (Nic.step (chainWqes 2 0 0 2) (s.wq (7, .send)).signals 0 0) (Nic.idle 0)
      [.chain, .start, .start, .complete, .other, .chain, .chain, .start] = some t ∧
    t.started = 3 ∧ t.completed = 1 ∧ t.InBatches 2 0 ∧
    (t.Finished 2 0 2 ∨ ∃ a, a ≠ NicAct.other ∧
      Nic.step (chainWqes 2 0 0 2) (s.wq (7, .send)).signals 0 0 t a ≠ none) := by
  obtain ⟨s, hr, hback, hsignals, hlog, hflags⟩ : ∃ s,
      Machine.run CrossChannel.step crossQps fiveSends = some s ∧
      s.backlog (7, .send) < 2 ^ 31 ∧ (s.wq (7, .send)).signals = List.replicate 5 true ∧
      s.log = [] ∧ s.flags = fun _ => ⟨true, true, true⟩ := ⟨_, rfl, by decide, rfl, rfl, rfl⟩
  have hposted : (s.wq (7, .send)).posted = 5 := by rw [Wq.posted, hsignals]; rfl
  have hwaits : s.waitsOn 5 = [] := by rw [State.waitsOn, hlog, List.filterMap_nil]
  have henables : s.enablesOn (7, .send) = [] := by
    rw [State.enablesOn, hlog, List.filterMap_nil]
  obtain ⟨-, hrun⟩ := @set_trigger_batches crossQps s _ crossQps_created (by decide) hr 1 {}
    { cq := some 5, qpNum := 7 } 5 3 1 2 rfl (by rw [hwaits]; rfl) (by rw [henables]; rfl) hback
    (by rw [hflags]) (by rw [hflags]) (by decide) (by decide) (by decide)
  dsimp only at hrun
  rw [hposted, hsignals, hwaits, henables] at hrun
  obtain ⟨t, ht, hstarted, hcompleted⟩ : ∃ t,
      Machine.run (Nic.step (chainWqes 2 0 0 2) (List.replicate 5 true) 0 0) (Nic.idle 0)
        [.chain, .start, .start, .complete, .other, .chain, .chain, .start] = some t ∧
        t.started = 3 ∧ t.completed = 1 := ⟨_, rfl, rfl, rfl⟩
  obtain ⟨hbatches, -, hprogress⟩ := hrun _ t ht
  refine ⟨s, t, hr, ?_⟩
  rw [hsignals]
  exact ⟨ht, hstarted, hcompleted, hbatches, hprogress (by decide) (by decide)⟩

end Batches

end Rdma
