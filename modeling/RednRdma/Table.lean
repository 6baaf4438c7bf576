/-
The table of connections (`connection.c`, `utils.h`).

A connection owns a slot of two arrays, `s_conn_bitmap` and `s_conn_ids`.
`init_connection` claims the slot in the first with a compare-and-swap and writes
its id into the second later; `rc_clear` gives the slot up in the first before it
erases the id from the second.  Every compare-and-swap and every store is a step
of its own, for any number of calls at once.

* `integrity_of_owned` — the arrays agree whenever no call is in progress, as
  long as every `rc_clear` erases the id of its own connection;
* `late_clear` — between its two stores the slot may get a new owner, whose id it
  then erases.
-/
import RednRdma.Context
import RednRdma.Lib.Machine
import Mathlib.Logic.Function.Basic
import Mathlib.Tactic.Common

namespace Rdma

namespace Table

abbrev Slot := Fin MAX_CONNECTIONS

/-- How far an id is on its way through `init_connection` and `rc_clear`. -/
inductive Phase
  /-- `init_connection` has not been called. -/
  | unborn
  /-- At the compare-and-swap of `s_conn_bitmap[i]`. -/
  | scan (i : ℕ)
  /-- Before `s_conn_bitmap[sockfd] = 1`. -/
  | claimed (sockfd : Slot)
  /-- Before `ctx->sockfd = sockfd`. -/
  | marked (sockfd : Slot)
  /-- Before `s_conn_ids[sockfd] = id`. -/
  | numbered (sockfd : Slot)
  /-- `init_connection` has returned `sockfd`. -/
  | live (sockfd : Slot)
  /-- `rc_disconnect` has terminated the connection. -/
  | terminated (sockfd : Slot)
  /-- In `rc_clear`, before `s_conn_bitmap[ctx->sockfd] = 0`. -/
  | checked (sockfd : Slot)
  /-- In `rc_clear`, before `s_conn_ids[ctx->sockfd] = NULL`. -/
  | released (sockfd : Slot)
  /-- `rc_clear` has freed the id. -/
  | cleared
  deriving Repr, DecidableEq

namespace Phase

/-- One of the two calls is in progress. -/
def InProgress : Phase → Prop
  | scan _ | claimed _ | marked _ | numbered _ | checked _ | released _ => True
  | unborn | live _ | terminated _ | cleared => False

/-- The slot whose bit is the connection's. -/
def holds : Phase → Option Slot
  | claimed i | marked i | numbered i | live i | terminated i | checked i => some i
  | unborn | scan _ | released _ | cleared => none

/-- The slot that `ctx->sockfd` names. -/
def known : Phase → Option Slot
  | numbered i | live i | terminated i | checked i | released i => some i
  | unborn | scan _ | claimed _ | marked _ | cleared => none

/-- The slot the connection is listed at, for all to see. -/
def listed : Phase → Option Slot
  | live i | terminated i | checked i => some i
  | _ => none

/-- The slot where the id may stand. -/
def written : Phase → Option Slot
  | live i | terminated i | checked i | released i => some i
  | _ => none

/-- `ctx->state == RC_CONNECTION_TERMINATED`. -/
def isTerminated : Phase → Bool
  | terminated _ | checked _ | released _ => true
  | _ => false

/-- The slot `init_connection` has returned for a connection that has not been
cleared. -/
def inUse : Phase → Option Slot
  | live i | terminated i => some i
  | _ => none

theorem inUse_of_holds {p : Phase} {i : Slot} (hp : ¬ p.InProgress) (h : p.holds = some i) :
    p.inUse = some i := by
  cases p with
  | live j | terminated j => exact h
  | unborn | cleared => exact absurd h (by simp [holds])
  | _ => exact absurd trivial hp

theorem inUse_of_written {p : Phase} {i : Slot} (hp : ¬ p.InProgress) (h : p.written = some i) :
    p.inUse = some i := by
  cases p with
  | live j | terminated j => exact h
  | unborn | cleared => exact absurd h (by simp [written])
  | _ => exact absurd trivial hp

theorem listed_of_inUse {p : Phase} {i : Slot} (h : p.inUse = some i) : p.listed = some i := by
  cases p with
  | live j | terminated j => exact h
  | _ => exact absurd h (by simp [inUse])

theorem known_of_written {p : Phase} {i : Slot} (h : p.written = some i) : p.known = some i := by
  cases p with
  | live j | terminated j | checked j | released j => exact h
  | _ => exact absurd h (by simp [written])

theorem holds_of_listed {p : Phase} {i : Slot} (h : p.listed = some i) : p.holds = some i := by
  cases p with
  | live j | terminated j | checked j => exact h
  | _ => exact absurd h (by simp [listed])

end Phase

/-- The two arrays, and the contexts and the progress of all ids. -/
structure State where
  bitmap : Slot → Bool := fun _ => false
  ids : Slot → Option ℕ := fun _ => none
  sockfd : ℕ → Slot := fun _ => 0
  phase : ℕ → Phase := fun _ => .unborn

/-- `get_connection`.  The guard lets `MAX_CONNECTIONS` through. -/
def getConnection (s : State) (sockfd : ℤ) : Except Stop (Option ℕ) := do
  dieIf (sockfd > MAX_CONNECTIONS) "invalid sockfd; must be less than MAX_CONNECTIONS"
  if ← readAt s.bitmap sockfd then readAt s.ids sockfd else return none

/-- `rc_terminated`, on the slot of a context. -/
def rcTerminated (s : State) (sockfd : Slot) : Bool :=
  if s.bitmap sockfd then
    match s.ids sockfd with
    | some id => (s.phase id).isTerminated
    | none => false
  else false

def State.go (s : State) (id : ℕ) (p : Phase) : State :=
  { s with phase := Function.update s.phase id p }

/-- The next step on `id`, of `init_connection`, `rc_disconnect` or `rc_clear`;
undefined where the call ends in `rc_die`. -/
def step (s : State) (id : ℕ) : Option State :=
  match s.phase id with
  | .unborn => some (s.go id (.scan 0))
  | .scan i =>
    -- `find_first_empty_bit_and_set`
    if h : i < MAX_CONNECTIONS then
      if s.bitmap ⟨i, h⟩ then some (s.go id (.scan (i + 1)))
      else some { s.go id (.claimed ⟨i, h⟩) with bitmap := Function.update s.bitmap ⟨i, h⟩ true }
    else none
  | .claimed i =>
    some { s.go id (.marked i) with bitmap := Function.update s.bitmap i true }
  | .marked i =>
    some { s.go id (.numbered i) with sockfd := Function.update s.sockfd id i }
  | .numbered i => some { s.go id (.live i) with ids := Function.update s.ids i (some id) }
  | .live i => some (s.go id (.terminated i))
  | .terminated i =>
    if rcTerminated s (s.sockfd id) then some (s.go id (.checked i)) else none
  | .checked i =>
    some { s.go id (.released i) with
      bitmap := Function.update s.bitmap (s.sockfd id) false }
  | .released _ =>
    some { s.go id .cleared with ids := Function.update s.ids (s.sockfd id) none }
  | .cleared => none

/-- No call is in progress. -/
def Quiescent (s : State) : Prop := ∀ id, ¬ (s.phase id).InProgress

/-- What the table owes its users. -/
structure Integrity (s : State) : Prop where
  bit_iff : ∀ i, s.bitmap i = true ↔ s.ids i ≠ none
  sockfd : ∀ i id, s.ids i = some id → s.sockfd id = i
  alone : ∀ i id id', (s.phase id).inUse = some i → (s.phase id').inUse = some i → id = id'
  lookup : ∀ (i : Slot) id, (s.phase id).inUse = some i →
    getConnection s (i.val : ℤ) = .ok (some id)

/-- Where `rc_clear` is about to erase an id, it is that of the connection it
clears. -/
def ErasesOwn (s : State) (id : ℕ) : Prop :=
  match s.phase id with
  | .released i => s.ids i = some id
  | _ => True

instance (s : State) (id : ℕ) : Decidable (ErasesOwn s id) := by
  rw [ErasesOwn]
  split <;> infer_instance

/-! ### The invariant -/

/-- Every set bit has one holder. -/
structure Holders (bitmap : Slot → Bool) (phase : ℕ → Phase) : Prop where
  bit : ∀ i, bitmap i = true ↔ ∃ id, (phase id).holds = some i
  alone : ∀ i id id', (phase id).holds = some i → (phase id').holds = some i → id = id'

/-- Every listed connection stands in its slot, and what stands in a slot was
written there by a connection that has not erased it. -/
structure Entries (ids : Slot → Option ℕ) (sockfd : ℕ → Slot) (phase : ℕ → Phase) : Prop where
  known : ∀ id i, (phase id).known = some i → sockfd id = i
  listed : ∀ id i, (phase id).listed = some i → ids i = some id
  written : ∀ id i, ids i = some id → (phase id).written = some i

structure Inv (s : State) : Prop where
  holders : Holders s.bitmap s.phase
  entries : Entries s.ids s.sockfd s.phase

theorem init_inv : Inv {} where
  holders := ⟨by simp [Phase.holds], by simp [Phase.holds]⟩
  entries := ⟨by simp [Phase.known], by simp [Phase.listed], by simp⟩

section

variable {bitmap : Slot → Bool} {ids : Slot → Option ℕ} {sockfd : ℕ → Slot}
  {phase : ℕ → Phase} {id : ℕ} {i : Slot} {p q : Phase}

/-- What the old and the new phase of one id agree on is unchanged for all. -/
theorem update_congr {β : Type} (f : Phase → β) (h : f p = f (phase id)) (j : ℕ) :
    f (Function.update phase id p j) = f (phase j) := by
  by_cases hj : j = id
  · rw [hj, Function.update_self, h]
  · rw [Function.update_of_ne hj]

theorem Holders.keep (h : Holders bitmap phase) (hq : phase id = q) (hp : p.holds = q.holds) :
    Holders bitmap (Function.update phase id p) := by
  subst hq
  constructor
  · intro i
    rw [h.bit i]
    exact exists_congr fun j => by rw [update_congr Phase.holds hp]
  · intro i j j' hj hj'
    rw [update_congr Phase.holds hp] at hj hj'
    exact h.alone i j j' hj hj'

theorem Entries.keep (h : Entries ids sockfd phase) (hq : phase id = q)
    (hknown : p.known = q.known) (hlisted : p.listed = q.listed)
    (hwritten : p.written = q.written) :
    Entries ids sockfd (Function.update phase id p) := by
  subst hq
  refine ⟨?_, ?_, ?_⟩
  · intro j i hj
    rw [update_congr Phase.known hknown] at hj
    exact h.known j i hj
  · intro j i hj
    rw [update_congr Phase.listed hlisted] at hj
    exact h.listed j i hj
  · intro j i hj
    rw [update_congr Phase.written hwritten]
    exact h.written j i hj

/-- A free bit is set, and the id that set it holds the slot. -/
theorem Holders.claim (h : Holders bitmap phase) (hq : phase id = q) (hfree : bitmap i = false)
    (hnone : q.holds = none) (hp : p.holds = some i) :
    Holders (Function.update bitmap i true) (Function.update phase id p) := by
  subst hq
  have hnobody : ∀ j, (phase j).holds ≠ some i := by
    intro j hj
    rw [(h.bit i).mpr ⟨j, hj⟩] at hfree
    exact absurd hfree (by simp)
  constructor
  · intro k
    by_cases hk : k = i
    · rw [hk, Function.update_self]
      constructor
      · intro _
        exact ⟨id, by rw [Function.update_self, hp]⟩
      · intro _
        rfl
    · rw [Function.update_of_ne hk, h.bit k]
      refine exists_congr ?_
      intro j
      by_cases hj : j = id
      · rw [hj, Function.update_self, hp, hnone]
        simp [Ne.symm hk]
      · rw [Function.update_of_ne hj]
  · intro k j j' hj hj'
    by_cases hid : j = id
    · by_cases hid' : j' = id
      · rw [hid, hid']
      · rw [hid, Function.update_self, hp] at hj
        rw [Function.update_of_ne hid'] at hj'
        exact absurd (hj'.trans hj.symm) (hnobody j')
    · rw [Function.update_of_ne hid] at hj
      by_cases hid' : j' = id
      · rw [hid', Function.update_self, hp] at hj'
        exact absurd (hj.trans hj'.symm) (hnobody j)
      · rw [Function.update_of_ne hid'] at hj'
        exact h.alone k j j' hj hj'

/-- The holder of a bit clears it and holds the slot no longer. -/
theorem Holders.release (h : Holders bitmap phase) (hq : phase id = q) (hold : q.holds = some i)
    (hp : p.holds = none) :
    Holders (Function.update bitmap i false) (Function.update phase id p) := by
  subst hq
  constructor
  · intro k
    by_cases hk : k = i
    · rw [hk, Function.update_self]
      refine ⟨fun hf => absurd hf (by simp), ?_⟩
      rintro ⟨j, hj⟩
      by_cases hid : j = id
      · rw [hid, Function.update_self, hp] at hj
        exact absurd hj (by simp)
      · rw [Function.update_of_ne hid] at hj
        exact absurd (h.alone i j id hj hold) hid
    · rw [Function.update_of_ne hk, h.bit k]
      refine exists_congr ?_
      intro j
      by_cases hj : j = id
      · rw [hj, Function.update_self, hp, hold]
        simp [Ne.symm hk]
      · rw [Function.update_of_ne hj]
  · intro k j j' hj hj'
    have hne : ∀ m, (Function.update phase id p m).holds = some k → m ≠ id := by
      rintro m hm rfl
      rw [Function.update_self, hp] at hm
      exact absurd hm (by simp)
    have hjid := hne j hj
    have hjid' := hne j' hj'
    rw [Function.update_of_ne hjid] at hj
    rw [Function.update_of_ne hjid'] at hj'
    exact h.alone k j j' hj hj'

/-- `ctx->sockfd = sockfd`. -/
theorem Entries.number (h : Entries ids sockfd phase) (hq : phase id = q)
    (hknown : p.known = some i) (hlisted : p.listed = q.listed)
    (hwritten : p.written = q.written) :
    Entries ids (Function.update sockfd id i) (Function.update phase id p) := by
  subst hq
  refine ⟨?_, ?_, ?_⟩
  · intro j k hj
    by_cases hid : j = id
    · rw [hid, Function.update_self, hknown] at hj
      rw [hid, Function.update_self]
      exact Option.some_inj.mp hj
    · rw [Function.update_of_ne hid] at hj ⊢
      exact h.known j k hj
  · intro j k hj
    rw [update_congr Phase.listed hlisted] at hj
    exact h.listed j k hj
  · intro j k hj
    rw [update_congr Phase.written hwritten]
    exact h.written j k hj

/-- `s_conn_ids[sockfd] = id`, where nobody else is listed. -/
theorem Entries.publish (h : Entries ids sockfd phase) (hq : phase id = q)
    (hknown : p.known = q.known) (hlisted : p.listed = some i) (hwritten : p.written = some i)
    (hnone : q.written = none) (halone : ∀ j ≠ id, (phase j).listed ≠ some i) :
    Entries (Function.update ids i (some id)) sockfd (Function.update phase id p) := by
  subst hq
  refine ⟨?_, ?_, ?_⟩
  · intro j k hj
    rw [update_congr Phase.known hknown] at hj
    exact h.known j k hj
  · intro j k hj
    by_cases hid : j = id
    · rw [hid, Function.update_self, hlisted] at hj
      obtain rfl := Option.some_inj.mp hj
      rw [hid, Function.update_self]
    · rw [Function.update_of_ne hid] at hj
      have hk : k ≠ i := fun heq => halone j hid (heq ▸ hj)
      rw [Function.update_of_ne hk]
      exact h.listed j k hj
  · intro j k hj
    by_cases hk : k = i
    · rw [hk, Function.update_self, Option.some_inj] at hj
      rw [← hj, Function.update_self, hwritten, hk]
    · rw [Function.update_of_ne hk] at hj
      have hw := h.written j k hj
      have hid : j ≠ id := by
        rintro rfl
        rw [hnone] at hw
        exact absurd hw (by simp)
      rw [Function.update_of_ne hid]
      exact hw

/-- The id is no longer listed, but still written. -/
theorem Entries.unlist (h : Entries ids sockfd phase) (hq : phase id = q)
    (hknown : p.known = q.known) (hlisted : p.listed = none) (hwritten : p.written = q.written) :
    Entries ids sockfd (Function.update phase id p) := by
  subst hq
  refine ⟨?_, ?_, ?_⟩
  · intro j k hj
    rw [update_congr Phase.known hknown] at hj
    exact h.known j k hj
  · intro j k hj
    by_cases hid : j = id
    · rw [hid, Function.update_self, hlisted] at hj
      exact absurd hj (by simp)
    · rw [Function.update_of_ne hid] at hj
      exact h.listed j k hj
  · intro j k hj
    rw [update_congr Phase.written hwritten]
    exact h.written j k hj

/-- `s_conn_ids[sockfd] = NULL`, where the id stands. -/
theorem Entries.erase (h : Entries ids sockfd phase) (hown : ids i = some id)
    (hknown : p.known = none) (hlisted : p.listed = none) :
    Entries (Function.update ids i none) sockfd (Function.update phase id p) := by
  refine ⟨?_, ?_, ?_⟩
  · intro j k hj
    by_cases hid : j = id
    · rw [hid, Function.update_self, hknown] at hj
      exact absurd hj (by simp)
    · rw [Function.update_of_ne hid] at hj
      exact h.known j k hj
  · intro j k hj
    by_cases hid : j = id
    · rw [hid, Function.update_self, hlisted] at hj
      exact absurd hj (by simp)
    · rw [Function.update_of_ne hid] at hj
      have hjk := h.listed j k hj
      have hk : k ≠ i := by
        rintro rfl
        exact hid (Option.some_inj.mp (hjk.symm.trans hown))
      rw [Function.update_of_ne hk]
      exact hjk
  · intro j k hj
    by_cases hk : k = i
    · rw [hk, Function.update_self] at hj
      exact absurd hj (by simp)
    · rw [Function.update_of_ne hk] at hj
      have hid : j ≠ id := by
        rintro rfl
        exact hk (Option.some_inj.mp ((h.written j k hj).symm.trans (h.written j i hown)))
      rw [Function.update_of_ne hid]
      exact h.written j k hj

end

/-! ### Steps and runs -/

theorem Inv.step {s s' : State} {id : ℕ} (h : Inv s) (hc : ErasesOwn s id)
    (hs : Table.step s id = some s') : Inv s' := by
  rw [Table.step] at hs
  -- one case for each store of the two calls
  split at hs
  · rename_i hp
    obtain rfl := Option.some_inj.mp hs
    exact ⟨h.holders.keep hp rfl, h.entries.keep hp rfl rfl rfl⟩
  · rename_i k hp
    split at hs
    · rename_i hk
      split at hs
      · -- the compare-and-swap fails: on to the next bit
        obtain rfl := Option.some_inj.mp hs
        exact ⟨h.holders.keep hp rfl, h.entries.keep hp rfl rfl rfl⟩
      · rename_i hfree
        obtain rfl := Option.some_inj.mp hs
        exact ⟨h.holders.claim hp (Bool.eq_false_iff.mpr hfree) rfl rfl,
          h.entries.keep hp rfl rfl rfl⟩
    · exact absurd hs (by simp)
  · rename_i i hp
    -- the bit is set already
    have hbit : s.bitmap i = true := (h.holders.bit i).mpr ⟨id, by rw [hp]; rfl⟩
    rw [← hbit, Function.update_eq_self] at hs
    obtain rfl := Option.some_inj.mp hs
    exact ⟨h.holders.keep hp rfl, h.entries.keep hp rfl rfl rfl⟩
  · rename_i i hp
    obtain rfl := Option.some_inj.mp hs
    exact ⟨h.holders.keep hp rfl, h.entries.number hp rfl rfl rfl⟩
  · rename_i i hp
    obtain rfl := Option.some_inj.mp hs
    refine ⟨h.holders.keep hp rfl, h.entries.publish hp rfl rfl rfl rfl ?_⟩
    -- whoever were listed there would hold the bit as well
    intro j hj hlisted
    refine hj (h.holders.alone i j id (Phase.holds_of_listed hlisted) ?_)
    rw [hp]
    rfl
  · rename_i i hp
    obtain rfl := Option.some_inj.mp hs
    exact ⟨h.holders.keep hp rfl, h.entries.keep hp rfl rfl rfl⟩
  · rename_i i hp
    split at hs
    · obtain rfl := Option.some_inj.mp hs
      exact ⟨h.holders.keep hp rfl, h.entries.keep hp rfl rfl rfl⟩
    · exact absurd hs (by simp)
  · rename_i i hp
    have hfd : s.sockfd id = i := h.entries.known id i (by rw [hp]; rfl)
    rw [hfd] at hs
    obtain rfl := Option.some_inj.mp hs
    exact ⟨h.holders.release hp rfl rfl, h.entries.unlist hp rfl rfl rfl⟩
  · rename_i i hp
    have hfd : s.sockfd id = i := h.entries.known id i (by rw [hp]; rfl)
    -- the bit may be another's by now, so that the entry is ours is the condition
    have hown : s.ids i = some id := by
      simpa only [ErasesOwn, hp] using hc
    rw [hfd] at hs
    obtain rfl := Option.some_inj.mp hs
    exact ⟨h.holders.keep hp rfl, h.entries.erase hown rfl rfl⟩
  · exact absurd hs (by simp)

theorem readAt_val {n : ℕ} {α : Type} (t : Fin n → α) (i : Fin n) :
    readAt t (i.val : ℤ) = .ok (t i) := by
  simp [readAt]

theorem getConnection_of_bit {s : State} {i : Slot} (h : s.bitmap i = true) :
    getConnection s (i.val : ℤ) = .ok (s.ids i) := by
  have hle : ¬ (i.val : ℤ) > (MAX_CONNECTIONS : ℤ) := by
    have := i.isLt
    omega
  rw [getConnection, dieIf, if_neg (mt of_decide_eq_true hle), readAt_val, readAt_val, h]
  rfl

theorem Inv.integrity {s : State} (h : Inv s) (hq : Quiescent s) : Integrity s := by
  have hids : ∀ i id, (s.phase id).inUse = some i → s.ids i = some id := by
    intro i id hid
    exact h.entries.listed id i (Phase.listed_of_inUse hid)
  have hbit : ∀ i id, (s.phase id).inUse = some i → s.bitmap i = true := by
    intro i id hid
    exact (h.holders.bit i).mpr ⟨id, Phase.holds_of_listed (Phase.listed_of_inUse hid)⟩
  refine ⟨?_, ?_, ?_, ?_⟩
  · intro i
    constructor
    · intro hi
      obtain ⟨id, hholds⟩ := (h.holders.bit i).mp hi
      rw [hids i id (Phase.inUse_of_holds (hq id) hholds)]
      simp
    · intro hi
      obtain ⟨id, hid⟩ := Option.ne_none_iff_exists'.mp hi
      exact hbit i id (Phase.inUse_of_written (hq id) (h.entries.written id i hid))
  · intro i id hi
    exact h.entries.known id i (Phase.known_of_written (h.entries.written id i hi))
  · intro i id id' hid hid'
    exact Option.some_inj.mp ((hids i id hid).symm.trans (hids i id' hid'))
  · intro i id hid
    rw [getConnection_of_bit (hbit i id hid), hids i id hid]

/-- **The table is consistent** in every state of a run where no call is in
progress, if every `rc_clear` of the run erases the id of its own connection. -/
theorem integrity_of_owned {as : List ℕ} (hm : Machine.Meets step ErasesOwn {} as) :
    Machine.Along step (fun s => Quiescent s → Integrity s) {} as :=
  Machine.along_of_meets (fun _ _ _ hi hc hs => Inv.step hi hc hs)
    (fun _ hi hq => Inv.integrity hi hq) init_inv hm

/-- Two connections, one cleared before the other is set up. -/
theorem integrity_reuse :
    Machine.Along step (fun s => Quiescent s → Integrity s) {}
      [0, 0, 0, 0, 0, 0, 0, 0, 0, 1, 1, 1, 1, 1] :=
  integrity_of_owned (by decide)

/-- Id 0 has cleared its bit, id 1 claims the slot and publishes itself, and then
id 0 erases it. -/
theorem late_clear : ∃ s,
    Machine.run step {} [0, 0, 0, 0, 0, 0, 0, 0, 1, 1, 1, 1, 1, 0] = some s ∧
      Quiescent s ∧ (s.phase 1).inUse = some 0 ∧ getConnection s 0 = .ok none ∧
      ¬ Integrity s := by
  refine ⟨_, rfl, ?_, rfl, rfl, ?_⟩
  · intro id
    rcases id with _ | _ | id
    · exact not_false
    · exact not_false
    · exact not_false
  · intro h
    have := h.lookup 0 1 rfl
    exact absurd this (by decide)

end Table

end Rdma
