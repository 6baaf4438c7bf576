/-
The hash tables behind the records (vendored `uthash.h`).

The tables of connections, of bindings and of responses are uthash tables: an array of
buckets, each with a chain of the elements whose hash falls there, and all elements in the
order they were added.  An addition that fills a bucket doubles the array and deals all
chains out again.  A lookup takes the first match in a chain.

* `hashAdd`, `hashFind`, `hashDelete` — the macros, for any hash function;
* `Inv.expand` — doubling loses no element and puts none in two chains;
* `run_lookup` — over a run a table is a list of entries, and `HASH_FIND` one of the
  lookups that the models of the tables take for it;
* `run_dups` — which of several entries with one key is found.
-/
import RednRdma.Lib.Machine
import RednRdma.Lib.Multimap
import Mathlib.Data.List.Nodup
import Mathlib.Data.Nat.Bitwise
import Mathlib.Logic.Function.Basic
import Mathlib.Tactic.Common

namespace Rdma

namespace Uthash

variable {κ β : Type}

/-- A `UT_hash_handle` in its element, with the key it points to. -/
structure Handle (κ β : Type) where
  elem : β
  key : κ
  hashv : UInt32
  deriving Repr, DecidableEq

/-- `UT_hash_bucket`; the chain is what `hh_head` leads to. -/
structure Bucket (κ β : Type) where
  chain : List (Handle κ β) := []
  count : UInt32 := 0
  expandMult : UInt32 := 0
  deriving Repr, DecidableEq

/-- `UT_hash_table`, with `HASH_MAKE_TABLE`'s values; `app` is what the head leads to by
`next`, and `tail` its last element. -/
structure Table (κ β : Type) where
  buckets : ℕ → Bucket κ β := fun _ => {}
  numBuckets : UInt32 := 32
  log2NumBuckets : UInt32 := 5
  numItems : UInt32 := 0
  idealChainMaxlen : UInt32 := 0
  nonidealItems : UInt32 := 0
  ineffExpands : UInt32 := 0
  noexpand : Bool := false
  app : List (Handle κ β) := []

/-- `HASH_BKT_CAPACITY_THRESH`. -/
abbrev HASH_BKT_CAPACITY_THRESH : UInt32 := 10

/-- `HASH_TO_BKT`. -/
def hashToBkt (hashv numBkts : UInt32) : ℕ := (hashv &&& (numBkts - 1)).toNat

/-- One element of `HASH_EXPAND_BUCKETS`: it goes to the front of its new chain. -/
def dealOut (numBkts ideal : UInt32) (s : (ℕ → Bucket κ β) × UInt32) (h : Handle κ β) :
    (ℕ → Bucket κ β) × UInt32 :=
  let i := hashToBkt h.hashv numBkts
  let b := s.1 i
  let count := b.count + 1
  let expandMult :=
    if count > ideal ∧ count > b.expandMult * ideal then b.expandMult + 1 else b.expandMult
  (Function.update s.1 i { chain := h :: b.chain, count, expandMult },
    if count > ideal then s.2 + 1 else s.2)

/-- `HASH_EXPAND_BUCKETS`. -/
def hashExpandBuckets (t : Table κ β) : Table κ β :=
  let numBuckets := t.numBuckets * 2
  let ideal := (t.numItems >>> (t.log2NumBuckets + 1)) +
    if t.numItems &&& (numBuckets - 1) ≠ 0 then 1 else 0
  let handles := (List.range t.numBuckets.toNat).flatMap fun i => (t.buckets i).chain
  let (buckets, nonidealItems) := handles.foldl (dealOut numBuckets ideal) (fun _ => {}, 0)
  let ineffExpands := if nonidealItems > t.numItems >>> 1 then t.ineffExpands + 1 else 0
  { t with
    buckets, numBuckets, nonidealItems, ineffExpands
    log2NumBuckets := t.log2NumBuckets + 1
    idealChainMaxlen := ideal
    noexpand := t.noexpand || ineffExpands > 1 }

/-- `HASH_ADD_TO_BKT`. -/
def hashAddToBkt (t : Table κ β) (i : ℕ) (h : Handle κ β) : Table κ β :=
  let b := { t.buckets i with chain := h :: (t.buckets i).chain, count := (t.buckets i).count + 1 }
  let t := { t with buckets := Function.update t.buckets i b }
  if b.count ≥ (b.expandMult + 1) * HASH_BKT_CAPACITY_THRESH ∧ t.noexpand = false then
    hashExpandBuckets t
  else t

/-- `HASH_JEN_MIX`. -/
def hashJenMix (a b c : UInt32) : UInt32 × UInt32 × UInt32 :=
  let a := (a - b - c) ^^^ (c >>> 13)
  let b := (b - c - a) ^^^ (a <<< 8)
  let c := (c - a - b) ^^^ (b >>> 13)
  let a := (a - b - c) ^^^ (c >>> 12)
  let b := (b - c - a) ^^^ (a <<< 16)
  let c := (c - a - b) ^^^ (b >>> 5)
  let a := (a - b - c) ^^^ (c >>> 3)
  let b := (b - c - a) ^^^ (a <<< 10)
  let c := (c - a - b) ^^^ (b >>> 15)
  (a, b, c)

/-- Four bytes of a key from `i` on, those behind its end being zero. -/
def jenWord (key : List UInt8) (i : ℕ) : UInt32 :=
  (key.getD i 0).toUInt32 + ((key.getD (i + 1) 0).toUInt32 <<< 8) +
    ((key.getD (i + 2) 0).toUInt32 <<< 16) + ((key.getD (i + 3) 0).toUInt32 <<< 24)

/-- The loop of `HASH_JEN`, over twelve bytes a turn: `_hj_i`, `_hj_j`, `hashv` and the bytes
that are left. -/
def jenLoop (i j hashv : UInt32) : List UInt8 → UInt32 × UInt32 × UInt32 × List UInt8
  | k₀ :: k₁ :: k₂ :: k₃ :: k₄ :: k₅ :: k₆ :: k₇ :: k₈ :: k₉ :: k₁₀ :: k₁₁ :: rest =>
    let (i, j, hashv) := hashJenMix (i + jenWord [k₀, k₁, k₂, k₃] 0)
      (j + jenWord [k₄, k₅, k₆, k₇] 0) (hashv + jenWord [k₈, k₉, k₁₀, k₁₁] 0)
    jenLoop i j hashv rest
  | rest => (i, j, hashv, rest)

/-- `HASH_JEN`; the first of the bytes 8 to 11 is where the length is. -/
def hashJen (key : List UInt8) : UInt32 :=
  let (i, j, hashv, rest) := jenLoop 0x9e3779b9 0x9e3779b9 0xfeedbeef key
  let hashv := hashv + UInt32.ofNat key.length + (jenWord (0 :: rest.drop 8) 0)
  (hashJenMix (i + jenWord rest 0) (j + jenWord rest 4) hashv).2.2

/-- `HASH_ADD`; the head is none for `NULL`. -/
def hashAdd (hash : κ → UInt32) (head : Option (Table κ β)) (key : κ) (elem : β) : Table κ β :=
  let h : Handle κ β := { elem, key, hashv := hash key }
  let t := head.getD {}
  let t := { t with app := t.app ++ [h], numItems := t.numItems + 1 }
  hashAddToBkt t (hashToBkt h.hashv t.numBuckets) h

/-- `HASH_FIND`, with `HASH_FIND_IN_BKT`. -/
def hashFind [DecidableEq κ] (hash : κ → UInt32) (head : Option (Table κ β)) (key : κ) :
    Option β :=
  head.bind fun t =>
    ((t.buckets (hashToBkt (hash key) t.numBuckets)).chain.find? fun h =>
      h.hashv = hash key ∧ h.key = key).map Handle.elem

/-- `HASH_DELETE`, with `HASH_DEL_IN_BKT`; undefined for an element that is not in the
table. -/
def hashDelete [DecidableEq κ] [DecidableEq β] (head : Option (Table κ β)) (elem : β) :
    Option (Option (Table κ β)) :=
  head.bind fun t =>
    (t.app.find? fun h => h.elem = elem).map fun h =>
      -- neither `prev` nor `next`: the last element takes the table with it
      if t.app.length = 1 then none
      else
        let i := hashToBkt h.hashv t.numBuckets
        let b := t.buckets i
        some { t with
          app := t.app.erase h
          buckets := Function.update t.buckets i
            { b with chain := b.chain.erase h, count := b.count - 1 }
          numItems := t.numItems - 1 }

/-- `elem->hh.next`. -/
def nextElem [DecidableEq β] (head : Option (Table κ β)) (elem : β) : Option β :=
  head.bind fun t => (t.app.dropWhile fun h => h.elem ≠ elem).tail.head?.map Handle.elem

/-- `HASH_ITER` with the `HASH_DEL` of every element it comes to: the head, and the
elements in their order.  `tmp` is read before its element is deleted. -/
def iterDel [DecidableEq κ] [DecidableEq β] :
    ℕ → Option (Table κ β) → Option β → Option β → Option (Option (Table κ β) × List β)
  | _, head, none, _ => some (head, [])
  | 0, _, some _, _ => none
  | fuel + 1, head, some elem, tmp =>
    (hashDelete head elem).bind fun head =>
      (iterDel fuel head tmp (tmp.bind (nextElem head))).map fun r => (r.1, elem :: r.2)

/-- The loops of `rc_disconnect`. -/
def clear [DecidableEq κ] [DecidableEq β] (fuel : ℕ) (head : Option (Table κ β)) :
    Option (Option (Table κ β) × List β) :=
  let elem := head.bind fun t => t.app.head?.map Handle.elem
  iterDel fuel head elem (elem.bind (nextElem head))

/-- The entries of a table, the one added last in front. -/
def entries (head : Option (Table κ β)) : List (κ × β) :=
  ((head.elim [] Table.app).map fun h => (h.key, h.elem)).reverse

/-! ### The invariant -/

theorem hashToBkt_lt {n : UInt32} (hn : 0 < n.toNat) (hashv : UInt32) :
    hashToBkt hashv n < n.toNat := by
  have hone : (1 : UInt32) ≤ n := by
    rw [UInt32.le_iff_toNat_le]
    exact hn
  rw [hashToBkt, UInt32.toNat_and, UInt32.toNat_sub_of_le _ _ hone]
  refine Nat.lt_of_le_of_lt Nat.and_le_right ?_
  show n.toNat - 1 < n.toNat
  omega

/-- Every element is in the chain of its bucket and in no other. -/
structure Inv (hash : κ → UInt32) (t : Table κ β) : Prop where
  pow : ∃ k < 32, t.numBuckets.toNat = 2 ^ k
  nodup : (t.app.map Handle.elem).Nodup
  hashed : ∀ h ∈ t.app, h.hashv = hash h.key
  mem : ∀ i < t.numBuckets.toNat, ∀ h,
    h ∈ (t.buckets i).chain ↔ h ∈ t.app ∧ hashToBkt h.hashv t.numBuckets = i
  chain_nodup : ∀ i < t.numBuckets.toNat, (t.buckets i).chain.Nodup
  count : ∀ i < t.numBuckets.toNat,
    (t.buckets i).count = UInt32.ofNat (t.buckets i).chain.length
  numItems : t.numItems = UInt32.ofNat t.app.length

variable {hash : κ → UInt32} {t : Table κ β}

theorem Inv.numBuckets_pos (h : Inv hash t) : 0 < t.numBuckets.toNat := by
  obtain ⟨k, -, hk⟩ := h.pow
  rw [hk]
  exact Nat.two_pow_pos k

theorem inv_empty : Inv hash ({} : Table κ β) where
  pow := ⟨5, by decide, rfl⟩
  nodup := List.nodup_nil
  hashed := by simp
  mem := by simp
  chain_nodup := by simp
  count := fun _ _ => rfl
  numItems := rfl

/-! ### Doubling -/

/-- What the chains are once some elements have been dealt out. -/
theorem foldl_dealOut (numBkts ideal : UInt32) (hs : List (Handle κ β))
    (s : (ℕ → Bucket κ β) × UInt32) (i : ℕ) :
    ((hs.foldl (dealOut numBkts ideal) s).1 i).chain =
        (hs.filter fun h => hashToBkt h.hashv numBkts = i).reverse ++ (s.1 i).chain ∧
      ((hs.foldl (dealOut numBkts ideal) s).1 i).count =
        UInt32.ofNat (hs.filter fun h => hashToBkt h.hashv numBkts = i).length + (s.1 i).count := by
  induction hs generalizing s with
  | nil => exact ⟨rfl, by simp⟩
  | cons h hs ih =>
    obtain ⟨hchain, hcount⟩ := ih (dealOut numBkts ideal s h)
    rw [List.foldl_cons, hchain, hcount]
    by_cases hi : hashToBkt h.hashv numBkts = i
    · rw [List.filter_cons_of_pos (by simpa using hi), List.reverse_cons, List.append_assoc,
        List.length_cons, UInt32.ofNat_add, dealOut, hi]
      dsimp only
      rw [Function.update_self]
      refine ⟨rfl, ?_⟩
      show _ + ((s.1 i).count + 1) = _ + UInt32.ofNat 1 + _
      have hone : UInt32.ofNat 1 = 1 := rfl
      rw [hone]
      grind
    · rw [List.filter_cons_of_neg (by simpa using hi), dealOut]
      dsimp only
      rw [Function.update_of_ne (Ne.symm hi)]
      exact ⟨rfl, rfl⟩

/-- The elements as they are dealt out are those of the table, each once. -/
theorem Inv.handles (h : Inv hash t) :
    ((List.range t.numBuckets.toNat).flatMap fun i => (t.buckets i).chain).Nodup ∧
      ∀ x, x ∈ ((List.range t.numBuckets.toNat).flatMap fun i => (t.buckets i).chain) ↔
        x ∈ t.app := by
  constructor
  · rw [List.nodup_flatMap]
    refine ⟨fun i hi => h.chain_nodup i (List.mem_range.mp hi), ?_⟩
    refine List.Pairwise.imp_of_mem ?_ List.nodup_range
    intro i j hi hj hne x hx hy
    have hxi := ((h.mem i (List.mem_range.mp hi) x).mp hx).2
    have hxj := ((h.mem j (List.mem_range.mp hj) x).mp hy).2
    exact hne (hxi.symm.trans hxj)
  · intro x
    rw [List.mem_flatMap]
    constructor
    · rintro ⟨i, hi, hx⟩
      exact ((h.mem i (List.mem_range.mp hi) x).mp hx).1
    · intro hx
      have hlt := hashToBkt_lt h.numBuckets_pos x.hashv
      exact ⟨_, List.mem_range.mpr hlt, (h.mem _ hlt x).mpr ⟨hx, rfl⟩⟩

theorem Inv.expand (h : Inv hash t) (hroom : t.numBuckets.toNat < 2 ^ 31) :
    Inv hash (hashExpandBuckets t) := by
  obtain ⟨hnodup, hmem⟩ := h.handles
  obtain ⟨k, hk, hpow⟩ := h.pow
  have hk31 : k < 31 := (Nat.pow_lt_pow_iff_right (by decide)).mp (hpow ▸ hroom)
  have hdouble : (t.numBuckets * 2).toNat = 2 ^ (k + 1) := by
    rw [UInt32.toNat_mul, hpow, Nat.pow_succ]
    refine Nat.mod_eq_of_lt ?_
    have : 2 ^ k < 2 ^ 31 := hpow ▸ hroom
    show 2 ^ k * 2 < 2 ^ 32
    omega
  have hdeal := fun i => foldl_dealOut (t.numBuckets * 2)
    ((t.numItems >>> (t.log2NumBuckets + 1)) +
      if t.numItems &&& (t.numBuckets * 2 - 1) ≠ 0 then 1 else 0)
    ((List.range t.numBuckets.toNat).flatMap fun i => (t.buckets i).chain) (fun _ => {}, 0) i
  have hchain : ∀ i, ((hashExpandBuckets t).buckets i).chain = _ := fun i => (hdeal i).1
  have hcount : ∀ i, ((hashExpandBuckets t).buckets i).count = _ := fun i => (hdeal i).2
  constructor
  · exact ⟨k + 1, by omega, hdouble⟩
  · exact h.nodup
  · exact h.hashed
  · intro i _ x
    rw [hchain, List.append_nil, List.mem_reverse, List.mem_filter, hmem, decide_eq_true_iff]
    rfl
  · intro i _
    rw [hchain, List.append_nil, List.nodup_reverse]
    exact hnodup.filter _
  · intro i _
    rw [hchain, hcount, List.append_nil, List.length_reverse]
    exact UInt32.add_zero _
  · exact h.numItems

/-! ### Adding and deleting -/

/-- The table with one element more, before its bucket is looked at. -/
def linked (t : Table κ β) (h : Handle κ β) : Table κ β :=
  let i := hashToBkt h.hashv t.numBuckets
  { t with
    app := t.app ++ [h]
    numItems := t.numItems + 1
    buckets := Function.update t.buckets i { t.buckets i with
      chain := h :: (t.buckets i).chain, count := (t.buckets i).count + 1 } }

theorem hashAdd_cases (hash : κ → UInt32) (head : Option (Table κ β)) (key : κ) (elem : β) :
    hashAdd hash head key elem = linked (head.getD {}) ⟨elem, key, hash key⟩ ∨
      hashAdd hash head key elem =
        hashExpandBuckets (linked (head.getD {}) ⟨elem, key, hash key⟩) := by
  rw [hashAdd, hashAddToBkt]
  dsimp only
  split
  · exact Or.inr rfl
  · exact Or.inl rfl

theorem Inv.linked (h : Inv hash t) {x : Handle κ β} (hx : x.hashv = hash x.key)
    (hfresh : x.elem ∉ t.app.map Handle.elem) : Inv hash (linked t x) := by
  have hnot : x ∉ t.app := fun hmem => hfresh (List.mem_map_of_mem hmem)
  constructor
  · exact h.pow
  · show ((t.app ++ [x]).map Handle.elem).Nodup
    rw [List.map_append, List.map_singleton, List.nodup_append_comm]
    exact List.nodup_cons.mpr ⟨hfresh, h.nodup⟩
  · intro y hy
    rcases List.mem_append.mp hy with hy | hy
    · exact h.hashed y hy
    · obtain rfl := List.mem_singleton.mp hy
      exact hx
  · intro i hi y
    show y ∈ (Function.update t.buckets _ _ i).chain ↔ y ∈ t.app ++ [x] ∧ _
    rw [List.mem_append, List.mem_singleton]
    by_cases hix : i = hashToBkt x.hashv t.numBuckets
    · rw [hix, Function.update_self, List.mem_cons, h.mem _ (hix ▸ hi)]
      constructor
      · rintro (rfl | ⟨hy, hb⟩)
        · exact ⟨Or.inr rfl, rfl⟩
        · exact ⟨Or.inl hy, hb⟩
      · rintro ⟨hy | rfl, hb⟩
        · exact Or.inr ⟨hy, hb⟩
        · exact Or.inl rfl
    · rw [Function.update_of_ne hix, h.mem i hi]
      constructor
      · rintro ⟨hy, hb⟩
        exact ⟨Or.inl hy, hb⟩
      · rintro ⟨hy | rfl, hb⟩
        · exact ⟨hy, hb⟩
        · exact absurd hb.symm hix
  · intro i hi
    show (Function.update t.buckets _ _ i).chain.Nodup
    by_cases hix : i = hashToBkt x.hashv t.numBuckets
    · rw [hix, Function.update_self]
      refine List.nodup_cons.mpr ⟨?_, h.chain_nodup _ (hix ▸ hi)⟩
      rw [h.mem _ (hix ▸ hi)]
      exact fun hmem => hnot hmem.1
    · rw [Function.update_of_ne hix]
      exact h.chain_nodup i hi
  · intro i hi
    show (Function.update t.buckets _ _ i).count =
      UInt32.ofNat (Function.update t.buckets _ _ i).chain.length
    by_cases hix : i = hashToBkt x.hashv t.numBuckets
    · rw [hix, Function.update_self]
      show (t.buckets _).count + 1 = UInt32.ofNat ((t.buckets _).chain.length + 1)
      rw [h.count _ (hix ▸ hi), UInt32.ofNat_add]
      rfl
    · rw [Function.update_of_ne hix]
      exact h.count i hi
  · show t.numItems + 1 = UInt32.ofNat (t.app ++ [x]).length
    rw [h.numItems, List.length_append, UInt32.ofNat_add]
    rfl

theorem Inv.app_nodup (h : Inv hash t) : t.app.Nodup := h.nodup.of_map _

/-- An element is in the table once. -/
theorem Inv.eq_of_elem (h : Inv hash t) {x y : Handle κ β} (hx : x ∈ t.app) (hy : y ∈ t.app)
    (heq : x.elem = y.elem) : x = y := List.inj_on_of_nodup_map h.nodup hx hy heq

section

variable [DecidableEq κ] [DecidableEq β]

/-- The table with one element less. -/
def unlinked (t : Table κ β) (h : Handle κ β) : Table κ β :=
  let i := hashToBkt h.hashv t.numBuckets
  { t with
    app := t.app.erase h
    buckets := Function.update t.buckets i { t.buckets i with
      chain := (t.buckets i).chain.erase h, count := (t.buckets i).count - 1 }
    numItems := t.numItems - 1 }

/-- One less, in unsigned arithmetic. -/
theorem ofNat_length_erase {γ : Type} [DecidableEq γ] {l : List γ} {x : γ} (hx : x ∈ l) :
    UInt32.ofNat l.length - 1 = UInt32.ofNat (l.erase x).length := by
  have hlen := List.length_erase_of_mem hx
  have hpos := List.length_pos_of_mem hx
  have hsplit : l.length = (l.erase x).length + 1 := by omega
  rw [hsplit, UInt32.ofNat_add]
  have hone : UInt32.ofNat 1 = 1 := rfl
  rw [hone]
  grind

theorem Inv.unlinked (h : Inv hash t) {x : Handle κ β} (hx : x ∈ t.app) :
    Inv hash (unlinked t x) := by
  have hlt := hashToBkt_lt h.numBuckets_pos x.hashv
  have hin : x ∈ (t.buckets (hashToBkt x.hashv t.numBuckets)).chain :=
    (h.mem _ hlt x).mpr ⟨hx, rfl⟩
  constructor
  · exact h.pow
  · exact h.nodup.sublist ((List.erase_sublist).map _)
  · intro y hy
    exact h.hashed y (List.mem_of_mem_erase hy)
  · intro i hi y
    show y ∈ (Function.update t.buckets _ _ i).chain ↔ y ∈ t.app.erase x ∧ _
    rw [h.app_nodup.mem_erase_iff]
    by_cases hix : i = hashToBkt x.hashv t.numBuckets
    · rw [hix, Function.update_self]
      show y ∈ (t.buckets _).chain.erase x ↔ _
      rw [(h.chain_nodup _ hlt).mem_erase_iff, h.mem _ hlt, and_assoc]
      rfl
    · rw [Function.update_of_ne hix, h.mem i hi]
      constructor
      · rintro ⟨hy, hb⟩
        refine ⟨⟨?_, hy⟩, hb⟩
        rintro rfl
        exact hix hb.symm
      · rintro ⟨⟨-, hy⟩, hb⟩
        exact ⟨hy, hb⟩
  · intro i hi
    show (Function.update t.buckets _ _ i).chain.Nodup
    by_cases hix : i = hashToBkt x.hashv t.numBuckets
    · rw [hix, Function.update_self]
      exact (h.chain_nodup _ hlt).erase _
    · rw [Function.update_of_ne hix]
      exact h.chain_nodup i hi
  · intro i hi
    show (Function.update t.buckets _ _ i).count =
      UInt32.ofNat (Function.update t.buckets _ _ i).chain.length
    by_cases hix : i = hashToBkt x.hashv t.numBuckets
    · rw [hix, Function.update_self]
      show (t.buckets _).count - 1 = UInt32.ofNat ((t.buckets _).chain.erase x).length
      rw [h.count _ hlt]
      exact ofNat_length_erase hin
    · rw [Function.update_of_ne hix]
      exact h.count i hi
  · show t.numItems - 1 = UInt32.ofNat (t.app.erase x).length
    rw [h.numItems]
    exact ofNat_length_erase hx

end

/-! ### Lookups -/

section

variable [DecidableEq κ]

/-- The entries with a key, in the order a lookup meets them. -/
def dups (hash : κ → UInt32) (head : Option (Table κ β)) (key : κ) : List β :=
  head.elim [] fun t =>
    ((t.buckets (hashToBkt (hash key) t.numBuckets)).chain.filter fun h =>
      h.hashv = hash key ∧ h.key = key).map Handle.elem

/-- A lookup takes the first of them. -/
theorem hashFind_eq_head? (hash : κ → UInt32) (head : Option (Table κ β)) (key : κ) :
    hashFind hash head key = (dups hash head key).head? := by
  cases head with
  | none => rfl
  | some t =>
    rw [hashFind, dups, Option.bind_some, Option.elim_some, List.head?_map, List.head?_filter]

theorem Inv.mem_dups (h : Inv hash t) {key : κ} {elem : β} :
    elem ∈ dups hash (some t) key ↔ (key, elem) ∈ entries (some t) := by
  have hlt := hashToBkt_lt h.numBuckets_pos (hash key)
  rw [dups, entries, Option.elim_some, Option.elim_some, List.mem_reverse, List.mem_map,
    List.mem_map]
  constructor
  · rintro ⟨x, hx, rfl⟩
    obtain ⟨hchain, hkey⟩ := List.mem_filter.mp hx
    obtain ⟨-, rfl⟩ := of_decide_eq_true hkey
    exact ⟨x, ((h.mem _ hlt x).mp hchain).1, rfl⟩
  · rintro ⟨x, hx, heq⟩
    obtain ⟨rfl, rfl⟩ := Prod.mk.inj heq
    have hhash := h.hashed x hx
    refine ⟨x, List.mem_filter.mpr ⟨(h.mem _ hlt x).mpr ⟨hx, by rw [hhash]⟩, ?_⟩, rfl⟩
    exact decide_eq_true ⟨hhash, rfl⟩

/-- A new entry is met before those with its key. -/
theorem dups_linked {x : Handle κ β} (hx : x.hashv = hash x.key) (key : κ) :
    dups hash (some (linked t x)) key =
      if x.key = key then x.elem :: dups hash (some t) key else dups hash (some t) key := by
  show (((Function.update t.buckets _ _) (hashToBkt (hash key) t.numBuckets)).chain.filter _).map
    Handle.elem = _
  by_cases hkey : x.key = key
  · subst hkey
    rw [if_pos rfl, hx, Function.update_self, List.filter_cons_of_pos (by simp [hx])]
    rfl
  · rw [if_neg hkey]
    by_cases hi : hashToBkt (hash key) t.numBuckets = hashToBkt x.hashv t.numBuckets
    · rw [hi, Function.update_self, List.filter_cons_of_neg (by simp [hkey]), ← hi]
      rfl
    · rw [Function.update_of_ne hi]
      rfl

/-- Only one of the lists counts. -/
theorem flatMap_range_single {γ : Type} {f : ℕ → List γ} {n i : ℕ} (hi : i < n)
    (h : ∀ j < n, j ≠ i → f j = []) : (List.range n).flatMap f = f i := by
  induction n with
  | zero => omega
  | succ n ih =>
    rw [List.range_succ, List.flatMap_append, List.flatMap_singleton]
    rcases Nat.lt_or_ge i n with hlt | hge
    · rw [ih hlt fun j hj => h j (by omega), h n (by omega) (by omega), List.append_nil]
    · obtain rfl : i = n := by omega
      have hnil : (List.range i).flatMap f = [] := by
        rw [List.flatMap_eq_nil_iff]
        intro j hj
        have hlt := List.mem_range.mp hj
        exact h j (by omega) (by omega)
      rw [hnil, List.nil_append]

/-- Doubling turns the order around. -/
theorem Inv.dups_expand (h : Inv hash t) (key : κ) :
    dups hash (some (hashExpandBuckets t)) key = (dups hash (some t) key).reverse := by
  have hlt := hashToBkt_lt h.numBuckets_pos (hash key)
  have hchain : ((hashExpandBuckets t).buckets
      (hashToBkt (hash key) (hashExpandBuckets t).numBuckets)).chain = _ :=
    (foldl_dealOut _ _ _ _ _).1
  have honly : ((List.range t.numBuckets.toNat).flatMap fun i =>
      (t.buckets i).chain.filter fun x => x.hashv = hash key ∧ x.key = key) =
      (t.buckets (hashToBkt (hash key) t.numBuckets)).chain.filter fun x =>
        x.hashv = hash key ∧ x.key = key := by
    refine flatMap_range_single hlt ?_
    intro j hj hne
    rw [List.filter_eq_nil_iff]
    intro x hx hmatch
    obtain ⟨hhash, -⟩ := of_decide_eq_true hmatch
    rw [← hhash] at hne
    exact hne ((h.mem j hj x).mp hx).2.symm
  rw [dups, dups, Option.elim_some, Option.elim_some, hchain, List.append_nil, List.filter_reverse,
    List.map_reverse, List.filter_filter, ← honly, ← List.filter_flatMap]
  congr 2
  refine List.filter_congr ?_
  intro x _
  -- what has the key is dealt to the bucket of the key
  rw [Bool.eq_iff_iff, Bool.and_eq_true, decide_eq_true_iff, decide_eq_true_iff]
  constructor
  · exact fun hboth => hboth.1
  · intro hmatch
    refine ⟨hmatch, ?_⟩
    rw [hmatch.1]
    rfl

end

theorem Inv.dups_unlinked [DecidableEq κ] [DecidableEq β] (h : Inv hash t) {x : Handle κ β}
    (hx : x ∈ t.app) (key : κ) :
    dups hash (some (Uthash.unlinked t x)) key = (dups hash (some t) key).erase x.elem := by
  have hlt := hashToBkt_lt h.numBuckets_pos (hash key)
  have hsub : ∀ y ∈ (t.buckets (hashToBkt (hash key) t.numBuckets)).chain, y ∈ t.app :=
    fun y hy => ((h.mem _ hlt y).mp hy).1
  have hchain : ((Uthash.unlinked t x).buckets (hashToBkt (hash key) t.numBuckets)).chain =
      (t.buckets (hashToBkt (hash key) t.numBuckets)).chain.filter fun y => y.elem ≠ x.elem := by
    have hne : ∀ y ∈ (t.buckets (hashToBkt (hash key) t.numBuckets)).chain,
        (decide (y ≠ x) = true ↔ decide (y.elem ≠ x.elem) = true) := by
      intro y hy
      rw [decide_eq_true_iff, decide_eq_true_iff, not_iff_not]
      exact ⟨congrArg _, h.eq_of_elem (hsub y hy) hx⟩
    show (Function.update t.buckets _ _ (hashToBkt (hash key) t.numBuckets)).chain = _
    by_cases hi : hashToBkt (hash key) t.numBuckets = hashToBkt x.hashv t.numBuckets
    · rw [hi, Function.update_self]
      show (t.buckets _).chain.erase x = _
      rw [← hi, (h.chain_nodup _ hlt).erase_eq_filter]
      refine List.filter_congr ?_
      intro y hy
      rw [Bool.eq_iff_iff]
      simpa using hne y hy
    · rw [Function.update_of_ne hi, eq_comm, List.filter_eq_self]
      intro y hy
      rw [← hne y hy, decide_eq_true_iff]
      rintro rfl
      exact hi ((h.mem _ hlt y).mp hy).2.symm
  have hnodup : (dups hash (some t) key).Nodup := by
    refine ((h.chain_nodup _ hlt).filter _).map_on ?_
    intro y hy z hz heq
    exact h.eq_of_elem (hsub y (List.mem_of_mem_filter hy)) (hsub z (List.mem_of_mem_filter hz)) heq
  rw [hnodup.erase_eq_filter, dups, dups, Option.elim_some, Option.elim_some]
  show (((Uthash.unlinked t x).buckets (hashToBkt (hash key) t.numBuckets)).chain.filter _).map _ =
    _
  rw [hchain, List.filter_map, List.filter_filter, List.filter_filter]
  congr 1
  refine List.filter_congr ?_
  intro y _
  rw [Bool.and_comm]
  congr 1
  rw [Bool.eq_iff_iff]
  simp

/-! ### Runs -/

inductive Act (κ β : Type)
  /-- `HASH_ADD`. -/
  | add (key : κ) (elem : β)
  /-- `HASH_DEL`. -/
  | delete (elem : β)

section

variable [DecidableEq κ] [DecidableEq β]

/-- The head of a table, as the calls leave it. -/
def step (hash : κ → UInt32) (head : Option (Table κ β)) :
    Act κ β → Option (Option (Table κ β))
  | .add key elem => some (some (hashAdd hash head key elem))
  | .delete elem => hashDelete head elem

/-- What is added is not in the table yet, and memory can be had for twice the buckets. -/
def Sound (head : Option (Table κ β)) : Act κ β → Prop
  | .add _ elem => elem ∉ (entries head).map Prod.snd ∧ (head.getD {}).numBuckets.toNat < 2 ^ 31
  | .delete _ => True

instance (head : Option (Table κ β)) : DecidablePred (Sound head)
  | .add .. => inferInstanceAs (Decidable (_ ∧ _))
  | .delete _ => inferInstanceAs (Decidable True)

/-- A list of entries, for what the table is for. -/
def listStep (l : List (κ × β)) : Act κ β → Option (List (κ × β))
  | .add key elem => some ((key, elem) :: l)
  | .delete elem => (l.find? fun e => e.2 = elem).map fun e => l.erase e

/-- The entries of every key in the order they are met, for what a lookup finds.  An act
comes with whether the table has doubled. -/
def orderStep (o : κ → List β) : Act κ β × Bool → Option (κ → List β)
  | (.add key elem, doubled) =>
    let o := Function.update o key (elem :: o key)
    some fun k => if doubled then (o k).reverse else o k
  | (.delete elem, _) => some fun k => (o k).erase elem

/-- The act, and whether the table doubles. -/
def doubling (hash : κ → UInt32) (head : Option (Table κ β)) (a : Act κ β) :
    List (Act κ β × Bool) :=
  match a with
  | .add key elem =>
    [(a, (hashAdd hash head key elem).numBuckets ≠ (head.getD {}).numBuckets)]
  | .delete _ => [(a, false)]

end

/-- The head is `NULL`, or a table that is in order and not empty. -/
structure HeadInv (hash : κ → UInt32) (head : Option (Table κ β)) : Prop where
  inv : Inv hash (head.getD {})
  nonempty : ∀ t ∈ head, t.app ≠ []

theorem entries_eq (head : Option (Table κ β)) :
    entries head = ((head.getD {}).app.map fun h => (h.key, h.elem)).reverse := by
  cases head <;> rfl

theorem mem_entries {head : Option (Table κ β)} {e : κ × β} :
    e ∈ entries head ↔ ∃ h ∈ (head.getD {}).app, (h.key, h.elem) = e := by
  rw [entries_eq, List.mem_reverse, List.mem_map]

theorem map_snd_entries (head : Option (Table κ β)) :
    (entries head).map Prod.snd = ((head.getD {}).app.map Handle.elem).reverse := by
  rw [entries_eq, List.map_reverse, List.map_map]
  rfl

theorem headInv_null : HeadInv hash (none : Option (Table κ β)) := ⟨inv_empty, by simp⟩

theorem dups_eq [DecidableEq κ] (head : Option (Table κ β)) (key : κ) :
    dups hash head key = dups hash (some (head.getD {})) key := by
  cases head <;> rfl

theorem HeadInv.mem_dups [DecidableEq κ] {head : Option (Table κ β)} (h : HeadInv hash head)
    {key : κ} {elem : β} :
    elem ∈ dups hash head key ↔ (key, elem) ∈ entries head := by
  rw [dups_eq, entries_eq, h.inv.mem_dups, entries_eq]
  rfl

theorem HeadInv.add [DecidableEq κ] {head : Option (Table κ β)} (h : HeadInv hash head)
    {key : κ} {elem : β} (hs : Sound head (.add key elem)) :
    HeadInv hash (some (hashAdd hash head key elem)) ∧
      entries (some (hashAdd hash head key elem)) = (key, elem) :: entries head ∧
      ∀ k, dups hash (some (hashAdd hash head key elem)) k =
        let met := if key = k then elem :: dups hash head k else dups hash head k
        if (hashAdd hash head key elem).numBuckets ≠ (head.getD {}).numBuckets then met.reverse
        else met := by
  obtain ⟨hfresh, hroom⟩ := hs
  rw [map_snd_entries, List.mem_reverse] at hfresh
  have hlinked := h.inv.linked (x := ⟨elem, key, hash key⟩) rfl hfresh
  have hentries : entries (some (linked (head.getD {}) ⟨elem, key, hash key⟩)) =
      (key, elem) :: entries head := by
    rw [entries_eq, entries_eq, Option.getD_some]
    show (((head.getD {}).app ++ [_]).map _).reverse = _
    rw [List.map_append, List.reverse_append]
    rfl
  have hdups : ∀ k, dups hash (some (linked (head.getD {}) ⟨elem, key, hash key⟩)) k = _ :=
    dups_linked rfl
  have hpos := h.inv.numBuckets_pos
  rcases hashAdd_cases hash head key elem with heq | heq
  · rw [heq]
    refine ⟨⟨hlinked, ?_⟩, hentries, ?_⟩
    · rintro t ⟨⟩
      exact List.append_ne_nil_of_right_ne_nil _ (by simp)
    · intro k
      rw [hdups, ← dups_eq]
      exact (if_neg (by simp [linked])).symm
  · rw [heq]
    refine ⟨⟨hlinked.expand hroom, ?_⟩, hentries, ?_⟩
    · rintro t ⟨⟩
      exact List.append_ne_nil_of_right_ne_nil _ (by simp)
    · intro k
      rw [hlinked.dups_expand, hdups, ← dups_eq]
      refine (if_pos ?_).symm
      show (head.getD {}).numBuckets * 2 ≠ (head.getD {}).numBuckets
      intro hsame
      have hnat := congrArg UInt32.toNat hsame
      rw [UInt32.toNat_mul] at hnat
      have : (head.getD {}).numBuckets.toNat * 2 % 2 ^ 32 = (head.getD {}).numBuckets.toNat := hnat
      omega

section

variable [DecidableEq κ] [DecidableEq β] {head head' : Option (Table κ β)}

theorem HeadInv.delete (h : HeadInv hash head) {elem : β}
    (hd : hashDelete head elem = some head') :
    HeadInv hash head' ∧ listStep (entries head) (.delete elem) = some (entries head') ∧
      ∀ k, dups hash head' k = (dups hash head k).erase elem := by
  obtain ⟨t, rfl, hd⟩ := Option.bind_eq_some_iff.mp hd
  obtain ⟨x, hfind, rfl⟩ := Option.map_eq_some_iff.mp hd
  have hinv : Inv hash t := h.inv
  have hx : x ∈ t.app := List.mem_of_find?_eq_some hfind
  obtain rfl : x.elem = elem := by simpa using List.find?_some hfind
  have hunlinked := hinv.unlinked hx
  -- the list loses the entry
  have hlist : listStep (entries (some t)) (.delete x.elem) =
      some (entries (some (unlinked t x))) := by
    have hentry : ((entries (some t)).find? fun e => e.2 = x.elem) = some (x.key, x.elem) := by
      cases hget : (entries (some t)).find? fun e => e.2 = x.elem with
      | none =>
        rw [List.find?_eq_none] at hget
        exact absurd (hget _ (mem_entries.mpr ⟨x, hx, rfl⟩)) (by simp)
      | some e =>
        obtain ⟨y, hy, rfl⟩ := mem_entries.mp (List.mem_of_find?_eq_some hget)
        have helem : y.elem = x.elem := by simpa using List.find?_some hget
        rw [hinv.eq_of_elem hy hx helem]
    have hnodup : (entries (some t)).Nodup := by
      refine List.Nodup.of_map Prod.snd ?_
      rw [map_snd_entries, List.nodup_reverse]
      exact hinv.nodup
    rw [listStep, hentry, Option.map_some, hnodup.erase_eq_filter, entries_eq, entries_eq,
      List.filter_reverse, List.filter_map]
    show some ((_ : List _).map _).reverse = some ((t.app.erase x).map _).reverse
    rw [hinv.app_nodup.erase_eq_filter]
    congr 3
    refine List.filter_congr ?_
    intro y hy
    rw [Bool.eq_iff_iff, Function.comp_apply]
    simp only [bne_iff_ne, ne_eq, Prod.mk.injEq, not_iff_not]
    constructor
    · exact fun hboth => hinv.eq_of_elem hy hx hboth.2
    · rintro rfl
      exact ⟨rfl, rfl⟩
  have hdups := fun k => hinv.dups_unlinked hx k
  by_cases hone : t.app.length = 1
  · rw [if_pos hone]
    have hnil : t.app.erase x = [] := by
      rw [← List.length_eq_zero_iff, List.length_erase_of_mem hx, hone]
    have hempty : entries (some (unlinked t x)) = [] := by
      rw [entries_eq]
      show ((t.app.erase x).map _).reverse = []
      rw [hnil]
      rfl
    refine ⟨headInv_null, hlist.trans (by rw [hempty]; rfl), ?_⟩
    intro k
    rw [← hdups k]
    refine Eq.symm (List.eq_nil_iff_forall_not_mem.mpr ?_)
    intro b hb
    rw [hunlinked.mem_dups, hempty] at hb
    exact absurd hb (by simp)
  · rw [if_neg hone]
    refine ⟨⟨hunlinked, ?_⟩, hlist, hdups⟩
    rintro t' ⟨⟩ hnil
    have hlen := List.length_erase_of_mem hx
    have hpos := List.length_pos_of_mem hx
    have : (t.app.erase x).length = 0 := by
      rw [List.length_eq_zero_iff]
      exact hnil
    omega

/-- A deletion that is undefined is one of something that is not in the list. -/
theorem listStep_of_hashDelete_eq_none {elem : β} (hd : hashDelete head elem = none) :
    listStep (entries head) (.delete elem) = none := by
  rw [listStep, Option.map_eq_none_iff, List.find?_eq_none]
  intro e he helem
  obtain ⟨h, hh, rfl⟩ := mem_entries.mp he
  cases head with
  | none => exact absurd hh (by simp)
  | some t =>
    rw [hashDelete, Option.bind_some, Option.map_eq_none_iff, List.find?_eq_none] at hd
    exact hd h hh helem

theorem HeadInv.step (h : HeadInv hash head) {a : Act κ β} (hs : Sound head a)
    (hstep : Uthash.step hash head a = some head') : HeadInv hash head' := by
  cases a with
  | add key elem => exact Option.some_inj.mp hstep ▸ (h.add hs).1
  | delete elem => exact (h.delete hstep).1

/-- A call does to the table what it does to the list. -/
theorem HeadInv.map_entries (h : HeadInv hash head) {a : Act κ β} (hs : Sound head a) :
    (Uthash.step hash head a).map entries = listStep (entries head) a := by
  cases a with
  | add key elem => exact congrArg some (h.add hs).2.1
  | delete elem =>
    rw [Uthash.step]
    cases hd : hashDelete head elem with
    | none => exact (listStep_of_hashDelete_eq_none hd).symm
    | some head' => exact (h.delete hd).2.1.symm

/-- `HASH_FIND` on the table, as a lookup in the list. -/
theorem HeadInv.exists_lookup (h : HeadInv hash head) :
    ∃ L : Multimap.Lookup κ β, ∀ key, L.find (entries head) key = hashFind hash head key := by
  refine ⟨{
    find := fun l key =>
      if l = entries head then hashFind hash head key else Multimap.Lookup.first.find l key
    mem_of_find := ?_
    ne_none_of_mem := ?_ }, fun key => if_pos rfl⟩
  · intro l key elem hfind
    split at hfind
    · rename_i hl
      rw [hashFind_eq_head?] at hfind
      rw [hl, ← h.mem_dups]
      exact List.mem_of_head? hfind
    · exact Multimap.Lookup.first.mem_of_find hfind
  · intro l key elem hmem
    split
    · rename_i hl
      rw [hl, ← h.mem_dups] at hmem
      rw [hashFind_eq_head?, Ne, List.head?_eq_none_iff]
      exact List.ne_nil_of_mem hmem
    · exact Multimap.Lookup.first.ne_none_of_mem hmem

/-- **A table is its list of entries.**  For every hash function, a run of additions and
deletions does to the table what it does to the list; the head is `NULL` exactly when the
list is empty, `HASH_CNT` is its length, and `HASH_FIND` is a lookup in it. -/
theorem run_lookup {as : List (Act κ β)} (hm : Machine.Meets (step hash) Sound none as) :
    (Machine.run (step hash) none as).map entries = Machine.run listStep [] as ∧
    ∀ head, Machine.run (step hash) none as = some head →
      (head = none ↔ entries head = []) ∧
      (∀ t ∈ head, t.numItems = UInt32.ofNat (entries head).length) ∧
      ∃ L : Multimap.Lookup κ β, ∀ key, L.find (entries head) key = hashFind hash head key := by
  constructor
  · exact Machine.run_map_of_meets (fun _ _ _ hi hs => hi.step hs)
      (fun _ _ hi hs => hi.map_entries hs) headInv_null hm
  · intro head hr
    have h : HeadInv hash head := Machine.run_inv_of_meets (fun _ _ _ hi hs => hi.step hs)
      headInv_null hm hr
    refine ⟨?_, ?_, h.exists_lookup⟩
    · cases head with
      | none => exact iff_of_true rfl rfl
      | some t =>
        refine iff_of_false (Option.some_ne_none t) ?_
        rw [entries_eq, List.reverse_eq_nil_iff.not, List.map_eq_nil_iff]
        exact h.nonempty t rfl
    · rintro t ⟨⟩
      have hcount : t.numItems = UInt32.ofNat t.app.length := h.inv.numItems
      rw [hcount, entries_eq, List.length_reverse, List.length_map]
      rfl

/-- The hash of a queue pair number, least significant byte first in memory. -/
def qpNumHash (qpNum : UInt32) : UInt32 :=
  hashJen [qpNum.toUInt8, (qpNum >>> 8).toUInt8, (qpNum >>> 16).toUInt8, (qpNum >>> 24).toUInt8]

example : hashJen [7, 0, 0, 0] = 3006682874 := by decide +kernel

/-- Three entries, two of them under the number 7, of which the second one goes again. -/
theorem run_lookup_reused : ∃ head,
    Machine.run (step qpNumHash) none [.add 7 1, .add 9 2, .add 7 3, .delete 3] = some head ∧
      entries head = [(9, 2), (7, 1)] ∧
      ∃ L : Multimap.Lookup UInt32 ℕ, L.find [(9, 2), (7, 1)] 7 = some 1 := by
  have hrun : ((Machine.run (step qpNumHash) none
      [.add 7 1, .add 9 2, .add 7 3, .delete 3]).map fun head =>
        (entries head, hashFind qpNumHash head 7)) = some ([(9, 2), (7, 1)], some 1) := by
    decide +kernel
  obtain ⟨head, hr, heq⟩ := Option.map_eq_some_iff.mp hrun
  obtain ⟨hentries, hfind⟩ := Prod.mk.inj heq
  obtain ⟨-, -, L, hL⟩ := (@run_lookup _ _ qpNumHash _ _ _ (by decide +kernel)).2 head hr
  exact ⟨head, hr, hentries, L, by rw [← hentries, hL, hfind]⟩

theorem HeadInv.order (h : HeadInv hash head) {o : κ → List β} (ho : ∀ k, dups hash head k = o k)
    {a : Act κ β} (hs : Sound head a) (hstep : Uthash.step hash head a = some head') :
    ∃ o', Machine.run orderStep o (doubling hash head a) = some o' ∧
      HeadInv hash head' ∧ ∀ k, dups hash head' k = o' k := by
  cases a with
  | add key elem =>
    obtain rfl := Option.some_inj.mp hstep
    obtain ⟨hinv, -, hdups⟩ := h.add hs
    refine ⟨_, rfl, hinv, ?_⟩
    intro k
    have hmet : Function.update o key (elem :: o key) k =
        if key = k then elem :: dups hash head k else dups hash head k := by
      by_cases hk : key = k
      · rw [if_pos hk, ← hk, Function.update_self, ho]
      · rw [if_neg hk, Function.update_of_ne (Ne.symm hk), ho]
    rw [hdups]
    dsimp only
    rw [← hmet]
    congr 1
    rw [decide_eq_true_iff]
  | delete elem =>
    obtain ⟨hinv, -, hdups⟩ := h.delete hstep
    refine ⟨_, rfl, hinv, ?_⟩
    intro k
    rw [hdups, ho]

/-- **Which entry is found.**  Of several entries with one key `HASH_FIND` takes the first
in an order that holds the one added last in front and that is turned around, for all keys,
whenever an addition doubles the table; nothing else changes it. -/
theorem run_dups {as : List (Act κ β)} (hm : Machine.Meets (step hash) Sound none as)
    {head : Option (Table κ β)} (hr : Machine.run (step hash) none as = some head) :
    ∃ o, Machine.run orderStep (fun _ => [])
        (Machine.translate (step hash) (doubling hash) none as) = some o ∧
      ∀ key, hashFind hash head key = (o key).head? := by
  obtain ⟨o, ho, -, hdups⟩ := Machine.exists_run_of_meets
    (R := fun head (o : κ → List β) => HeadInv hash head ∧ ∀ k, dups hash head k = o k)
    (fun _ _ _ _ hR hs hstep => hR.1.order hR.2 hs hstep) ⟨headInv_null, fun _ => rfl⟩ hm hr
  exact ⟨o, ho, fun key => by rw [hashFind_eq_head?, hdups]⟩

/-- Two entries under 7 and seven others in their bucket. -/
def crowded : List (Act ℕ ℕ) :=
  [.add 7 1, .add 7 2] ++ (List.range 7).map fun i => .add (10 + i) (10 + i)

/-- The entry found under 7 is another one once the tenth entry of the bucket is added. -/
theorem run_dups_turned : ∃ head head',
    Machine.run (step fun _ => 0) none crowded = some head ∧
      Machine.run (step fun _ => 0) none (crowded ++ [.add 20 20]) = some head' ∧
      hashFind (fun _ => 0) head 7 = some 2 ∧ hashFind (fun _ => 0) head' 7 = some 1 := by
  have hrun : ((Machine.run (step fun _ => 0) none crowded).map fun head =>
      hashFind (fun _ => 0) head 7) = some (some 2) := by decide +kernel
  obtain ⟨head, hr, hfind⟩ := Option.map_eq_some_iff.mp hrun
  have hsome : (Machine.run (step fun _ => 0) none (crowded ++ [.add 20 20])).isSome := by
    decide +kernel
  obtain ⟨head', hr'⟩ := Option.isSome_iff_exists.mp hsome
  obtain ⟨o, ho, hfind'⟩ := @run_dups _ _ (fun _ => 0) _ _ _ (by decide +kernel) _ hr'
  have horder : ((Machine.run orderStep (fun _ => [])
      (Machine.translate (step fun _ => 0) (doubling fun _ => 0) none
        (crowded ++ [.add 20 20]))).map fun o => o 7) = some [1, 2] := by decide +kernel
  rw [ho, Option.map_some, Option.some_inj] at horder
  exact ⟨head, head', hr, hr', hfind, by rw [hfind', horder]; rfl⟩

/-- Deleting the element the iteration is at leaves those behind it. -/
theorem HeadInv.iterDel (h : HeadInv hash head) {l : List (Handle κ β)}
    (hl : (head.getD {}).app = l) {fuel : ℕ} (hfuel : l.length ≤ fuel) :
    Uthash.iterDel fuel head (l.head?.map Handle.elem) (l.tail.head?.map Handle.elem) =
      some (none, l.map Handle.elem) := by
  induction l generalizing head fuel with
  | nil =>
    cases head with
    | none => cases fuel <;> rfl
    | some t => exact absurd hl (h.nonempty t rfl)
  | cons x l ih =>
    cases head with
    | none => exact absurd hl (by simp)
    | some t =>
      obtain ⟨fuel, rfl⟩ : ∃ n, fuel = n + 1 := ⟨fuel - 1, by rw [List.length_cons] at hfuel; omega⟩
      have happ : t.app = x :: l := hl
      obtain ⟨head', hd, happ'⟩ : ∃ head', hashDelete (some t) x.elem = some head' ∧
          (head'.getD {}).app = l := by
        rw [hashDelete, Option.bind_some, happ, List.find?_cons_of_pos (by simp), Option.map_some]
        by_cases hone : (x :: l).length = 1
        · rw [if_pos hone]
          refine ⟨none, rfl, ?_⟩
          rw [List.length_cons] at hone
          exact (List.length_eq_zero_iff.mp (by omega)).symm
        · rw [if_neg hone]
          exact ⟨_, rfl, List.erase_cons_head x l⟩
      have hnext : (l.head?.map Handle.elem).bind (nextElem head') =
          l.tail.head?.map Handle.elem := by
        cases l with
        | nil => rfl
        | cons y l =>
          cases head' with
          | none => exact absurd happ' (by simp)
          | some t' =>
            have happ₁ : t'.app = y :: l := happ'
            rw [List.head?_cons, Option.map_some, Option.bind_some, nextElem, Option.bind_some,
              happ₁, List.dropWhile_cons_of_neg (by simp), List.tail_cons]
      rw [List.head?_cons, Option.map_some, List.tail_cons, Uthash.iterDel, hd, Option.bind_some,
        hnext, ih (h.delete hd).1 happ' (by rw [List.length_cons] at hfuel; omega)]
      rfl

/-- **The loops of `rc_disconnect`** come to every entry of a table once, in the order of
their additions, and leave `NULL`. -/
theorem run_clear {as : List (Act κ β)} (hm : Machine.Meets (step hash) Sound none as)
    {head : Option (Table κ β)} (hr : Machine.run (step hash) none as = some head) {fuel : ℕ}
    (hfuel : (entries head).length ≤ fuel) :
    clear fuel head = some (none, ((entries head).map Prod.snd).reverse) := by
  have h : HeadInv hash head := Machine.run_inv_of_meets (fun _ _ _ hi hs => hi.step hs)
    headInv_null hm hr
  rw [entries_eq, List.length_reverse, List.length_map] at hfuel
  rw [map_snd_entries, List.reverse_reverse, ← h.iterDel rfl hfuel, clear]
  cases head with
  | none => rfl
  | some t =>
    rw [Option.bind_some, Option.getD_some]
    congr 1
    cases happ : t.app with
    | nil => rfl
    | cons x l =>
      rw [List.head?_cons, Option.map_some, Option.bind_some, nextElem, Option.bind_some, happ,
        List.dropWhile_cons_of_neg (by simp)]

theorem run_clear_three : ∃ head,
    Machine.run (step qpNumHash) none [.add 7 1, .add 9 2, .add 7 3] = some head ∧
      clear 3 head = some (none, [1, 2, 3]) := by
  have hrun : ((Machine.run (step qpNumHash) none [.add 7 1, .add 9 2, .add 7 3]).map entries) =
      some [(7, 3), (9, 2), (7, 1)] := by decide +kernel
  obtain ⟨head, hr, hentries⟩ := Option.map_eq_some_iff.mp hrun
  have hclear := @run_clear _ _ qpNumHash _ _ _ (by decide +kernel) head hr 3
    (by rw [hentries]; decide)
  rw [hentries] at hclear
  exact ⟨head, hr, hclear⟩

end

end Uthash

end Rdma
