/-
Bytes in a flat memory.

Numbers are laid out in `n` bytes with the least (`leBytes`) or the most
significant byte first (`beBytes`), and read back with `ofLe` and `ofBe`.  A
memory maps addresses to bytes; `store` and `load` move runs of them, `scatter`
and `gather` move bytes over several segments.

* `leBytes_ofLe`, `ofLe_leBytes` — the two directions of the round trip;
* `leBytes_or`, `leBytes_and` — bit operations work byte by byte;
* `load_store`, `load_store_of_disjoint` — what a load sees of a store.
-/
import Mathlib.Data.List.GetD
import Mathlib.Logic.Function.Basic
import Mathlib.Algebra.Order.Ring.Nat
import Mathlib.Tactic.Common

namespace Bytes

/-! ### Numbers -/

/-- The `n` low bytes of `x`, least significant first. -/
def leBytes : ℕ → ℕ → List UInt8
  | 0, _ => []
  | n + 1, x => UInt8.ofNat x :: leBytes n (x / 2 ^ 8)

/-- The number with these bytes, least significant first. -/
def ofLe : List UInt8 → ℕ
  | [] => 0
  | b :: bs => b.toNat + 2 ^ 8 * ofLe bs

/-- The `n` low bytes of `x`, most significant first. -/
def beBytes (n x : ℕ) : List UInt8 := (leBytes n x).reverse

/-- The number with these bytes, most significant first. -/
def ofBe (bs : List UInt8) : ℕ := ofLe bs.reverse

@[simp] theorem length_leBytes (n x : ℕ) : (leBytes n x).length = n := by
  induction n generalizing x with
  | zero => rfl
  | succ n ih => rw [leBytes, List.length_cons, ih]

@[simp] theorem length_beBytes (n x : ℕ) : (beBytes n x).length = n := by
  rw [beBytes, List.length_reverse, length_leBytes]

theorem leBytes_ofLe (bs : List UInt8) : leBytes bs.length (ofLe bs) = bs := by
  induction bs with
  | nil => rfl
  | cons b bs ih =>
    have hlt : b.toNat < 2 ^ 8 := b.toNat_lt
    have hdiv : (b.toNat + 2 ^ 8 * ofLe bs) / 2 ^ 8 = ofLe bs := by omega
    have hmod : UInt8.ofNat (b.toNat + 2 ^ 8 * ofLe bs) = b := by
      rw [← UInt8.toNat_inj, UInt8.toNat_ofNat']
      omega
    rw [List.length_cons, ofLe, leBytes, hdiv, ih, hmod]

theorem leBytes_ofLe_of_length {bs : List UInt8} {n : ℕ} (h : bs.length = n) :
    leBytes n (ofLe bs) = bs := by
  rw [← h, leBytes_ofLe]

theorem ofLe_leBytes (n x : ℕ) : ofLe (leBytes n x) = x % 2 ^ (8 * n) := by
  induction n generalizing x with
  | zero => rw [leBytes, ofLe, Nat.mul_zero, Nat.pow_zero, Nat.mod_one]
  | succ n ih =>
    rw [leBytes, ofLe, ih, UInt8.toNat_ofNat', Nat.mul_succ, Nat.add_comm (8 * n), Nat.pow_add,
      Nat.mod_mul]

theorem beBytes_ofLe {bs : List UInt8} {n : ℕ} (h : bs.length = n) :
    beBytes n (ofLe bs) = bs.reverse := by
  rw [beBytes, leBytes_ofLe_of_length h]

theorem ofBe_beBytes {n x : ℕ} (h : x < 2 ^ (8 * n)) : ofBe (beBytes n x) = x := by
  rw [ofBe, beBytes, List.reverse_reverse, ofLe_leBytes, Nat.mod_eq_of_lt h]

/-- Bytes of one length that give one number are the same. -/
theorem eq_of_ofLe_eq {as bs : List UInt8} (hlen : as.length = bs.length)
    (h : ofLe as = ofLe bs) : as = bs := by
  rw [← leBytes_ofLe as, h, hlen, leBytes_ofLe]

theorem leBytes_or (n x y : ℕ) :
    leBytes n (x ||| y) = List.zipWith (· ||| ·) (leBytes n x) (leBytes n y) := by
  induction n generalizing x y with
  | zero => rfl
  | succ n ih =>
    rw [leBytes, leBytes, leBytes, List.zipWith_cons_cons, Nat.or_div_two_pow, ih,
      UInt8.ofNat_or]

theorem and_255 (b : UInt8) : b &&& 255 = b := UInt8.and_neg_one

theorem leBytes_and (n x y : ℕ) :
    leBytes n (x &&& y) = List.zipWith (· &&& ·) (leBytes n x) (leBytes n y) := by
  induction n generalizing x y with
  | zero => rfl
  | succ n ih =>
    rw [leBytes, leBytes, leBytes, List.zipWith_cons_cons, Nat.and_div_two_pow, ih,
      UInt8.ofNat_and]

/-! ### Memory -/

/-- A byte at every address. -/
abbrev Mem := ℕ → UInt8

/-- The `n` bytes from `a` on. -/
def load (m : Mem) (a n : ℕ) : List UInt8 := (List.range n).map fun i => m (a + i)

/-- The memory with `bs` written from `a` on. -/
def store (m : Mem) (a : ℕ) (bs : List UInt8) : Mem := fun x =>
  if a ≤ x then (bs[x - a]?).getD (m x) else m x

@[simp] theorem length_load (m : Mem) (a n : ℕ) : (load m a n).length = n := by
  simp [load]

theorem getElem?_load {m : Mem} {a n i : ℕ} (h : i < n) : (load m a n)[i]? = some (m (a + i)) := by
  simp [load, h]

theorem load_add (m : Mem) (a n k : ℕ) : load m a (n + k) = load m a n ++ load m (a + n) k := by
  simp [load, List.range_add, Nat.add_assoc]

theorem take_load {m : Mem} {a n k : ℕ} (h : k ≤ n) : (load m a n).take k = load m a k := by
  obtain ⟨r, rfl⟩ : ∃ r, n = k + r := ⟨n - k, by omega⟩
  have htake : (load m a k ++ load m (a + k) r).take (load m a k).length = load m a k :=
    List.take_left
  rwa [length_load, ← load_add] at htake

theorem drop_load {m : Mem} {a n k : ℕ} (h : k ≤ n) :
    (load m a n).drop k = load m (a + k) (n - k) := by
  obtain ⟨r, rfl⟩ : ∃ r, n = k + r := ⟨n - k, by omega⟩
  have hdrop : (load m a k ++ load m (a + k) r).drop (load m a k).length = load m (a + k) r :=
    List.drop_left
  rw [Nat.add_sub_cancel_left]
  rwa [length_load, ← load_add] at hdrop

theorem store_of_outside {m : Mem} {a x : ℕ} {bs : List UInt8}
    (h : x < a ∨ a + bs.length ≤ x) : store m a bs x = m x := by
  rw [store]
  split
  · rw [List.getElem?_eq_none (by omega)]
    rfl
  · rfl

theorem store_add {m : Mem} {a i : ℕ} {bs : List UInt8} {b : UInt8} (h : bs[i]? = some b) :
    store m a bs (a + i) = b := by
  rw [store, if_pos (Nat.le_add_right a i), Nat.add_sub_cancel_left, h]
  rfl

theorem store_nil {m : Mem} {a : ℕ} : store m a [] = m :=
  funext fun x => store_of_outside (by simp; omega)

theorem store_cons {m : Mem} {a : ℕ} {b : UInt8} {bs : List UInt8} :
    store m a (b :: bs) = store (Function.update m a b) (a + 1) bs := by
  funext x
  rcases Nat.lt_trichotomy x a with hx | rfl | hx
  · rw [store_of_outside (Or.inl hx), store_of_outside (Or.inl (by omega)),
      Function.update_of_ne (by omega)]
  · rw [store_of_outside (a := x + 1) (Or.inl (by omega)), Function.update_self]
    exact store_add (i := 0) rfl
  · rw [store, store, if_pos (by omega), if_pos (by omega), Function.update_of_ne (by omega),
      show x - a = x - (a + 1) + 1 by omega, List.getElem?_cons_succ]

/-- A run is stored piece by piece. -/
theorem store_append {m : Mem} {a : ℕ} {as bs : List UInt8} :
    store m a (as ++ bs) = store (store m a as) (a + as.length) bs := by
  induction as generalizing m a with
  | nil => rw [store_nil]; rfl
  | cons b as ih =>
    rw [List.cons_append, store_cons, store_cons, ih, List.length_cons, Nat.add_assoc,
      Nat.add_comm 1]

/-- Stores apart from each other can be made in either order. -/
theorem store_comm {m : Mem} {a b : ℕ} {as bs : List UInt8}
    (h : a + as.length ≤ b ∨ b + bs.length ≤ a) :
    store (store m a as) b bs = store (store m b bs) a as := by
  funext x
  by_cases ha : x < a ∨ a + as.length ≤ x
  · rw [store_of_outside ha]
    by_cases hb : x < b ∨ b + bs.length ≤ x
    · rw [store_of_outside hb, store_of_outside hb, store_of_outside ha]
    · obtain ⟨i, rfl⟩ : ∃ i, x = b + i := ⟨x - b, by omega⟩
      have hi := List.getElem?_eq_getElem (show i < bs.length by omega)
      rw [store_add hi, store_add hi]
  · obtain ⟨i, rfl⟩ : ∃ i, x = a + i := ⟨x - a, by omega⟩
    have hi := List.getElem?_eq_getElem (show i < as.length by omega)
    rw [store_of_outside (by omega), store_add hi, store_add hi]

/-- A load within a store. -/
theorem load_store {m : Mem} {a b n : ℕ} {bs : List UInt8} (ha : a ≤ b)
    (hb : b + n ≤ a + bs.length) : load (store m a bs) b n = (bs.drop (b - a)).take n := by
  obtain ⟨i, rfl⟩ : ∃ i, b = a + i := ⟨b - a, by omega⟩
  rw [Nat.add_sub_cancel_left]
  refine List.ext_getElem? ?_
  intro j
  rcases Nat.lt_or_ge j n with hj | hj
  · obtain ⟨c, hc⟩ : ∃ c, bs[i + j]? = some c := ⟨_, List.getElem?_eq_getElem (by omega)⟩
    rw [getElem?_load hj, List.getElem?_take_of_lt hj, List.getElem?_drop, hc, Nat.add_assoc,
      store_add hc]
  · rw [List.getElem?_eq_none (by simpa using hj), List.getElem?_eq_none (by simp; omega)]

theorem load_store_self {m : Mem} {a n : ℕ} {bs : List UInt8} (h : bs.length = n) :
    load (store m a bs) a n = bs := by
  subst h
  rw [load_store (Nat.le_refl a) (Nat.le_refl _), Nat.sub_self, List.drop_zero, List.take_length]

/-- A load apart from a store. -/
theorem load_store_of_disjoint {m : Mem} {a b n : ℕ} {bs : List UInt8}
    (h : a + n ≤ b ∨ b + bs.length ≤ a) : load (store m b bs) a n = load m a n := by
  refine List.map_congr_left ?_
  intro i hi
  have := List.mem_range.mp hi
  exact store_of_outside (by omega)

/-! Loads after stores of numbers, for rewriting with `omega`. -/

section

variable {m : Mem} {a b n k x : ℕ}

@[simp] theorem load_store_beBytes : load (store m a (beBytes n x)) a n = beBytes n x :=
  load_store_self (length_beBytes n x)

@[simp] theorem load_store_leBytes : load (store m a (leBytes n x)) a n = leBytes n x :=
  load_store_self (length_leBytes n x)

@[simp] theorem load_store_byte {c : UInt8} : load (store m a [c]) a 1 = [c] :=
  load_store_self rfl

theorem load_store_beBytes_of_disjoint (h : a + n ≤ b ∨ b + k ≤ a) :
    load (store m b (beBytes k x)) a n = load m a n :=
  load_store_of_disjoint (by rwa [length_beBytes])

theorem load_store_leBytes_of_disjoint (h : a + n ≤ b ∨ b + k ≤ a) :
    load (store m b (leBytes k x)) a n = load m a n :=
  load_store_of_disjoint (by rwa [length_leBytes])

theorem load_store_byte_of_disjoint {c : UInt8} (h : a + n ≤ b ∨ b + 1 ≤ a) :
    load (store m b [c]) a n = load m a n :=
  load_store_of_disjoint h

end

/-- A little-endian number copied elsewhere big-endian is its bytes reversed. -/
theorem load_store_swapped {m : Mem} {a b n : ℕ} (h : a + n ≤ b ∨ b + n ≤ a) :
    load (store m a (beBytes n (ofLe (load m b n)))) a n =
      (load (store m a (beBytes n (ofLe (load m b n)))) b n).reverse := by
  rw [load_store_beBytes_of_disjoint h.symm, load_store_beBytes, beBytes_ofLe (length_load m b n)]

/-! ### Scatter and gather -/

/-- The bytes of a list of segments, each an address and a length. -/
def gather (m : Mem) (segs : List (ℕ × ℕ)) : List UInt8 :=
  segs.flatMap fun seg => load m seg.1 seg.2

/-- The memory with `bs` spread over the segments, in order. -/
def scatter (m : Mem) : List (ℕ × ℕ) → List UInt8 → Mem
  | [], _ => m
  | seg :: segs, bs => scatter (store m seg.1 (bs.take seg.2)) segs (bs.drop seg.2)

/-- What a scatter over two segments stores. -/
theorem scatter_pair {m : Mem} {s t : ℕ × ℕ} {as bs : List UInt8} (has : as.length = s.2)
    (hbs : bs.length = t.2) :
    scatter m [s, t] (as ++ bs) = store (store m s.1 as) t.1 bs := by
  rw [scatter, scatter, scatter, ← has, List.take_left, List.drop_left, ← hbs, List.take_length]

/-- What a scatter over one segment stores. -/
theorem scatter_single {m : Mem} {s : ℕ × ℕ} {bs : List UInt8} (hbs : bs.length = s.2) :
    scatter m [s] bs = store m s.1 bs := by
  rw [scatter, scatter, ← hbs, List.take_length]

/-- Over segments of one byte each, from the last address down, the bytes are stored in reverse. -/
theorem scatter_down {m : Mem} {a n : ℕ} {bs : List UInt8} (hbs : bs.length = n) :
    scatter m ((List.range n).map fun i => (a + n - 1 - i, 1)) bs = store m a bs.reverse := by
  induction bs generalizing m n with
  | nil =>
    obtain rfl := hbs
    exact store_nil.symm
  | cons b bs ih =>
    obtain rfl : n = bs.length + 1 := hbs.symm
    have hrest (i : ℕ) : a + (bs.length + 1) - 1 - (i + 1) = a + bs.length - 1 - i := by omega
    rw [List.range_succ_eq_map, List.map_cons, List.map_map, scatter]
    simp only [Function.comp_def, Nat.succ_eq_add_one, hrest]
    -- the byte stored first is the last of the run
    show scatter (store m (a + bs.length) [b]) _ bs = _
    rw [ih rfl, store_comm (by simp), List.reverse_cons, store_append, List.length_reverse]

end Bytes
