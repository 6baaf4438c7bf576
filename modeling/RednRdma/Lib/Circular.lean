/-
Bytes around a circle.

A `Circular` is a run of memory whose last byte is followed by its first.  Offsets count on
from lap to lap, and `Circular.store` and `Circular.load` follow them around.

* `Circular.store_append` — a run is stored piece by piece;
* `Circular.load_store` — what a load sees of a store that does not lap itself;
* `Circular.store_eq_store`, `Circular.At.store_split` — a store that stays before the end is a
  store in the flat memory, and one that goes past it is two.
-/
import RednRdma.Lib.Bytes

namespace Bytes

structure Circular where
  base : ℕ
  size : ℕ
  size_pos : 0 < size

namespace Circular

/-- Where the byte at offset `o` is. -/
def addr (c : Circular) (o : ℕ) : ℕ := c.base + o % c.size

/-- The `n` bytes from offset `o` on. -/
def load (c : Circular) (m : Mem) (o n : ℕ) : List UInt8 :=
  (List.range n).map fun i => m (c.addr (o + i))

/-- The memory with `bs` written from offset `o` on. -/
def store (c : Circular) (m : Mem) (o : ℕ) : List UInt8 → Mem
  | [] => m
  | b :: bs => c.store (Function.update m (c.addr o) b) (o + 1) bs

variable {c : Circular} {m : Mem} {o i j n x : ℕ} {as bs : List UInt8}

/-! ### Addresses -/

/-- Less than a lap apart, two offsets are two addresses. -/
theorem addr_ne (hij : i < j) (hj : j < i + c.size) : c.addr i ≠ c.addr j := by
  intro h
  have hmod : j % c.size = i % c.size := (Nat.add_left_cancel h).symm
  have hdvd : c.size ∣ j - i := Nat.dvd_of_mod_eq_zero (Nat.sub_mod_eq_zero_of_mod_eq hmod)
  exact absurd (Nat.le_of_dvd (by omega) hdvd) (by omega)

/-- Before the end of the lap, addresses count on. -/
theorem addr_add (h : o % c.size + i < c.size) : c.addr (o + i) = c.addr o + i := by
  have hmod : (o + i) % c.size = o % c.size + i := by
    rw [Nat.add_mod, Nat.mod_eq_of_lt (a := i) (by omega), Nat.mod_eq_of_lt h]
  rw [addr, addr, hmod, Nat.add_assoc]

/-! ### Loads and stores -/

@[simp] theorem length_load : (c.load m o n).length = n := by simp [load]

theorem getElem?_load (h : i < n) : (c.load m o n)[i]? = some (m (c.addr (o + i))) := by
  simp [load, h]

theorem store_append :
    c.store m o (as ++ bs) = c.store (c.store m o as) (o + as.length) bs := by
  induction as generalizing m o with
  | nil => rfl
  | cons a as ih =>
    rw [List.cons_append, store, store, ih, List.length_cons, Nat.add_assoc, Nat.add_comm 1]

theorem store_of_apart (h : ∀ i < bs.length, c.addr (o + i) ≠ x) : c.store m o bs x = m x := by
  induction bs generalizing m o with
  | nil => rfl
  | cons b bs ih =>
    rw [store, ih, Function.update_of_ne]
    · exact (h 0 (Nat.succ_pos _)).symm
    · intro i hi
      rw [Nat.add_assoc, Nat.add_comm 1]
      exact h (i + 1) (Nat.succ_lt_succ hi)

theorem store_addr {b : UInt8} (hlen : bs.length ≤ c.size) (h : bs[i]? = some b) :
    c.store m o bs (c.addr (o + i)) = b := by
  induction bs generalizing m o i with
  | nil => exact absurd h (by simp)
  | cons a bs ih =>
    rw [List.length_cons] at hlen
    rw [store]
    cases i with
    | zero =>
      obtain rfl : a = b := by simpa using h
      -- the bytes after the first do not come around to it
      rw [store_of_apart fun i hi => (addr_ne (by omega) (by omega)).symm, Nat.add_zero,
        Function.update_self]
    | succ i =>
      rw [show o + (i + 1) = o + 1 + i by omega]
      exact ih (by omega) (by simpa using h)

theorem load_store_within (hlen : bs.length ≤ c.size) (h : i + n ≤ bs.length) :
    c.load (c.store m o bs) (o + i) n = (bs.drop i).take n := by
  refine List.ext_getElem? ?_
  intro j
  rcases Nat.lt_or_ge j n with hj | hj
  · obtain ⟨b, hb⟩ : ∃ b, bs[i + j]? = some b := ⟨_, List.getElem?_eq_getElem (by omega)⟩
    rw [getElem?_load hj, List.getElem?_take_of_lt hj, List.getElem?_drop, hb, Nat.add_assoc,
      store_addr hlen hb]
  · rw [List.getElem?_eq_none (by simpa using hj), List.getElem?_eq_none (by simp; omega)]

/-- What is stored is read back, up to a whole lap. -/
theorem load_store (hlen : bs.length ≤ c.size) : c.load (c.store m o bs) o bs.length = bs := by
  have h := load_store_within (i := 0) (m := m) (o := o) hlen (by omega : 0 + bs.length ≤ _)
  rwa [Nat.add_zero, List.drop_zero, List.take_length] at h

/-- Up to the end of the lap, a store is one in the flat memory. -/
theorem store_eq_store (h : o % c.size + bs.length ≤ c.size) :
    c.store m o bs = Bytes.store m (c.addr o) bs := by
  induction bs generalizing m o with
  | nil => exact store_nil.symm
  | cons b bs ih =>
    rw [List.length_cons] at h
    rw [store, store_cons]
    rcases Nat.lt_or_ge (o % c.size + 1) c.size with hlt | hge
    · have hmod : (o + 1) % c.size = o % c.size + 1 := by
        rw [Nat.add_mod, Nat.mod_eq_of_lt (a := 1) (by omega), Nat.mod_eq_of_lt hlt]
      rw [ih (by omega), addr_add hlt]
    · -- `b` is the last byte of the lap, and of the run
      obtain rfl : bs = [] := List.length_eq_zero_iff.mp (by omega)
      exact store_nil.symm

theorem load_eq_load (h : o % c.size + n ≤ c.size) :
    c.load m o n = Bytes.load m (c.addr o) n := by
  refine List.map_congr_left ?_
  intro i hi
  have := List.mem_range.mp hi
  rw [addr_add (by omega)]

/-- A store does not come around to what lies before it in the lap. -/
theorem load_store_before {q k : ℕ} (hq : q + k ≤ o) (ho : o ≤ c.size)
    (hlap : o + bs.length ≤ q + c.size) :
    Bytes.load (c.store m o bs) (c.base + q) k = Bytes.load m (c.base + q) k := by
  refine List.map_congr_left fun i hi => store_of_apart ?_
  intro j hj
  have hi := List.mem_range.mp hi
  have haddr : c.addr (q + i) = c.base + q + i := by
    rw [addr, Nat.mod_eq_of_lt (by omega), Nat.add_assoc]
  rw [← haddr]
  exact (addr_ne (by omega) (by omega)).symm

/-- A cursor at offset `o`, which may stand at the end of a lap where the next one begins. -/
structure At (c : Circular) (p o : ℕ) : Prop where
  le : p ≤ c.size
  mod : p % c.size = o % c.size

theorem At.cases {p : ℕ} (h : c.At p o) : p = o % c.size ∨ p = c.size ∧ o % c.size = 0 := by
  rcases Nat.lt_or_ge p c.size with hlt | hge
  · exact Or.inl (by rw [← h.mod, Nat.mod_eq_of_lt hlt])
  · obtain rfl : p = c.size := Nat.le_antisymm h.le hge
    exact Or.inr ⟨rfl, by rw [← h.mod, Nat.mod_self]⟩

theorem At.add {p k : ℕ} (h : c.At p o) (hk : p + k ≤ c.size) : c.At (p + k) (o + k) :=
  ⟨hk, by rw [Nat.add_mod, h.mod, ← Nat.add_mod]⟩

/-- What is left of a run that goes past the end is from the beginning on. -/
theorem At.wrap {p k : ℕ} (h : c.At p o) (hk : c.size ≤ p + k) (hlap : k ≤ c.size) :
    c.At (k - (c.size - p)) (o + k) := by
  have hp := h.le
  refine ⟨by omega, ?_⟩
  rw [Nat.add_mod o, ← h.mod, ← Nat.add_mod, show k - (c.size - p) = p + k - c.size by omega]
  exact (Nat.mod_eq_sub_mod hk).symm

theorem At.store_eq {p : ℕ} (h : c.At p o) (hlen : p + bs.length ≤ c.size) :
    c.store m o bs = Bytes.store m (c.base + p) bs := by
  rcases h.cases with rfl | ⟨rfl, hmod⟩
  · exact store_eq_store hlen
  · obtain rfl : bs = [] := List.length_eq_zero_iff.mp (by omega)
    exact store_nil.symm

/-- A store that goes past the end goes on at the beginning. -/
theorem At.store_split {p : ℕ} (h : c.At p o) (hlen : c.size ≤ p + bs.length)
    (hlap : bs.length ≤ c.size) :
    c.store m o bs = Bytes.store (Bytes.store m (c.base + p) (bs.take (c.size - p))) c.base
      (bs.drop (c.size - p)) := by
  have hp := h.le
  have htake : (bs.take (c.size - p)).length = c.size - p := by
    rw [List.length_take]
    omega
  have hend : c.At 0 (o + (c.size - p)) := by
    have hadd := h.add (k := c.size - p) (by omega)
    refine ⟨Nat.zero_le _, ?_⟩
    rw [← hadd.mod, show p + (c.size - p) = c.size by omega, Nat.mod_self, Nat.zero_mod]
  conv_lhs => rw [← List.take_append_drop (c.size - p) bs]
  rw [store_append, h.store_eq (by omega), htake,
    hend.store_eq (by rw [List.length_drop]; omega), Nat.add_zero]

end Circular

end Bytes
