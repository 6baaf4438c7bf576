/-
Serial-number arithmetic.

Unbounded counters seen modulo `M`.  `dist M a b` is how far `a` is ahead of
`b` on the circle of size `M`, and `Ahead M h a b` says that it is ahead by
less than a window `h`.  On counters that have not drifted apart by more than
the window, the order read off the residues is the order of the counters:

* `dist_of_le`, `dist_of_lt` — the distance of two nearby counters;
* `ahead_iff_lt` — `Ahead` decides `<` on them;
* `Rising` — numberings of an initial segment that never fall.
-/
import Mathlib.Algebra.Order.Group.Nat
import Mathlib.Algebra.Order.Monoid.Unbundled.Basic
import Mathlib.Data.Nat.ModEq

namespace Serial

variable {M h x y : ℕ}

/-- The distance from `b` forward to `a` on the circle of size `M`. -/
def dist (M a b : ℕ) : ℕ := (M - b % M + a) % M

/-- `a` is ahead of `b`, by less than the window `h`. -/
def Ahead (M h a b : ℕ) : Prop := 0 < dist M a b ∧ dist M a b < h

instance (M h a b : ℕ) : Decidable (Ahead M h a b) :=
  inferInstanceAs (Decidable (_ ∧ _))

@[simp] theorem dist_mod_left (M a b : ℕ) : dist M (a % M) b = dist M a b := by
  rw [dist, dist, Nat.add_mod_mod]

@[simp] theorem dist_mod_right (M a b : ℕ) : dist M a (b % M) = dist M a b := by
  rw [dist, dist, Nat.mod_mod]

theorem dist_of_le (hyx : y ≤ x) (hx : x < y + M) : dist M x y = x - y := by
  have hM : 0 < M := by omega
  have hr : y % M < M := Nat.mod_lt y hM
  have hdiv : M * (y / M) + y % M = y := Nat.div_add_mod y M
  have hsum : M - y % M + x = (x - y) + M * (y / M + 1) := by
    rw [Nat.mul_add, Nat.mul_one]
    omega
  rw [dist, hsum, Nat.add_mul_mod_self_left, Nat.mod_eq_of_lt (by omega)]

theorem dist_of_lt (hxy : x < y) (hy : y < x + M) : dist M x y = M - (y - x) := by
  have hM : 0 < M := by omega
  have hdiv : M * (y / M) + y % M = y := Nat.div_add_mod y M
  have hr : y % M < M := Nat.mod_lt y hM
  have hsum : M - y % M + x = (M - (y - x)) + M * (y / M) := by omega
  rw [dist, hsum, Nat.add_mul_mod_self_left, Nat.mod_eq_of_lt (by omega)]

/-- On counters within reach of each other, `Ahead` is `<`. -/
theorem ahead_iff_lt (hh : 0 < h) (hM : h ≤ M) (hx : x < y + h) (hy : y ≤ x + (M - h)) :
    Ahead M h x y ↔ y < x := by
  rcases Nat.lt_trichotomy x y with hlt | heq | hgt
  · have hd : dist M x y = M - (y - x) := dist_of_lt hlt (by omega)
    rw [Ahead, hd]
    omega
  · subst heq
    have hd : dist M x x = 0 := by
      rw [dist_of_le (le_refl x) (by omega), Nat.sub_self]
    rw [Ahead, hd]
    omega
  · have hd : dist M x y = x - y := dist_of_le hgt.le (by omega)
    rw [Ahead, hd]
    omega

/-! ### Numberings -/

/-- A numbering of `0, …, n` that never falls. -/
def Rising (f : ℕ → ℕ) (n : ℕ) : Prop := ∀ j < n, f j ≤ f (j + 1)

/-- `f` up to `n`, and from there on `g` counted from `n`. -/
def extend (f : ℕ → ℕ) (n : ℕ) (g : ℕ → ℕ) : ℕ → ℕ := fun j => if j ≤ n then f j else g (j - n)

@[simp] theorem extend_of_le {f g : ℕ → ℕ} {n j : ℕ} (h : j ≤ n) : extend f n g j = f j :=
  if_pos h

theorem extend_add {f g : ℕ → ℕ} {n i : ℕ} (h : 0 < i) : extend f n g (n + i) = g i := by
  rw [extend, if_neg (by omega), Nat.add_sub_cancel_left]

theorem Rising.mono {f : ℕ → ℕ} {n i j : ℕ} (h : Rising f n) (hij : i ≤ j) (hj : j ≤ n) :
    f i ≤ f j := by
  induction j, hij using Nat.le_induction with
  | base => exact le_refl _
  | succ j hij ih => exact (ih (by omega)).trans (h j (by omega))

/-- A rising numbering goes on rising if the new numbers do and start no lower
than the old ones end. -/
theorem Rising.extend {f g : ℕ → ℕ} {n m : ℕ} (h : Rising f n) (hfirst : 0 < m → f n ≤ g 1)
    (hg : ∀ i, 0 < i → i < m → g i ≤ g (i + 1)) : Rising (extend f n g) (n + m) := by
  intro j hj
  rcases Nat.lt_trichotomy j n with hlt | rfl | hgt
  · rw [extend_of_le hlt.le, extend_of_le (by omega)]
    exact h j hlt
  · rw [extend_of_le (le_refl j), extend_add one_pos]
    exact hfirst (by omega)
  · obtain ⟨i, rfl⟩ : ∃ i, j = n + i := ⟨j - n, by omega⟩
    rw [extend_add (by omega), show n + i + 1 = n + (i + 1) by omega, extend_add (by omega)]
    exact hg i (by omega) (by omega)

end Serial
