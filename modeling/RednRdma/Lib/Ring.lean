/-
Records laid out on a ring of cells.

A log of records is written around a ring of `N` cells, each record into a run
of consecutive cells.  A record is *resident* while no later one has touched
any of its cells:

* `resident_concat` — what one more record does to the residents;
* `start_add_len_le` — records of a log do not overlap before the ring wraps;
* `resident_iff` — a record is resident until the log has gone once around the
  ring from where the record starts;
* `covers_of_overlap` — the next record evicts a resident by its first cell.
-/
import Mathlib.Algebra.BigOperators.Group.List.Basic
import Mathlib.Data.List.GetD
import Mathlib.Data.List.Induction
import Mathlib.Data.Nat.ModEq

namespace Ring

variable {ρ : Type*} {N : ℕ}

/-- The `len` cells from `pos` on include cell `j`. -/
def Covers (N pos len j : ℕ) : Prop := ∃ d < len, (pos + d) % N = j

instance (N pos len j : ℕ) : Decidable (Covers N pos len j) :=
  inferInstanceAs (Decidable (∃ d < len, (pos + d) % N = j))

/-- A record with the cell it starts at and the number of cells it takes. -/
structure Placed (ρ : Type*) where
  pos : ℕ
  len : ℕ
  data : ρ
  deriving Repr, DecidableEq

/-- The two records have a cell in common. -/
def Overlap (N : ℕ) (p q : Placed ρ) : Prop :=
  ∃ d < p.len, Covers N q.pos q.len ((p.pos + d) % N)

instance (N : ℕ) (p q : Placed ρ) : Decidable (Overlap N p q) :=
  inferInstanceAs (Decidable (∃ d < p.len, Covers N q.pos q.len ((p.pos + d) % N)))

/-- The `k`-th record of the log is `p`, and no later one has a cell of it. -/
def Resident (N : ℕ) (log : List (Placed ρ)) (k : ℕ) (p : Placed ρ) : Prop :=
  log[k]? = some p ∧ ∀ q ∈ log.drop (k + 1), ¬ Overlap N p q

theorem covers_pos {pos len : ℕ} (h : 0 < len) : Covers N pos len (pos % N) :=
  ⟨0, h, rfl⟩

theorem overlap_of_covers {p q : Placed ρ} {j : ℕ} (hp : Covers N p.pos p.len j)
    (hq : Covers N q.pos q.len j) : Overlap N p q := by
  obtain ⟨d, hd, rfl⟩ := hp
  exact ⟨d, hd, hq⟩

/-- Records that start at one cell overlap. -/
theorem overlap_of_pos_eq {p q : Placed ρ} (hp : 0 < p.len) (hq : 0 < q.len)
    (h : p.pos = q.pos) : Overlap N p q :=
  overlap_of_covers (covers_pos hp) (h ▸ covers_pos hq)

/-- One more record evicts the residents it overlaps, and is resident itself. -/
theorem resident_concat {log : List (Placed ρ)} {q p : Placed ρ} {k : ℕ} :
    Resident N (log ++ [q]) k p ↔
      Resident N log k p ∧ ¬ Overlap N p q ∨ k = log.length ∧ p = q := by
  rcases Nat.lt_trichotomy k log.length with hlt | heq | hgt
  · rw [Resident, Resident, List.getElem?_append_left hlt,
      List.drop_append_of_le_length (by omega)]
    constructor
    · rintro ⟨hk, hall⟩
      have hlog : ∀ r ∈ log.drop (k + 1), ¬ Overlap N p r :=
        fun r hr => hall r (List.mem_append_left _ hr)
      exact Or.inl ⟨⟨hk, hlog⟩, hall q (by simp)⟩
    · rintro (⟨⟨hk, hall⟩, hq⟩ | ⟨rfl, -⟩)
      · refine ⟨hk, ?_⟩
        intro r hr
        rcases List.mem_append.mp hr with hr | hr
        · exact hall r hr
        · rw [List.mem_singleton.mp hr]
          exact hq
      · omega
  · subst heq
    have hnone : log[log.length]? = none := by simp
    constructor
    · rintro ⟨hk, -⟩
      refine Or.inr ⟨rfl, ?_⟩
      simpa using hk.symm
    · rintro (⟨⟨hk, -⟩, -⟩ | ⟨-, rfl⟩)
      · rw [hnone] at hk
        simp at hk
      · exact ⟨by simp, by simp⟩
  · constructor
    · rintro ⟨hk, -⟩
      obtain ⟨hlen, -⟩ := List.getElem?_eq_some_iff.mp hk
      simp at hlen
      omega
    · rintro (⟨⟨hk, -⟩, -⟩ | ⟨rfl, -⟩)
      · obtain ⟨hlen, -⟩ := List.getElem?_eq_some_iff.mp hk
        omega
      · omega

theorem resident_last (log : List (Placed ρ)) (q : Placed ρ) :
    Resident N (log ++ [q]) log.length q :=
  resident_concat.mpr (Or.inr ⟨rfl, rfl⟩)

/-! ### Logs without gaps -/

/-- The number of cells the log has gone through. -/
def total (log : List (Placed ρ)) : ℕ := (log.map Placed.len).sum

/-- How far around the log was when its `k`-th record was placed. -/
def start (log : List (Placed ρ)) (k : ℕ) : ℕ := total (log.take k)

@[simp] theorem total_nil : total ([] : List (Placed ρ)) = 0 := rfl

@[simp] theorem total_concat (log : List (Placed ρ)) (q : Placed ρ) :
    total (log ++ [q]) = total log + q.len := by
  simp [total]

theorem start_length (log : List (Placed ρ)) : start log log.length = total log := by
  rw [start, List.take_length]

theorem start_concat {log : List (Placed ρ)} {q : Placed ρ} {k : ℕ} (hk : k ≤ log.length) :
    start (log ++ [q]) k = start log k := by
  rw [start, start, List.take_append_of_le_length hk]

theorem start_succ {log : List (Placed ρ)} {k : ℕ} {p : Placed ρ} (hk : log[k]? = some p) :
    start log (k + 1) = start log k + p.len := by
  rw [start, List.take_add_one, hk]
  exact total_concat (log.take k) p

theorem start_mono {log : List (Placed ρ)} {k m : ℕ} (h : k ≤ m) :
    start log k ≤ start log m := by
  have hm : log.take m = log.take k ++ (log.take m).drop k := by
    conv_lhs => rw [← List.take_append_drop k (log.take m)]
    rw [List.take_take, Nat.min_eq_left h]
  rw [start, start, hm, total, total, List.map_append, List.sum_append]
  omega

theorem start_le_total (log : List (Placed ρ)) (k : ℕ) : start log k ≤ total log := by
  rcases Nat.le_total k log.length with h | h
  · exact start_length log ▸ start_mono h
  · rw [start, List.take_of_length_le h]

theorem start_add_len_le {log : List (Placed ρ)} {k m : ℕ} {p : Placed ρ}
    (hk : log[k]? = some p) (h : k < m) : start log k + p.len ≤ start log m :=
  start_succ hk ▸ start_mono h

/-- Every record starts at the cell the one before it stopped at. -/
def Tiled (N : ℕ) (log : List (Placed ρ)) : Prop :=
  ∀ k p, log[k]? = some p → p.pos = start log k % N

theorem tiled_nil : Tiled N ([] : List (Placed ρ)) := by
  intro k p h
  simp at h

theorem Tiled.concat {log : List (Placed ρ)} {q : Placed ρ} (h : Tiled N log)
    (hq : q.pos = total log % N) : Tiled N (log ++ [q]) := by
  intro k p hk
  rcases Nat.lt_or_ge k log.length with hlt | hge
  · rw [List.getElem?_append_left hlt] at hk
    rw [start_concat hlt.le]
    exact h k p hk
  · obtain ⟨hlen, -⟩ := List.getElem?_eq_some_iff.mp hk
    obtain rfl : k = log.length := by
      simp at hlen
      omega
    obtain rfl : q = p := by simpa using hk
    rw [start_concat (le_refl _), start_length, hq]

/-- A record is resident until the log is once around the ring past its start. -/
theorem resident_of_total_le {log : List (Placed ρ)} (h : Tiled N log) {k : ℕ} {p : Placed ρ}
    (hk : log[k]? = some p) (hle : total log ≤ start log k + N) : Resident N log k p := by
  refine ⟨hk, ?_⟩
  intro q hq hover
  obtain ⟨i, hi⟩ := List.mem_iff_getElem?.mp hq
  rw [List.getElem?_drop] at hi
  obtain ⟨d, hd, e, he, hcell⟩ := hover
  rw [h k p hk, h _ q hi] at hcell
  -- the common cell is written at two distances, the later a whole lap on
  have hmod : (start log (k + 1 + i) + e) % N = (start log k + d) % N := by
    rw [Nat.mod_add_mod, Nat.mod_add_mod] at hcell
    exact hcell
  have hbefore : start log k + p.len ≤ start log (k + 1 + i) :=
    start_add_len_le hk (by omega)
  have hafter : start log (k + 1 + i) + q.len ≤ total log :=
    start_succ hi ▸ start_le_total log _
  have hlap : start log k + d + N ≤ start log (k + 1 + i) + e :=
    Nat.ModEq.add_le_of_lt hmod.symm (by omega)
  omega

/-- Every cell the log has gone through was written by one of its records. -/
theorem exists_at {log : List (Placed ρ)} {x : ℕ} (hx : x < total log) :
    ∃ j q, log[j]? = some q ∧ start log j ≤ x ∧ x < start log j + q.len := by
  induction log using List.reverseRecOn with
  | nil => simp at hx
  | append_singleton log r ih =>
    rcases Nat.lt_or_ge x (total log) with hlt | hge
    · obtain ⟨j, q, hj, hlo, hhi⟩ := ih hlt
      have hjlt : j < log.length := (List.getElem?_eq_some_iff.mp hj).1
      refine ⟨j, q, ?_, ?_⟩
      · rw [List.getElem?_append_left hjlt, hj]
      · rw [start_concat hjlt.le]
        exact ⟨hlo, hhi⟩
    · rw [total_concat] at hx
      refine ⟨log.length, r, by simp, ?_⟩
      rw [start_concat (le_refl _), start_length]
      exact ⟨hge, hx⟩

/-- A record is resident exactly until the log is once around the ring past its
start. -/
theorem resident_iff {log : List (Placed ρ)} (h : Tiled N log) {k : ℕ} {p : Placed ρ}
    (hk : log[k]? = some p) (hlen : 0 < p.len) (hN : p.len ≤ N) :
    Resident N log k p ↔ total log ≤ start log k + N := by
  refine ⟨?_, resident_of_total_le h hk⟩
  intro hres
  by_contra hgt
  -- the record that wrote the first cell again, a lap later
  obtain ⟨j, q, hj, hlo, hhi⟩ := exists_at (show start log k + N < total log by omega)
  have hlater : k + 1 ≤ j := by
    by_contra hle
    have hend : start log j + q.len ≤ start log (k + 1) := start_add_len_le hj (by omega)
    rw [start_succ hk] at hend
    omega
  have hmem : q ∈ log.drop (k + 1) := by
    refine List.mem_of_getElem? (i := j - (k + 1)) ?_
    rw [List.getElem?_drop, Nat.add_sub_cancel' hlater, hj]
  refine hres.2 q hmem ⟨0, hlen, start log k + N - start log j, by omega, ?_⟩
  rw [h k p hk, h j q hj, Nat.mod_add_mod, Nat.add_zero, Nat.mod_mod,
    Nat.add_sub_cancel' hlo, Nat.add_mod_right]

/-- The record that comes next can touch a resident only if it writes over its
first cell. -/
theorem covers_of_overlap {log : List (Placed ρ)} {q : Placed ρ} (h : Tiled N log)
    (hq : q.pos = total log % N) {k : ℕ} {p : Placed ρ} (hres : Resident N log k p)
    (hN : p.len ≤ N) (hover : Overlap N p q) : Covers N q.pos q.len p.pos := by
  obtain ⟨d, hd, e, he, hcell⟩ := hover
  have hend : start log k + p.len ≤ total log := start_succ hres.1 ▸ start_le_total log _
  have htotal : total log ≤ start log k + N :=
    (resident_iff h hres.1 (by omega) hN).mp hres
  rw [h k p hres.1, hq, Nat.mod_add_mod, Nat.mod_add_mod] at hcell
  have hlap : start log k + d + N ≤ total log + e :=
    Nat.ModEq.add_le_of_lt hcell.symm (by omega)
  refine ⟨start log k + N - total log, by omega, ?_⟩
  rw [h k p hres.1, hq, Nat.mod_add_mod, Nat.add_sub_cancel' htotal, Nat.add_mod_right]

end Ring
