/-
History variables.

`noting step note` is the machine `step` with a value beside its state that every step
brings up to date.  The value has no part in what the machine does:

* `exists_run_noting_iff` — the runs with the value are those without it.
-/
import RednRdma.Lib.Machine

namespace Machine

variable {σ α η : Type*}

/-- The machine `step` with a history variable. -/
def noting (step : σ → α → Option σ) (note : η → σ → α → σ → η) (x : σ × η) (a : α) :
    Option (σ × η) :=
  (step x.1 a).map fun s' => (s', note x.2 x.1 a s')

variable {step : σ → α → Option σ} {note : η → σ → α → σ → η}

theorem noting_eq_some {x y : σ × η} {a : α} :
    noting step note x a = some y ↔ step x.1 a = some y.1 ∧ y.2 = note x.2 x.1 a y.1 := by
  constructor
  · intro h
    obtain ⟨s', hs, rfl⟩ := Option.map_eq_some_iff.mp h
    exact ⟨hs, rfl⟩
  · rintro ⟨hs, hy⟩
    rw [noting, hs, Option.map_some, ← hy]

theorem run_of_noting {x y : σ × η} {as : List α} (h : run (noting step note) x as = some y) :
    run step x.1 as = some y.1 := by
  induction as generalizing x with
  | nil =>
    rw [run_nil, Option.some_inj] at h ⊢
    rw [h]
  | cons a as ih =>
    obtain ⟨x₁, h₁, h₂⟩ := (run_cons_eq_some _).mp h
    exact (run_cons_eq_some step).mpr ⟨x₁.1, (noting_eq_some.mp h₁).1, ih h₂⟩

theorem exists_noting_run {s s' : σ} {as : List α} (h : run step s as = some s') (t : η) :
    ∃ t', run (noting step note) (s, t) as = some (s', t') := by
  induction as generalizing s t with
  | nil =>
    rw [run_nil, Option.some_inj] at h
    exact ⟨t, by rw [run_nil, h]⟩
  | cons a as ih =>
    obtain ⟨s₁, h₁, h₂⟩ := (run_cons_eq_some step).mp h
    obtain ⟨t', ht⟩ := ih h₂ (note t s a s₁)
    exact ⟨t', (run_cons_eq_some _).mpr ⟨(s₁, note t s a s₁), noting_eq_some.mpr ⟨h₁, rfl⟩, ht⟩⟩

/-- The value has no part in what the machine does. -/
theorem exists_run_noting_iff {s s' : σ} {as : List α} (t : η) :
    (∃ t', run (noting step note) (s, t) as = some (s', t')) ↔ run step s as = some s' := by
  constructor
  · rintro ⟨t', h⟩
    exact run_of_noting h
  · intro h
    exact exists_noting_run h t

end Machine
