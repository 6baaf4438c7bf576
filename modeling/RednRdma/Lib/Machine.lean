/-
Runs of guarded machines.

A machine is a partial step function `step : σ → α → Option σ`: the action `a`
is enabled in `s` when `step s a` is a value.  Every component of the
development that moves by interleaved steps is an instance.

* `run_append` — a run splits at any point;
* `run_inv`, `run_inv_of_meets` — what every step preserves holds after the
  run, the second for steps that meet a condition on the state they start in;
* `along_of_meets` — the same for every state the run passes through;
* `along_iff_meets` — a condition that decides, step by step, whether an
  invariant survives is the exact condition for the whole run;
* `meets_or_marked` — breaking a condition leaves a mark that stays;
* `run_map`, `run_map_of_meets` — a machine seen through a function of its state is another
  machine;
* `exists_run_of_meets` — forward simulation, where a step stands for any number of steps.
-/
import Mathlib.Logic.Basic
import Mathlib.Data.Option.Basic

namespace Machine

variable {σ α : Type*} (step : σ → α → Option σ)

/-- Run a list of actions from `s`; undefined as soon as one is not enabled. -/
def run : σ → List α → Option σ
  | s, [] => some s
  | s, a :: as =>
    match step s a with
    | some s' => run s' as
    | none => none

/-- Every action of the run meets `C` in the state it is taken in. -/
def Meets (C : σ → α → Prop) : σ → List α → Prop
  | _, [] => True
  | s, a :: as =>
    C s a ∧
      match step s a with
      | some s' => Meets C s' as
      | none => True

/-- `P` holds in every state the run passes through, the first included. -/
def Along (P : σ → Prop) : σ → List α → Prop
  | s, [] => P s
  | s, a :: as =>
    P s ∧
      match step s a with
      | some s' => Along P s' as
      | none => True

@[simp] theorem run_nil (s : σ) : run step s [] = some s := rfl

theorem run_cons (s : σ) (a : α) (as : List α) :
    run step s (a :: as) = (step s a).bind fun s' => run step s' as := by
  rw [run]
  cases step s a <;> rfl

theorem run_cons_eq_some {s s' : σ} {a : α} {as : List α} :
    run step s (a :: as) = some s' ↔
      ∃ s₁, step s a = some s₁ ∧ run step s₁ as = some s' := by
  rw [run_cons, Option.bind_eq_some_iff]

theorem run_append (s : σ) (as bs : List α) :
    run step s (as ++ bs) = (run step s as).bind fun s' => run step s' bs := by
  induction as generalizing s with
  | nil => rfl
  | cons a as ih =>
    rw [List.cons_append, run_cons, run_cons, Option.bind_assoc]
    exact congrArg _ (funext ih)

theorem run_append_eq_some {s s' : σ} {as bs : List α} :
    run step s (as ++ bs) = some s' ↔
      ∃ s₁, run step s as = some s₁ ∧ run step s₁ bs = some s' := by
  rw [run_append, Option.bind_eq_some_iff]

variable {step}

theorem meets_cons {C : σ → α → Prop} {s : σ} {a : α} {as : List α} :
    Meets step C s (a :: as) ↔
      C s a ∧ ∀ s', step s a = some s' → Meets step C s' as := by
  rw [Meets]
  cases step s a <;> simp

theorem along_cons {P : σ → Prop} {s : σ} {a : α} {as : List α} :
    Along step P s (a :: as) ↔
      P s ∧ ∀ s', step s a = some s' → Along step P s' as := by
  rw [Along]
  cases step s a <;> simp

theorem Along.head {P : σ → Prop} {s : σ} {as : List α} (h : Along step P s as) : P s := by
  cases as with
  | nil => exact h
  | cons a as => exact (along_cons.mp h).1

instance decidableMeets {C : σ → α → Prop} [∀ s a, Decidable (C s a)] :
    ∀ s as, Decidable (Meets step C s as)
  | _, [] => isTrue trivial
  | s, a :: as =>
    have : DecidablePred fun s' => Meets step C s' as := fun s' => decidableMeets s' as
    decidable_of_iff (C s a ∧ ∀ s' ∈ step s a, Meets step C s' as) meets_cons.symm

/-- A condition on the actions alone is met wherever they are taken. -/
theorem meets_of_forall_mem {C : σ → α → Prop} {s : σ} {as : List α}
    (h : ∀ a ∈ as, ∀ t, C t a) : Meets step C s as := by
  induction as generalizing s with
  | nil => trivial
  | cons a as ih =>
    exact meets_cons.mpr ⟨h a List.mem_cons_self s,
      fun _ _ => ih fun b hb => h b (List.mem_cons_of_mem a hb)⟩

/-- Steps that meet two conditions meet both at once. -/
theorem Meets.and {C D : σ → α → Prop} {s : σ} {as : List α} (hC : Meets step C s as)
    (hD : Meets step D s as) : Meets step (fun s a => C s a ∧ D s a) s as := by
  induction as generalizing s with
  | nil => trivial
  | cons a as ih =>
    obtain ⟨hc, hC⟩ := meets_cons.mp hC
    obtain ⟨hd, hD⟩ := meets_cons.mp hD
    exact meets_cons.mpr ⟨⟨hc, hd⟩, fun s₁ h₁ => ih (hC s₁ h₁) (hD s₁ h₁)⟩

/-- The invariant rule, for steps that meet `C`. -/
theorem run_inv_of_meets {C : σ → α → Prop} {I : σ → Prop}
    (hstep : ∀ s a s', I s → C s a → step s a = some s' → I s') {s s' : σ} {as : List α}
    (h0 : I s) (hm : Meets step C s as) (hr : run step s as = some s') : I s' := by
  induction as generalizing s with
  | nil =>
    rw [run_nil, Option.some_inj] at hr
    exact hr ▸ h0
  | cons a as ih =>
    obtain ⟨s₁, h₁, h₂⟩ := (run_cons_eq_some step).mp hr
    obtain ⟨hc, hrest⟩ := meets_cons.mp hm
    exact ih (hstep s a s₁ h0 hc h₁) (hrest s₁ h₁) h₂

/-- The invariant rule. -/
theorem run_inv {I : σ → Prop} (hstep : ∀ s a s', I s → step s a = some s' → I s')
    {s s' : σ} {as : List α} (h0 : I s) (hr : run step s as = some s') : I s' :=
  run_inv_of_meets (C := fun _ _ => True) (fun s a s' hs _ => hstep s a s' hs) h0
    (meets_of_forall_mem fun _ _ _ => trivial) hr

theorem along_of_meets {C : σ → α → Prop} {I P : σ → Prop}
    (hstep : ∀ s a s', I s → C s a → step s a = some s' → I s') (hP : ∀ s, I s → P s)
    {s : σ} {as : List α} (h0 : I s) (hm : Meets step C s as) : Along step P s as := by
  induction as generalizing s with
  | nil => exact hP s h0
  | cons a as ih =>
    obtain ⟨hc, hrest⟩ := meets_cons.mp hm
    exact along_cons.mpr
      ⟨hP s h0, fun s₁ h₁ => ih (hstep s a s₁ h0 hc h₁) (hrest s₁ h₁)⟩

/-- If a step that meets `C` keeps `I` and one that breaks `C` falsifies `P`,
then a run keeps `P` throughout exactly when all its steps meet `C`. -/
theorem along_iff_meets {C : σ → α → Prop} {I P : σ → Prop}
    (hP : ∀ s, I s → P s)
    (hstep : ∀ s a s', I s → C s a → step s a = some s' → I s')
    (hbad : ∀ s a s', I s → ¬ C s a → step s a = some s' → ¬ P s')
    {s s' : σ} {as : List α} (h0 : I s) (hr : run step s as = some s') :
    Along step P s as ↔ Meets step C s as := by
  constructor
  · intro hal
    induction as generalizing s with
    | nil => trivial
    | cons a as ih =>
      obtain ⟨s₁, h₁, h₂⟩ := (run_cons_eq_some step).mp hr
      have hrest := (along_cons.mp hal).2
      have hc : C s a := by
        by_contra hc
        exact hbad s a s₁ h0 hc h₁ (hrest s₁ h₁).head
      refine meets_cons.mpr ⟨hc, ?_⟩
      intro s₂ h₂'
      obtain rfl : s₁ = s₂ := Option.some_inj.mp (h₁.symm.trans h₂')
      exact ih (hstep s a s₁ h0 hc h₁) h₂ (hrest s₁ h₁)
  · exact along_of_meets hstep hP h0

/-- Steps that meet `D` and keep `I` meet whatever follows from both. -/
theorem meets_of_inv {C D : σ → α → Prop} {I : σ → Prop}
    (hC : ∀ s a, I s → D s a → C s a)
    (hstep : ∀ s a s', I s → D s a → step s a = some s' → I s') {s : σ} {as : List α}
    (h0 : I s) (hm : Meets step D s as) : Meets step C s as := by
  induction as generalizing s with
  | nil => trivial
  | cons a as ih =>
    obtain ⟨hd, hrest⟩ := meets_cons.mp hm
    exact meets_cons.mpr
      ⟨hC s a h0 hd, fun s₁ h₁ => ih (hstep s a s₁ h0 hd h₁) (hrest s₁ h₁)⟩

/-- If a step that meets `C` keeps `I`, one that breaks `C` leads to `B`, and no step
leads out of `B`, then a run meets `C` or ends in `B`. -/
theorem meets_or_marked {C : σ → α → Prop} {I B : σ → Prop}
    (hstep : ∀ s a s', I s → C s a → step s a = some s' → I s')
    (hbad : ∀ s a s', I s → ¬ C s a → step s a = some s' → B s')
    (hkeep : ∀ s a s', B s → step s a = some s' → B s')
    {s s' : σ} {as : List α} (h0 : I s) (hr : run step s as = some s') :
    Meets step C s as ∨ B s' := by
  induction as generalizing s with
  | nil => exact Or.inl trivial
  | cons a as ih =>
    obtain ⟨s₁, h₁, h₂⟩ := (run_cons_eq_some step).mp hr
    by_cases hc : C s a
    · rcases ih (hstep s a s₁ h0 hc h₁) h₂ with hm | hb
      · refine Or.inl (meets_cons.mpr ⟨hc, fun s₂ h₂' => ?_⟩)
        obtain rfl : s₁ = s₂ := Option.some_inj.mp (h₁.symm.trans h₂')
        exact hm
      · exact Or.inr hb
    · exact Or.inr (run_inv hkeep (hbad s a s₁ h0 hc h₁) h₂)

/-- If every step that meets `C`, seen through `view`, is the step of another machine, then
so is every run of such steps. -/
theorem run_map_of_meets {τ : Type*} {step' : τ → α → Option τ} {view : σ → τ}
    {C : σ → α → Prop} {I : σ → Prop}
    (hstep : ∀ s a s', I s → C s a → step s a = some s' → I s')
    (hview : ∀ s a, I s → C s a → (step s a).map view = step' (view s) a) {s : σ} {as : List α}
    (h0 : I s) (hm : Meets step C s as) : (run step s as).map view = run step' (view s) as := by
  induction as generalizing s with
  | nil => rfl
  | cons a as ih =>
    obtain ⟨hc, hrest⟩ := meets_cons.mp hm
    rw [run_cons, run_cons, ← hview s a h0 hc]
    cases hs : step s a with
    | none => rfl
    | some s₁ => exact ih (hstep s a s₁ h0 hc hs) (hrest s₁ hs)

/-- The same for all steps. -/
theorem run_map {τ : Type*} {step' : τ → α → Option τ} {view : σ → τ} {I : σ → Prop}
    (hstep : ∀ s a s', I s → step s a = some s' → I s')
    (hview : ∀ s a, I s → (step s a).map view = step' (view s) a) {s : σ} (h0 : I s)
    (as : List α) : (run step s as).map view = run step' (view s) as :=
  run_map_of_meets (C := fun _ _ => True) (fun s a s' h _ => hstep s a s' h)
    (fun s a h _ => hview s a h) h0 (meets_of_forall_mem fun _ _ _ => trivial)

/-- The steps of another machine that the steps of a run stand for. -/
def translate {β : Type*} (step : σ → α → Option σ) (f : σ → α → List β) : σ → List α → List β
  | _, [] => []
  | s, a :: as =>
    f s a ++
      match step s a with
      | some s' => translate step f s' as
      | none => []

/-- If the other machine can follow every step, it can follow every run. -/
theorem exists_run_of_meets {τ β : Type*} {step' : τ → β → Option τ} {f : σ → α → List β}
    {C : σ → α → Prop} {R : σ → τ → Prop}
    (hstep : ∀ s a s' t, R s t → C s a → step s a = some s' →
      ∃ t', run step' t (f s a) = some t' ∧ R s' t')
    {s s' : σ} {t : τ} {as : List α} (h0 : R s t) (hm : Meets step C s as)
    (hr : run step s as = some s') :
    ∃ t', run step' t (translate step f s as) = some t' ∧ R s' t' := by
  induction as generalizing s t with
  | nil =>
    rw [run_nil, Option.some_inj] at hr
    exact ⟨t, rfl, hr ▸ h0⟩
  | cons a as ih =>
    obtain ⟨s₁, h₁, h₂⟩ := (run_cons_eq_some step).mp hr
    obtain ⟨hc, hrest⟩ := meets_cons.mp hm
    obtain ⟨t₁, ht₁, hR⟩ := hstep s a s₁ t h0 hc h₁
    obtain ⟨t', ht', hR'⟩ := ih hR (hrest s₁ h₁) h₂
    refine ⟨t', ?_, hR'⟩
    rw [translate, h₁]
    exact (run_append_eq_some step').mpr ⟨t₁, ht₁, ht'⟩

end Machine
