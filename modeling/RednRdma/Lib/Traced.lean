/-
Computations that keep a trace of what they access.

An access is allowed or not, by `P`, and one that is not is the end of the computation, which
stops with `e` there.  A `Traced` value has that as a field, so a computation that came to
anything else has made allowed accesses only (`safe_of_result_ne`).

* `Traced` — the trace and the result;
* `safe_bind`, `result_bind` — a computation followed by another;
* `waitFor` — a poll with a budget, which neither gains nor loses an access by its turns.
-/
import Mathlib.Tactic.Common

/-- A computation that may fail, with what it accessed on its way. -/
structure Traced {A ε : Type} (P : A → Prop) (e : ε) (α : Type) where
  accesses : List A
  result : Except ε α
  stops : (∃ a ∈ accesses, ¬ P a) → result = .error e

namespace Traced

variable {A ε α β : Type} {P : A → Prop} {e : ε}

/-- No access but allowed ones. -/
def Safe (x : Traced P e α) : Prop := ∀ a ∈ x.accesses, P a

theorem safe_of_result_ne {x : Traced P e α} (h : x.result ≠ .error e) : x.Safe := by
  intro a ha
  by_contra hbad
  exact h (x.stops ⟨a, ha, hbad⟩)

theorem safe_of_result_eq_ok {x : Traced P e α} {a : α} (h : x.result = .ok a) : x.Safe :=
  safe_of_result_ne (by simp [h])

/-- A computation that accesses nothing. -/
def lift (x : Except ε α) : Traced P e α where
  accesses := []
  result := x
  stops := by simp

/-- One access, and the value found there. -/
def read (a : A) (v : Except ε α) (h : ¬ P a → v = .error e) : Traced P e α where
  accesses := [a]
  result := v
  stops := by
    rintro ⟨b, hb, hbad⟩
    obtain rfl := List.mem_singleton.mp hb
    exact h hbad

/-- `x`, and then `f` if `x` did not fail. -/
def andThen (x : Traced P e α) (f : α → Traced P e β) : Traced P e β :=
  match hx : x.result with
  | .error stop =>
    { accesses := x.accesses
      result := .error stop
      stops := fun hbad => by
        rw [← Except.error.inj (hx.symm.trans (x.stops hbad))] }
  | .ok a =>
    { accesses := x.accesses ++ (f a).accesses
      result := (f a).result
      stops := by
        rintro ⟨b, hb, hbad⟩
        rcases List.mem_append.mp hb with hb | hb
        · exact absurd (hx.symm.trans (x.stops ⟨b, hb, hbad⟩)) (by simp)
        · exact (f a).stops ⟨b, hb, hbad⟩ }

instance : Monad (Traced P e) where
  pure a := lift (.ok a)
  bind := andThen

@[simp] theorem safe_lift (x : Except ε α) : (lift x : Traced P e α).Safe := by simp [Safe, lift]

@[simp] theorem result_lift (x : Except ε α) : (lift x : Traced P e α).result = x := rfl

@[simp] theorem safe_pure (a : α) : (pure a : Traced P e α).Safe := safe_lift _

@[simp] theorem result_pure (a : α) : (pure a : Traced P e α).result = .ok a := rfl

@[simp] theorem safe_read {a : A} {v : Except ε α} {h : ¬ P a → v = .error e} :
    (read a v h).Safe ↔ P a := by
  simp [Safe, read]

@[simp] theorem result_read {a : A} {v : Except ε α} {h : ¬ P a → v = .error e} :
    (read a v h).result = v := rfl

variable {x : Traced P e α} {f : α → Traced P e β}

theorem bind_of_error {stop : ε} (h : x.result = .error stop) :
    (x >>= f).accesses = x.accesses ∧ (x >>= f).result = .error stop := by
  show (andThen x f).accesses = _ ∧ (andThen x f).result = _
  rw [andThen]
  split
  · rename_i hx
    obtain rfl := Except.error.inj (hx.symm.trans h)
    exact ⟨rfl, rfl⟩
  · rename_i hx
    exact absurd (hx.symm.trans h) (by simp)

theorem bind_of_ok {a : α} (h : x.result = .ok a) :
    (x >>= f).accesses = x.accesses ++ (f a).accesses ∧ (x >>= f).result = (f a).result := by
  show (andThen x f).accesses = _ ∧ (andThen x f).result = _
  rw [andThen]
  split
  · rename_i hx
    exact absurd (hx.symm.trans h) (by simp)
  · rename_i hx
    obtain rfl := Except.ok.inj (hx.symm.trans h)
    exact ⟨rfl, rfl⟩

/-- Forgetting the trace commutes with sequencing. -/
theorem result_bind : (x >>= f).result = x.result >>= fun a => (f a).result := by
  cases h : x.result with
  | error stop => exact (bind_of_error h).2
  | ok a => exact (bind_of_ok h).2

theorem safe_bind : (x >>= f).Safe ↔ x.Safe ∧ ∀ a, x.result = .ok a → (f a).Safe := by
  cases h : x.result with
  | error stop => simp [Safe, (bind_of_error h).1]
  | ok a => simp [Safe, (bind_of_ok h).1, or_imp, forall_and]

theorem Safe.bind (hx : x.Safe) (hf : ∀ a, (f a).Safe) : (x >>= f).Safe :=
  safe_bind.mpr ⟨hx, fun a _ => hf a⟩

theorem safe_bind_of_ok {a : α} (h : x.result = .ok a) : (x >>= f).Safe ↔ (f a).Safe := by
  rw [safe_bind, and_iff_right (safe_of_result_eq_ok h)]
  simp [h]

theorem safe_bind_of_error {stop : ε} (h : x.result = .error stop) :
    (x >>= f).Safe ↔ x.Safe := by
  simp [safe_bind, h]

@[simp] theorem safe_discard : (discard x).Safe ↔ x.Safe := by
  show (x >>= fun _ => pure ()).Safe ↔ x.Safe
  rw [safe_bind]
  exact and_iff_left fun _ _ => safe_pure _

/-! ### Waiting -/

/-- `check` until it holds, `n` more times at most; what is left of `n`. -/
def waitFor (check : Traced P e Bool) (stop : ε) : ℕ → Traced P e ℕ
  | 0 => do if ← check then return 0 else lift (.error stop)
  | n + 1 => do if ← check then return n + 1 else waitFor check stop n

variable {check : Traced P e Bool} {stop : ε}

theorem safe_waitFor {n : ℕ} : (waitFor check stop n).Safe ↔ check.Safe := by
  induction n with
  | zero =>
    rw [waitFor, safe_bind]
    refine and_iff_left ?_
    intro ready _
    cases ready <;> simp
  | succ n ih =>
    rw [waitFor, safe_bind]
    refine and_iff_left_of_imp ?_
    intro hsafe ready _
    cases ready
    · exact ih.mpr hsafe
    · exact safe_pure _

/-- Nothing changes while it waits, so the wait is over at once or never. -/
theorem result_waitFor {n : ℕ} : (waitFor check stop n).result =
    check.result >>= fun ready => if ready then .ok n else .error stop := by
  induction n with
  | zero =>
    rw [waitFor, result_bind]
    refine congrArg _ (funext fun ready => ?_)
    cases ready <;> rfl
  | succ n ih =>
    rw [waitFor, result_bind]
    cases hcheck : check.result with
    | error stop' => rfl
    | ok ready =>
      rw [hcheck] at ih
      cases ready
      · exact ih
      · rfl

end Traced
