/-
Runs of a deterministic transition function, and the two rules every
safety result over them uses: an invariant preserved by each step holds
after every run, and one preserved by each step that meets a side
condition holds after every run all of whose steps meet it.

Nondeterminism lives in the action list: which party moves, what it
reads, what the clock says. An action that is not enabled is expected
to leave the state alone, so every list of actions is a run.
-/
import Mathlib.Data.List.Basic

namespace Autofork.Lib

variable {σ α : Type}

/-- The state after a list of actions. -/
def run (step : σ → α → σ) (s : σ) (as : List α) : σ := as.foldl step s

/-- Every step of the run meets `C`, read at the state before it. -/
def Along (step : σ → α → σ) (C : σ → α → Prop) : σ → List α → Prop
  | _, [] => True
  | s, a :: as => C s a ∧ Along step C (step s a) as

variable {step : σ → α → σ}

instance Along.decidable {C : σ → α → Prop} [∀ s a, Decidable (C s a)] :
    ∀ (s : σ) (as : List α), Decidable (Along step C s as)
  | _, [] => isTrue trivial
  | s, a :: as =>
      have := Along.decidable (C := C) (step s a) as
      inferInstanceAs (Decidable (_ ∧ _))

@[simp] theorem run_nil (s : σ) : run step s [] = s := rfl

@[simp] theorem run_cons (s : σ) (a : α) (as : List α) :
    run step s (a :: as) = run step (step s a) as := rfl

@[simp] theorem run_append (s : σ) (as bs : List α) :
    run step s (as ++ bs) = run step (run step s as) bs := List.foldl_append

theorem along_append {C : σ → α → Prop} (s : σ) (as bs : List α) :
    Along step C s (as ++ bs)
      ↔ Along step C s as ∧ Along step C (run step s as) bs := by
  induction as generalizing s with
  | nil => simp [Along]
  | cons a as ih => simp only [List.cons_append, Along, ih, run_cons, and_assoc]

/-- What the last step of a run meets. -/
theorem Along.last {C : σ → α → Prop} {s : σ} {as : List α} {a : α}
    (h : Along step C s (as ++ [a])) : C (run step s as) a := by
  rw [along_append] at h
  exact h.2.1

/-- Every step, one by one: the steps before it lead to where it is
taken. -/
theorem along_iff {C : σ → α → Prop} {s : σ} {as : List α} :
    Along step C s as ↔ ∀ bs a cs, as = bs ++ a :: cs → C (run step s bs) a := by
  induction as generalizing s with
  | nil => simp [Along]
  | cons a as ih =>
      rw [Along, ih]
      constructor
      · rintro ⟨ha, has⟩ bs b cs heq
        cases bs with
        | nil =>
            rw [List.nil_append, List.cons.injEq] at heq
            exact heq.1 ▸ ha
        | cons b' bs =>
            rw [List.cons_append, List.cons.injEq] at heq
            rw [run_cons, ← heq.1]
            exact has bs b cs heq.2
      · intro h
        refine ⟨h [] a as rfl, fun bs b cs heq => ?_⟩
        exact h (a :: bs) b cs (by rw [heq, List.cons_append])

theorem Along.mono {C D : σ → α → Prop} (h : ∀ s a, C s a → D s a) {s : σ}
    {as : List α} (hC : Along step C s as) : Along step D s as := by
  induction as generalizing s with
  | nil => trivial
  | cons a as ih => exact ⟨h _ _ hC.1, ih hC.2⟩

theorem Along.and {C D : σ → α → Prop} {s : σ} {as : List α}
    (hC : Along step C s as) (hD : Along step D s as) :
    Along step (fun s a => C s a ∧ D s a) s as := by
  induction as generalizing s with
  | nil => trivial
  | cons a as ih => exact ⟨⟨hC.1, hD.1⟩, ih hC.2 hD.2⟩

/-- The guarded invariant rule. -/
theorem Along.invariant {C : σ → α → Prop} {P : σ → Prop}
    (hstep : ∀ s a, C s a → P s → P (step s a)) {s : σ} {as : List α}
    (hC : Along step C s as) (h : P s) : P (run step s as) := by
  induction as generalizing s with
  | nil => exact h
  | cons a as ih => exact ih hC.2 (hstep s a hC.1 h)

/-- An invariant of the run holds at each of its steps. -/
theorem Along.keeping {C : σ → α → Prop} {P : σ → Prop}
    (hstep : ∀ s a, C s a → P s → P (step s a)) {s : σ} {as : List α}
    (hC : Along step C s as) (h : P s) :
    Along step (fun s a => C s a ∧ P s) s as := by
  induction as generalizing s with
  | nil => trivial
  | cons a as ih => exact ⟨⟨hC.1, h⟩, ih hC.2 (hstep s a hC.1 h)⟩

/-- The invariant rule. -/
theorem run_invariant {P : σ → Prop} (hstep : ∀ s a, P s → P (step s a))
    {s : σ} (h : P s) (as : List α) : P (run step s as) := by
  induction as generalizing s with
  | nil => exact h
  | cons a as ih => exact ih (hstep s a h)

end Autofork.Lib
