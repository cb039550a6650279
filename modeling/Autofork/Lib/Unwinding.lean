/-
Unwinding: two runs that look the same to an observer.

The observer sees some of the steps, and of each of these what a view
tells. Where a relation between states survives a step nobody sees, on
either side, and two steps that look the same, runs that look the same
lead from related states to related states, whatever else happens in
them.
-/
import Autofork.Lib.Run

namespace Autofork.Lib

variable {σ α ν : Type}

/-- What the observer sees of a run, in order. -/
def sights (step : σ → α → σ) (view : σ → α → Option ν) :
    σ → List α → List ν
  | _, [] => []
  | s, a :: as => (view s a).toList ++ sights step view (step s a) as

section unwinding

variable {step : σ → α → σ} {view : σ → α → Option ν}

theorem sights_hidden {s : σ} {a : α} {as : List α} (h : view s a = none) :
    sights step view s (a :: as) = sights step view (step s a) as := by
  rw [sights, h, Option.toList_none, List.nil_append]

theorem sights_seen {s : σ} {a : α} {as : List α} {v : ν}
    (h : view s a = some v) :
    sights step view s (a :: as) = v :: sights step view (step s a) as := by
  rw [sights, h, Option.toList_some, List.singleton_append]

variable {C : σ → α → Prop} {R : σ → σ → Prop}

/-- Past the steps nobody sees, to the first one somebody does. -/
private theorem past_hidden
    (hright : ∀ s t b, R s t → view t b = none → R s (step t b))
    {s t : σ} {v : ν} {vs : List ν} {bs : List α} (h : R s t)
    (hbs : v :: vs = sights step view t bs) :
    ∃ t' b bs', R s t' ∧ view t' b = some v
      ∧ vs = sights step view (step t' b) bs'
      ∧ run step t bs = run step (step t' b) bs' := by
  induction bs generalizing t with
  | nil => cases hbs
  | cons b bs ih =>
      cases hb : view t b with
      | none =>
          rw [sights_hidden hb] at hbs
          exact ih (hright s t b h hb) hbs
      | some v' =>
          rw [sights_seen hb, List.cons.injEq] at hbs
          exact ⟨t, b, bs, h, hb.trans (congrArg some hbs.1.symm), hbs.2, rfl⟩

/-- The unwinding rule. -/
theorem unwinding
    (hleft : ∀ s t a, R s t → view s a = none → R (step s a) t)
    (hright : ∀ s t b, R s t → view t b = none → R s (step t b))
    (hboth : ∀ s t a b v, R s t → C s a → view s a = some v →
      view t b = some v → R (step s a) (step t b))
    {s t : σ} {as bs : List α} (h : R s t) (hC : Along step C s as)
    (heq : sights step view s as = sights step view t bs) :
    R (run step s as) (run step t bs) := by
  induction as generalizing s t bs with
  | nil =>
      -- nothing is seen of the other run either
      induction bs generalizing t with
      | nil => exact h
      | cons b bs ih =>
          cases hb : view t b with
          | none =>
              rw [sights_hidden hb] at heq
              exact ih (hright s t b h hb) heq
          | some v =>
              rw [sights_seen hb] at heq
              cases heq
  | cons a as ih =>
      cases ha : view s a with
      | none =>
          rw [sights_hidden ha] at heq
          exact ih (hleft s t a h ha) hC.2 heq
      | some v =>
          rw [sights_seen ha] at heq
          obtain ⟨t', b, bs', h', hb, hvs, hrun⟩ := past_hidden hright h heq
          rw [hrun]
          exact ih (hboth s t' a b v h' hC.1 ha hb) hC.2 hvs

end unwinding

end Autofork.Lib
