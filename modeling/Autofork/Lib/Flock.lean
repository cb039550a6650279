/-
Processes and the advisory locks they hold.

A lock is held by one process at most, which lets go of it by closing
its file, by exiting or by dying. Which locks a process owns can be read
off where it is in its own program. The two agree (`Agree`) as long as a
process goes on as the owner of a lock only once it has been given it,
and closes those it goes on without. Then two processes that own one
lock are one process (`Agree.exclusive`).
-/
import Mathlib.Logic.Function.Basic

namespace Autofork.Lib

variable {ι κ π : Type}

/-- The process that holds each lock. -/
abbrev Holders (ι κ : Type) := κ → Option ι

namespace Holders

/-- A lock that nobody holds, for process `i`. -/
def tryFlock [DecidableEq κ] (h : Holders ι κ) (i : ι) (l : κ) :
    Option (Holders ι κ) :=
  if h l = none then some (Function.update h l (some i)) else none

/-- Process `i` closes the file of a lock. -/
def close [DecidableEq ι] [DecidableEq κ] (h : Holders ι κ) (i : ι) (l : κ) :
    Holders ι κ := fun l' =>
  if l' = l ∧ h l' = some i then none else h l'

/-- Process `i` is gone, and all its files are closed. -/
def leave [DecidableEq ι] (h : Holders ι κ) (i : ι) : Holders ι κ := fun l =>
  if h l = some i then none else h l

theorem tryFlock_eq_some [DecidableEq κ] {h h' : Holders ι κ} {i : ι} {l : κ}
    (hlock : h.tryFlock i l = some h') :
    h l = none ∧ h' = Function.update h l (some i) := by
  unfold tryFlock at hlock
  split at hlock
  next hfree => exact ⟨hfree, (Option.some.inj hlock).symm⟩
  next => cases hlock

end Holders

-- ============================================================ agreement

/-- Each process holds the locks it owns, and no others. -/
def Agree (owns : π → κ → Prop) (procs : ι → Option π)
    (h : Holders ι κ) : Prop :=
  ∀ i l, h l = some i ↔ ∃ p, procs i = some p ∧ owns p l

section agree

variable {owns : π → κ → Prop} {procs : ι → Option π} {h h' : Holders ι κ}
  {i j : ι} {p p' q : π} {l : κ}

theorem Agree.holds (ha : Agree owns procs h) (hp : procs i = some p)
    (hl : owns p l) : h l = some i :=
  (ha i l).2 ⟨p, hp, hl⟩

theorem Agree.exclusive (ha : Agree owns procs h) (hp : procs i = some p)
    (hq : procs j = some q) (hpl : owns p l) (hql : owns q l) : i = j := by
  have hi := ha.holds hp hpl
  rw [ha.holds hq hql] at hi
  exact (Option.some.inj hi).symm

/-- A process changes, and of the locks only its own. -/
theorem Agree.update [DecidableEq ι] (ha : Agree owns procs h) (i : ι)
    (next : Option π)
    (hself : ∀ l, h' l = some i ↔ ∃ p, next = some p ∧ owns p l)
    (hothers : ∀ j, j ≠ i → ∀ l, h' l = some j ↔ h l = some j) :
    Agree owns (Function.update procs i next) h' := by
  intro j l
  by_cases hj : j = i
  · subst hj
    rw [Function.update_self]
    exact hself l
  · rw [Function.update_of_ne hj, hothers j hj l]
    exact ha j l

/-- A process that owns nothing starts. -/
theorem Agree.start [DecidableEq ι] (ha : Agree owns procs h)
    (hi : procs i = none) (hp : ∀ l, ¬owns p l) :
    Agree owns (Function.update procs i (some p)) h := by
  refine ha.update i (some p) (fun l => ?_) fun _ _ _ => Iff.rfl
  rw [ha i l, hi]
  simp [hp l]

/-- A process goes on with the locks it owns. -/
theorem Agree.proceed [DecidableEq ι] (ha : Agree owns procs h)
    (hi : procs i = some p) (hp : ∀ l, owns p' l ↔ owns p l) :
    Agree owns (Function.update procs i (some p')) h := by
  refine ha.update i (some p') (fun l => ?_) fun _ _ _ => Iff.rfl
  rw [ha i l, hi]
  simp [hp l]

/-- A process is given a lock. -/
theorem Agree.tryFlock [DecidableEq ι] [DecidableEq κ]
    (ha : Agree owns procs h) (hi : procs i = some p)
    (hlock : h.tryFlock i l = some h')
    (hp : ∀ l', owns p' l' ↔ l' = l ∨ owns p l') :
    Agree owns (Function.update procs i (some p')) h' := by
  obtain ⟨hfree, rfl⟩ := Holders.tryFlock_eq_some hlock
  refine ha.update i (some p') (fun l' => ?_) fun j hj l' => ?_
  · by_cases hl : l' = l
    · subst hl
      simp [hp]
    · rw [Function.update_of_ne hl, ha i l', hi]
      simp [hp, hl]
  · by_cases hl : l' = l
    · subst hl
      rw [Function.update_self, hfree]
      simp [Ne.symm hj]
    · rw [Function.update_of_ne hl]

/-- A process closes the file of a lock. -/
theorem Agree.close [DecidableEq ι] [DecidableEq κ]
    (ha : Agree owns procs h) (hi : procs i = some p)
    (hp : ∀ l', owns p' l' ↔ l' ≠ l ∧ owns p l') :
    Agree owns (Function.update procs i (some p')) (h.close i l) := by
  refine ha.update i (some p') (fun l' => ?_) fun j hj l' => ?_
  · have howns : h l' = some i ↔ owns p l' := by
      rw [ha i l', hi]
      simp
    unfold Holders.close
    by_cases hl : l' = l
    · by_cases hheld : h l' = some i <;> simp [hp, hl, hl ▸ hheld]
    · simp [hp, hl, howns]
  · unfold Holders.close
    split
    next hclosed =>
      rw [hclosed.2]
      simp [Ne.symm hj]
    next => exact Iff.rfl

/-- A process exits or dies. -/
theorem Agree.leave [DecidableEq ι] (ha : Agree owns procs h) (i : ι) :
    Agree owns (Function.update procs i none) (h.leave i) := by
  refine ha.update i none (fun l => ?_) fun j hj l => ?_
  · unfold Holders.leave
    split
    next => simp
    next hheld => simp [hheld]
  · unfold Holders.leave
    split
    next hheld =>
      rw [hheld]
      simp [Ne.symm hj]
    next => exact Iff.rfl

end agree

end Autofork.Lib
