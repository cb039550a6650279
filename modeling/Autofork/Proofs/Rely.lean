/-
Tasks among others that keep what they rely on.

Where nothing is atomic but an operation, a task may rely only on facts
that no step takes back. `Relying` says so of a world, given a typestate
for each number: every task knows something that holds, its rest keeps
to the typestate from there, and the shared state satisfies an invariant
that operations performed where they may be do not break.
-/
import Autofork.Lib.Typestate
import Autofork.Proofs.Steps

namespace Autofork

open Lib

namespace World

/-- What the rule below asks: a typestate for each number, what states
of knowledge mean of the store and the files, and the invariant. -/
structure Rely (σ : Type) where
  T : Nat → Prog.Typestate Op Op.Res σ
  E : σ → Store → Disk → Prop
  I : Store → Disk → Prop

variable {σ : Type} {R : Rely σ}

/-- A task from here on. -/
def Rely.Typed (R : Rely σ) (k : Nat) (m : σ) (p : Handler ResponseBody) :
    Prop :=
  p.Typed (R.T k) (fun _ _ => True) m

/-- What holds, and what every task knows. -/
structure Relying (R : Rely σ) (w : World) : Prop where
  inv : R.I w.daemon.store w.daemon.disk
  knows : ∀ k task, w.tasks k = some task →
    ∃ m, R.E m w.daemon.store w.daemon.disk ∧ R.Typed k m task.prog

theorem relying_init {disk : Disk} (h : R.I .openInMemory disk) :
    Relying R (init disk) where
  inv := h
  knows k task h := by cases h

/-- A task's next operation is one it may perform. -/
theorem Relying.next {w : World} (h : w.Relying R) {k : Nat} {op : Op}
    (hab : w.about k = some op) :
    ∃ m, R.E m w.daemon.store w.daemon.disk ∧ (R.T k).ok m op := by
  obtain ⟨task, f, htask, hprog⟩ := about_eq_some hab
  obtain ⟨m, hm, hp⟩ := h.knows k task htask
  rw [hprog] at hp
  exact ⟨m, hm, hp.1⟩

/-- The rule: operations keep the invariant and establish what they
should, no step takes back what is known, and new handlers start from
what they may. -/
theorem relying_step {w : World} {a : Act}
    (hexec : ∀ k op m tick d r, a = .move k tick → w.about k = some op →
      R.I w.daemon.store w.daemon.disk → R.E m w.daemon.store w.daemon.disk →
      (R.T k).ok m op → exec k op tick w.daemon = some (d, r) →
      R.I d.store d.disk ∧ (R.T k).valid m op r
        ∧ R.E ((R.T k).next m op r) d.store d.disk)
    (hkeep : ∀ m, R.E m w.daemon.store w.daemon.disk →
      R.E m (w.step a).daemon.store (w.step a).daemon.disk)
    (hedit : ∀ disk, a = .edit disk → R.I w.daemon.store w.daemon.disk →
      R.I w.daemon.store disk)
    (hstart : ∀ job, (w.step a).jobs = w.jobs ++ [job] →
      ∃ m, R.E m (w.step a).daemon.store (w.step a).daemon.disk
        ∧ R.Typed w.jobs.length m job.handler)
    (hlost : ∀ k sessionId started, a = .lose k →
      ∃ m, R.E m (w.step a).daemon.store (w.step a).daemon.disk
        ∧ R.Typed k m (onPollLost sessionId started))
    (h : w.Relying R) : (w.step a).Relying R := by
  have hmoved : ∀ {k task op f tick d r}, a = .move k tick →
      w.tasks k = some task → task.prog = .call op f →
      exec k op tick w.daemon = some (d, r) →
      R.I d.store d.disk ∧ ∃ m, R.E m d.store d.disk ∧ R.Typed k m (f r) := by
    intro k task op f tick d r ha ht hprog hex
    obtain ⟨m, hm, hp⟩ := h.knows k task ht
    rw [hprog] at hp
    obtain ⟨hinv, hvalid, hm'⟩ := hexec k op m tick d r ha
      (about_of_prog ht hprog) h.inv hm hp.1 hex
    exact ⟨hinv, _, hm', hp.2 r hvalid⟩
  constructor
  · rcases w.step_cases a with
      ⟨k, task, op, f, tick, d, r, ha, ht, hprog, -, hex, heq⟩
      | ⟨k, tick, task, body, -, -, -, heq⟩ | ⟨disk, graceTimers, heq, -⟩
    · rw [heq]
      exact (hmoved ha ht hprog hex).1
    · rw [heq]
      exact h.inv
    · have hstore : (w.step a).daemon.store = w.daemon.store := by rw [heq]
      rw [hstore]
      by_cases hed : ∃ disk, a = .edit disk
      · obtain ⟨disk, rfl⟩ := hed
        exact hedit disk rfl h.inv
      · push Not at hed
        rw [w.step_disk hed]
        exact h.inv
  · intro k task ht
    rcases step_tasks ht with hold | ⟨job, client, rfl, hjobs, -, rfl⟩
      | ⟨old, op, f, tick, d, r, ha, hold, hprog, hex, hd, rfl⟩
      | ⟨ev, started, op, f, ha, -, -, rfl⟩
    · obtain ⟨m, hm, hp⟩ := h.knows k task hold
      exact ⟨m, hkeep m hm, hp⟩
    · exact hstart job hjobs
    · rw [hd]
      exact (hmoved ha hold hprog hex).2
    · exact hlost k _ _ ha

end World

end Autofork
