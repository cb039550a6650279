/-
Tasks that run from await to await.

Where an action moves no task into the middle of another's, a task at
work knows of the store what its own operations have left it with, and
hands it over at its next await. `Shifting` says so of a world, given a
typestate for each job: tasks at rest know nothing, and the store is in
order; a task at work knows what its typestate means of the store.
-/
import Autofork.Lib.Typestate
import Autofork.Proofs.Steps

namespace Autofork

open Lib

namespace World

/-- What the rule below asks of a typestate for each job: `idle` is what
a task at rest knows, `E` what states of knowledge mean, `I` what holds
of the store while all tasks are at rest. -/
structure Shift (σ : Type) where
  T : Job → Prog.Typestate Op Op.Res σ
  idle : σ
  E : Job → σ → Store → Prop
  I : Store → Prop

variable {σ : Type} {S : Shift σ}

/-- A task from here on. -/
def Shift.Typed (S : Shift σ) (job : Job) (m : σ)
    (p : Handler ResponseBody) : Prop :=
  p.Typed (S.T job) (fun m _ => (S.T job).rests m) m

/-- What is known, and that the rest of every task keeps to it. -/
structure Shifting (S : Shift σ) (w : World) : Prop where
  numbered : w.Numbered
  resting : ∀ k task, w.tasks k = some task →
    w.yielding Op.awaits k = true → S.Typed task.job S.idle task.prog
  working : ∀ k task, w.tasks k = some task →
    w.yielding Op.awaits k = false →
    ∃ m, S.E task.job m w.daemon.store ∧ S.Typed task.job m task.prog
  calm : (∀ j, w.yielding Op.awaits j = true) → S.I w.daemon.store

/-- The handlers keep to the typestate, and awaits forget what is
known. -/
structure Shift.Sound (S : Shift σ) : Prop where
  start : ∀ job, S.Typed job S.idle job.handler
  lost : ∀ job sessionId started,
    S.Typed job S.idle (onPollLost sessionId started)
  idle : ∀ job s, S.I s → S.E job S.idle s
  rests : ∀ job m s, (S.T job).rests m → S.E job m s → S.I s
  restsIdle : ∀ job, (S.T job).rests S.idle
  await : ∀ job m op, op.awaits = true → (S.T job).ok m op →
    (S.T job).rests m ∧ (S.T job).ok S.idle op ∧ ∀ r,
      ((S.T job).valid S.idle op r → (S.T job).valid m op r)
        ∧ (S.T job).next m op r = (S.T job).next S.idle op r

theorem shifting_init (disk : Disk) (hinit : S.I .openInMemory) :
    Shifting S (init disk) where
  numbered := numbered_init disk
  resting k task h := by cases h
  working k task h := by cases h
  calm _ := hinit

/-- What a task knows when it moves while the others rest. -/
theorem Shifting.next {w : World} (h : w.Shifting S) (hsound : S.Sound)
    {k : Nat} {task : Task} (ht : w.tasks k = some task)
    (hothers : ∀ j, j ≠ k → w.yielding Op.awaits j = true) :
    ∃ m, S.E task.job m w.daemon.store ∧ S.Typed task.job m task.prog := by
  cases hy : w.yielding Op.awaits k with
  | false => exact h.working k task ht hy
  | true =>
      refine ⟨S.idle, hsound.idle _ _ (h.calm fun j => ?_), h.resting k task ht hy⟩
      by_cases hj : j = k
      · exact hj ▸ hy
      · exact hothers j hj

/-- Whoever comes to rest hands over the store in order, and knows
nothing from there on. -/
theorem Shift.Sound.rest (hsound : S.Sound) {job : Job} {m : σ}
    {s : Store} {p : Handler ResponseBody} (hm : S.E job m s)
    (hp : S.Typed job m p)
    (hy : ∀ op f, p = .call op f → op.awaits = true) :
    S.I s ∧ S.Typed job S.idle p := by
  cases p with
  | ret body => exact ⟨hsound.rests job m s hp hm, hsound.restsIdle job⟩
  | call op f =>
      obtain ⟨hrests, hok, hnext⟩ := hsound.await job m op (hy op f rfl) hp.1
      refine ⟨hsound.rests job m s hrests hm, hok, fun r hr => ?_⟩
      rw [← (hnext r).2]
      exact hp.2 r ((hnext r).1 hr)

/-- All tasks rest if those with a number do. -/
theorem yielding_of_all {w : World} (hn : w.Numbered) {Y : Op → Bool}
    {P : Nat → Prop} (h : ∀ j < w.jobs.length, P j → w.yielding Y j = true)
    (j : Nat) (hj : P j) : w.yielding Y j = true := by
  cases ht : w.tasks j with
  | none => simp [yielding, ht]
  | some task => exact h j (hn.lt ht) hj

/-- The others rest while a task moves or is lost. -/
theorem unpreempted_others {w : World} (hn : w.Numbered) {a : Act}
    (h : w.unpreempted a = true) {k : Nat}
    (ha : (∃ tick, a = .move k tick) ∨ a = .lose k) :
    ∀ j, j ≠ k → w.yielding Op.awaits j = true := by
  have hall : ((List.range w.jobs.length).all fun j =>
      j == k || w.yielding Op.awaits j) = true := by
    rcases ha with ⟨tick, rfl⟩ | rfl <;> exact h
  refine yielding_of_all hn fun j hlt hj => ?_
  have := List.all_eq_true.1 hall j (List.mem_range.2 hlt)
  simpa [hj] using this

/-- The rule for what tasks know between awaits: it is enough that each
operation keeps what its state of knowledge means. -/
theorem shifting_step (hsound : S.Sound) {w : World} {a : Act}
    (hunpreempted : w.unpreempted a = true)
    (hexec : ∀ k task op m tick d r, a = .move k tick →
      w.tasks k = some task → w.about k = some op →
      S.E task.job m w.daemon.store → (S.T task.job).ok m op →
      exec k op tick w.daemon = some (d, r) →
      (S.T task.job).valid m op r
        ∧ S.E task.job ((S.T task.job).next m op r) d.store)
    (h : w.Shifting S) : (w.step a).Shifting S := by
  have hothers := fun {k} => unpreempted_others (k := k) h.numbered hunpreempted
  -- what the task that moves knows then
  have hmoved : ∀ {k task op f tick d r}, a = .move k tick →
      w.tasks k = some task → task.prog = .call op f →
      w.about k = some op → exec k op tick w.daemon = some (d, r) →
      ∃ m, S.E task.job m d.store ∧ S.Typed task.job m (f r) := by
    intro k task op f tick d r ha ht hprog hab hex
    obtain ⟨m, hm, hp⟩ := h.next hsound ht (hothers (.inl ⟨tick, ha⟩))
    rw [hprog] at hp
    obtain ⟨hvalid, hm'⟩ := hexec k task op m tick d r ha ht hab hm hp.1 hex
    exact ⟨_, hm', hp.2 r hvalid⟩
  have hfinished : ∀ {k task tick}, a = .move k tick →
      w.tasks k = some task → (∃ body, task.prog = .ret body) →
      S.I w.daemon.store := by
    rintro k task tick ha ht ⟨body, hprog⟩
    refine h.calm fun j => ?_
    by_cases hj : j = k
    · obtain ⟨job, started, client, prog⟩ := task
      subst hprog hj
      cases started <;> simp [yielding, ht]
    · exact hothers (.inl ⟨tick, ha⟩) j hj
  have hlost : ∀ {k : Nat} {ev started op f},
      w.tasks k = some ⟨.request (.stopWait ev), started, true, .call op f⟩ →
      (!started || op.awaits) = true → w.yielding Op.awaits k = true := by
    intro k ev started op f hold hlose
    cases started with
    | false => simp [yielding, hold]
    | true => simpa [yielding, hold] using hlose
  refine ⟨numbered_step h.numbered a, ?_, ?_, ?_⟩
  · intro k task ht hy
    rcases step_tasks ht with hold | ⟨job, client, -, -, -, rfl⟩
      | ⟨old, op, f, tick, d, r, ha, hold, hprog, hex, -, rfl⟩
      | ⟨ev, started, op, f, ha, hlose, hold, rfl⟩
    · rw [yielding_congr (ht.trans hold.symm)] at hy
      exact h.resting k task hold hy
    · exact hsound.start job
    · obtain ⟨m, hm, hp⟩ := hmoved ha hold hprog (about_of_prog hold hprog) hex
      refine (hsound.rest hm hp fun op' f' hprog' => ?_).2
      rw [yielding, ht] at hy
      simpa [hprog'] using hy
    · exact hsound.lost _ _ _
  · intro k task ht hy
    rcases step_tasks ht with hold | ⟨job, client, -, -, -, rfl⟩
      | ⟨old, op, f, tick, d, r, ha, hold, hprog, hex, hd, rfl⟩
      | ⟨ev, started, op, f, ha, hlose, hold, rfl⟩
    · rw [yielding_congr (ht.trans hold.symm)] at hy
      -- a task at work is the one that moves, or nothing else does
      rcases w.step_cases a with
        ⟨k₀, old, op, f, tick, d, r, ha, hold₀, hprog, hab, hex, heq⟩
        | ⟨k₀, tick, old, body, ha, hold₀, hprog, heq⟩
        | ⟨disk, graceTimers, heq, -⟩
      · by_cases hk : k = k₀
        · subst hk
          obtain ⟨m, hm, hp⟩ := hmoved ha hold₀ hprog hab hex
          rw [heq] at ht ⊢
          simp only [resumed, upd_same, Option.some.injEq] at ht
          subst ht
          exact ⟨m, hm, hp⟩
        · rw [hothers (.inl ⟨tick, ha⟩) k hk] at hy
          cases hy
      · by_cases hk : k = k₀
        · subst hk
          rw [heq] at ht
          simp at ht
        · rw [hothers (.inl ⟨tick, ha⟩) k hk] at hy
          cases hy
      · rw [heq]
        exact h.working k task hold hy
    · rw [yielding, ht] at hy
      cases hy
    · obtain ⟨m, hm, hp⟩ := hmoved ha hold hprog (about_of_prog hold hprog) hex
      rw [hd]
      exact ⟨m, hm, hp⟩
    · refine ⟨S.idle, hsound.idle _ _ ?_, hsound.lost _ _ _⟩
      rcases w.step_cases a with ⟨_, _, _, _, _, _, _, ha', -⟩
        | ⟨_, _, _, _, ha', -⟩ | ⟨disk, graceTimers, heq, -⟩
      · rw [ha] at ha'
        cases ha'
      · rw [ha] at ha'
        cases ha'
      · rw [heq]
        refine h.calm fun j => ?_
        by_cases hj : j = k
        · exact hj ▸ hlost hold hlose
        · exact hothers (.inr ha) j hj
  · intro hall
    rcases w.step_cases a with
      ⟨k, old, op, f, tick, d, r, ha, hold, hprog, hab, hex, heq⟩
      | ⟨k, tick, old, body, ha, hold, hprog, heq⟩
      | ⟨disk, graceTimers, heq, hmove⟩
    · obtain ⟨m, hm, hp⟩ := hmoved ha hold hprog hab hex
      have hk := hall k
      rw [heq] at hk ⊢
      refine (hsound.rest hm hp fun op' f' hprog' => ?_).1
      simpa [yielding, resumed, hprog'] using hk
    · rw [heq]
      exact hfinished ha hold ⟨body, hprog⟩
    · rw [heq]
      refine h.calm fun j => ?_
      rcases w.step_frame a j with hsame | ⟨tick, ha⟩
        | ⟨-, ev, started, op, f, hlose, hold⟩ | ⟨hj, -⟩
      · exact yielding_congr hsame ▸ hall j
      · exact hmove j tick ha ▸ hall j
      · exact hlost hold hlose
      · cases hold : w.tasks j with
        | none => simp [yielding, hold]
        | some task => exact absurd (h.numbered.lt hold) (by omega)

end World

end Autofork
