/-
One daemon, whose socket nobody else removes.

Where a process is in its program says which locks it owns
(`Process.owns`), and the kernel agrees. Everybody who removes the
socket's file, CLI or daemon, owns the daemon lock while doing so, and
so does a daemon from before it binds the file until it is gone. So
nobody removes the file of a daemon that runs but that daemon itself,
and a daemon that serves is found under it.

`Deed` says once what a step can do.
-/
import Autofork.Launch

namespace Autofork

open Lib

-- ================================================================ locks

/-- The locks a process owns at its line. -/
def Process.owns : Process → LockFile → Bool
  | .cli at_ _, .daemonLock => match at_ with
      | .probed | .removeFile | .dropDaemonLock => true
      | _ => false
  | .cli at_ _, .spawnLock => match at_ with
      | .recheck | .tryFlock | .removeFile | .dropDaemonLock | .spawn
      | .dropSpawnLock _ => true
      | _ => false
  | .daemon at_, .daemonLock => at_.locked
  | .daemon _, .spawnLock => false

/-- A daemon that has bound the socket. -/
def Process.bound : Process → Bool
  | .daemon .serve | .daemon .removeFile | .daemon .dropLock => true
  | _ => false

theorem Process.owns_of_bound {proc : Process} (h : proc.bound = true) :
    proc.owns .daemonLock = true := by
  cases proc with
  | cli at_ polls => cases h
  | daemon at_ => cases at_ <;> first | rfl | cases h

namespace Host

/-- What a step can do. -/
inductive Deed (h : Host) : Act → Host → Prop
  | stay {act : Act} : Deed h act h
  | start {act : Act} {proc : Process} (howns : ∀ l, proc.owns l = false)
      (hbound : proc.bound = false) : Deed h act (h.start proc)
  /-- Neither the locks nor the socket change. -/
  | proceed {act : Act} {p : Nat} {proc next : Process}
      (hp : h.procs p = some proc) (howns : ∀ l, next.owns l = proc.owns l)
      (hbound : next.bound = proc.bound) (hserve : next ≠ .daemon .serve) :
      Deed h act (h.proceed p next)
  | lock {act : Act} {p : Nat} {proc next : Process} {l : LockFile}
      {holders : Holders Nat LockFile} (hp : h.procs p = some proc)
      (hlock : h.holders.tryFlock p l = some holders)
      (howns : ∀ l', next.owns l' = (l' == l || proc.owns l'))
      (hbound : proc.bound = false) (hnext : next.bound = false) :
      Deed h act ({ h with holders }.proceed p next)
  | close {act : Act} {p : Nat} {proc next : Process} {l : LockFile}
      (hp : h.procs p = some proc)
      (howns : ∀ l', next.owns l' = (l' != l && proc.owns l'))
      (hbound : proc.bound = false) (hnext : next.bound = false) :
      Deed h act ((h.close p l).proceed p next)
  /-- The socket's file goes. -/
  | remove {p : Nat} {draw : Draw} {proc next : Process}
      (hp : h.procs p = some proc) (hlock : proc.owns .daemonLock = true)
      (howns : ∀ l, next.owns l = proc.owns l)
      (hbound : next.bound = proc.bound) (hserve : proc ≠ .daemon .serve)
      (hserve' : next ≠ .daemon .serve) :
      Deed h (.move p draw) ((h.removeFile draw).proceed p next)
  | bind {act : Act} {p : Nat} (hp : h.procs p = some (.daemon .bind))
      (hfree : h.socket = none) :
      Deed h act ({ h with socket := some p }.proceed p (.daemon .serve))
  /-- A CLI spawns the daemon. -/
  | spawn {act : Act} {p : Nat} {proc next : Process}
      (hp : h.procs p = some proc) (howns : ∀ l, next.owns l = proc.owns l)
      (hbound : next.bound = proc.bound) (hserve : next ≠ .daemon .serve) :
      Deed h act ((h.start (.daemon .tryLock)).proceed p next)
  | exit {act : Act} (p : Nat) : Deed h act (h.exit p)

theorem tryFlock_cases (h : Host) (p : Nat) (l : LockFile) (draw : Draw) :
    h.tryFlock p l draw = none
      ∨ ∃ holders, h.holders.tryFlock p l = some holders
        ∧ h.tryFlock p l draw = some { h with holders } := by
  unfold tryFlock
  split
  · cases hlock : h.holders.tryFlock p l with
    | none => exact .inl rfl
    | some holders => exact .inr ⟨holders, rfl, rfl⟩
  · exact .inl rfl

section cli

variable {h : Host} {p : Nat} {polls : Bool} {draw : Draw} {act : Act}
  {at_ : Cli}

/-- A CLI goes on with the locks it has. -/
private theorem Deed.cli (hp : h.procs p = some (.cli at_ polls)) (next : Cli)
    (polls' : Bool) (howns : ∀ l, (Process.cli next polls').owns l
      = (Process.cli at_ polls).owns l) :
    Deed h act (h.proceed p (.cli next polls')) :=
  .proceed hp howns rfl nofun

private theorem deed_returned (hp : h.procs p = some (.cli at_ polls))
    (howns : ∀ l, (Process.cli at_ polls).owns l = false) (ok : Bool) :
    Deed h act (h.returned p polls ok) := by
  refine .cli hp _ _ fun l => ?_
  rw [howns]
  split <;> cases l <;> rfl

theorem moveCli_deed (hp : h.procs p = some (.cli at_ polls)) :
    Deed h (.move p draw) (h.moveCli p polls draw at_) := by
  cases at_ with
  | idle => exact .stay
  | hello =>
      refine .cli hp _ _ fun l => ?_
      split <;> cases l <;> rfl
  | shutdown => exact .cli hp _ _ fun l => by cases l <;> rfl
  | probe =>
      simp only [moveCli]
      split
      · exact .cli hp _ _ fun l => by cases l <;> rfl
      · rcases h.tryFlock_cases p .daemonLock draw with hnone | ⟨holders, hl, heq⟩
        · rw [hnone]
          exact .stay
        · rw [heq]
          refine .lock hp hl (fun l => ?_) rfl rfl
          cases l <;> rfl
  | probed =>
      refine .close hp (fun l => ?_) rfl rfl
      cases l <;> rfl
  | connect =>
      refine .cli hp _ _ fun l => ?_
      split <;> cases l <;> rfl
  | flockUntil =>
      simp only [moveCli]
      rcases h.tryFlock_cases p .spawnLock draw with hnone | ⟨holders, hl, heq⟩
      · rw [hnone]
        simp only
        split
        · exact deed_returned hp (fun l => by cases l <;> rfl) true
        · exact .stay
      · rw [heq]
        refine .lock hp hl (fun l => ?_) rfl rfl
        cases l <;> rfl
  | recheck =>
      refine .cli hp _ _ fun l => ?_
      split <;> cases l <;> rfl
  | tryFlock =>
      simp only [moveCli]
      rcases h.tryFlock_cases p .daemonLock draw with hnone | ⟨holders, hl, heq⟩
      · rw [hnone]
        exact .cli hp _ _ fun l => by cases l <;> rfl
      · rw [heq]
        refine .lock hp hl (fun l => ?_) rfl rfl
        cases l <;> rfl
  | removeFile =>
      exact .remove hp rfl (fun l => by cases l <;> rfl) rfl nofun nofun
  | dropDaemonLock =>
      refine .close hp (fun l => ?_) rfl rfl
      cases l <;> rfl
  | spawn =>
      simp only [moveCli]
      split
      · exact .spawn hp (fun l => by cases l <;> rfl) rfl nofun
      · exact .cli hp _ _ fun l => by cases l <;> rfl
  | dropSpawnLock ok =>
      refine .close hp (fun l => ?_) rfl rfl
      split <;> cases l <;> rfl
  | reconnect =>
      simp only [moveCli]
      split
      · exact .cli hp _ _ fun l => by cases l <;> rfl
      · exact .stay

end cli

theorem moveMain_deed {h : Host} {p : Nat} {draw : Draw} {at_ : Main}
    (hp : h.procs p = some (.daemon at_)) :
    Deed h (.move p draw) (h.moveMain p draw at_) := by
  cases at_ with
  | tryLock =>
      simp only [moveMain]
      rcases h.tryFlock_cases p .daemonLock draw with hnone | ⟨holders, hl, heq⟩
      · rw [hnone]
        exact .exit p
      · rw [heq]
        refine .lock hp hl (fun l => ?_) rfl rfl
        cases l <;> rfl
  | openStore =>
      simp only [moveMain]
      split
      · exact .proceed hp (fun l => by cases l <;> rfl) rfl nofun
      · exact .exit p
  | removeStale =>
      exact .remove hp rfl (fun l => by cases l <;> rfl) rfl nofun nofun
  | bind =>
      simp only [moveMain]
      split
      next hbind =>
        rw [Bool.and_eq_true, Option.isNone_iff_eq_none] at hbind
        exact .bind hp hbind.2
      next => exact .exit p
  | serve => exact .proceed hp (fun l => by cases l <;> rfl) rfl nofun
  | removeFile =>
      exact .remove hp rfl (fun l => by cases l <;> rfl) rfl nofun nofun
  | dropLock => exact .exit p

theorem step_deed (h : Host) (act : Act) : Deed h act (h.step act) := by
  cases act with
  | run byHand =>
      refine .start (fun l => ?_) ?_
      · cases byHand <;> cases l <;> rfl
      · cases byHand <;> rfl
  | call p entry =>
      simp only [step]
      split
      next polls hp =>
        cases entry <;>
          exact .cli hp _ _ fun l => by cases l <;> rfl
      next => exact .stay
  | move p draw =>
      simp only [step]
      split
      next at_ polls hp => exact moveCli_deed hp
      next at_ hp => exact moveMain_deed hp
      next => exact .stay
  | die p => exact .exit p

-- ============================================================ in order

/-- The kernel agrees with the programs, and the socket belongs to a
daemon that has bound it and is not gone, or to none. -/
structure Ordered (h : Host) : Prop where
  agree : Agree (fun (proc : Process) l => proc.owns l = true) h.procs h.holders
  numbered : ∀ p, h.started ≤ p → h.procs p = none
  bound : ∀ p, h.socket = some p → p < h.started
    ∧ ∀ proc, h.procs p = some proc → proc.bound = true
  serving : ∀ p, h.procs p = some (.daemon .serve) → h.socket = some p

theorem ordered_init : Ordered {} where
  agree p l := by simp
  numbered p _ := rfl
  bound p h := by cases h
  serving p h := by cases h

variable {h : Host} {p : Nat} {proc next : Process}

theorem Ordered.lt (ho : h.Ordered) (hp : h.procs p = some proc) :
    p < h.started := by
  by_contra hlt
  rw [ho.numbered p (by omega)] at hp
  cases hp

/-- Who runs and has bound the socket owns the daemon lock. -/
theorem Ordered.owns_of_socket (ho : h.Ordered) (hsocket : h.socket = some p)
    (hp : h.procs p = some proc) : proc.owns .daemonLock = true :=
  Process.owns_of_bound ((ho.bound p hsocket).2 proc hp)

/-- A process goes on, whatever becomes of its locks. -/
private theorem Ordered.proceed (ho : h.Ordered) {holders : Holders Nat LockFile}
    (hp : h.procs p = some proc)
    (hagree : Agree (fun (proc : Process) l => proc.owns l = true)
      (Function.update h.procs p (some next)) holders)
    (hbound : next.bound = proc.bound) (hserve : next ≠ .daemon .serve) :
    ({ h with holders }.proceed p next).Ordered where
  agree := hagree
  numbered q hq := by
    have hlt := ho.lt hp
    have hq : h.started ≤ q := hq
    rw [procs_proceed_of_ne _ _ (by omega)]
    exact ho.numbered q hq
  bound q hsocket := by
    refine ⟨(ho.bound q hsocket).1, fun proc' hq => ?_⟩
    by_cases hqp : q = p
    · subst hqp
      rw [procs_proceed, Option.some.injEq] at hq
      rw [← hq, hbound]
      exact (ho.bound q hsocket).2 proc hp
    · rw [procs_proceed_of_ne _ _ hqp] at hq
      exact (ho.bound q hsocket).2 proc' hq
  serving q hq := by
    by_cases hqp : q = p
    · subst hqp
      rw [procs_proceed, Option.some.injEq] at hq
      exact absurd hq hserve
    · rw [procs_proceed_of_ne _ _ hqp] at hq
      exact ho.serving q hq

private theorem Ordered.start (ho : h.Ordered)
    (howns : ∀ l, proc.owns l = false) (hbound : proc.bound = false) :
    (h.start proc).Ordered where
  agree := ho.agree.start (ho.numbered _ (Nat.le_refl _)) fun l => by
    simp [howns]
  numbered q hq := by
    have hq : h.started + 1 ≤ q := hq
    rw [procs_start_of_ne _ _ (by omega)]
    exact ho.numbered q (by omega)
  bound q hsocket := by
    obtain ⟨hlt, hq⟩ := ho.bound q hsocket
    refine ⟨Nat.lt_succ_of_lt hlt, fun proc' hq' => ?_⟩
    rw [procs_start_of_ne _ _ (Nat.ne_of_lt hlt)] at hq'
    exact hq proc' hq'
  serving q hq := by
    by_cases hqs : q = h.started
    · subst hqs
      rw [procs_start, Option.some.injEq] at hq
      rw [hq] at hbound
      cases hbound
    · rw [procs_start_of_ne _ _ hqs] at hq
      exact ho.serving q hq

/-- Only a file that no daemon serves under is removed. -/
private theorem Ordered.removeFile (ho : h.Ordered)
    (hp : h.procs p = some proc) (hlock : proc.owns .daemonLock = true)
    (hserve : proc ≠ .daemon .serve) (draw : Draw) :
    (h.removeFile draw).Ordered := by
  unfold Host.removeFile
  split
  · refine ⟨ho.agree, ho.numbered, fun q hq => (by cases hq), fun q hq => ?_⟩
    have hqp : q = p := ho.agree.exclusive hq hp rfl hlock
    rw [hqp] at hq
    exact absurd (Option.some.inj (hp.symm.trans hq)) hserve
  · exact ho

private theorem Ordered.bind (ho : h.Ordered)
    (hp : h.procs p = some (.daemon .bind)) (hfree : h.socket = none) :
    ({ h with socket := some p }.proceed p (.daemon .serve)).Ordered where
  agree := ho.agree.proceed hp fun l => by cases l <;> rfl
  numbered q hq := by
    have hlt := ho.lt hp
    have hq : h.started ≤ q := hq
    rw [procs_proceed_of_ne _ _ (by omega)]
    exact ho.numbered q hq
  bound q hq := by
    obtain rfl : p = q := Option.some.inj hq
    refine ⟨ho.lt hp, fun proc' hq => ?_⟩
    rw [procs_proceed, Option.some.injEq] at hq
    rw [← hq]
    rfl
  serving q hq := by
    by_cases hqp : q = p
    · exact congrArg some hqp.symm
    · rw [procs_proceed_of_ne _ _ hqp] at hq
      have hq := ho.serving q hq
      rw [hfree] at hq
      cases hq

private theorem Ordered.exit (ho : h.Ordered) (p : Nat) :
    (h.exit p).Ordered where
  agree := ho.agree.leave p
  numbered q hq := by
    by_cases hqp : q = p
    · rw [hqp, procs_exit]
    · rw [procs_exit_of_ne _ hqp]
      exact ho.numbered q hq
  bound q hsocket := by
    refine ⟨(ho.bound q hsocket).1, fun proc' hq => ?_⟩
    by_cases hqp : q = p
    · rw [hqp, procs_exit] at hq
      cases hq
    · rw [procs_exit_of_ne _ hqp] at hq
      exact (ho.bound q hsocket).2 proc' hq
  serving q hq := by
    by_cases hqp : q = p
    · rw [hqp, procs_exit] at hq
      cases hq
    · rw [procs_exit_of_ne _ hqp] at hq
      exact ho.serving q hq

theorem ordered_step (ho : h.Ordered) (act : Act) : (h.step act).Ordered := by
  have hagree : ∀ {h : Host} {p : Nat} {proc next : Process}, h.Ordered →
      h.procs p = some proc → (∀ l, next.owns l = proc.owns l) →
      Agree (fun (proc : Process) l => proc.owns l = true)
        (Function.update h.procs p (some next)) h.holders :=
    fun ho hp howns => ho.agree.proceed hp fun l => by rw [howns]
  have hdeed := h.step_deed act
  generalize h.step act = next at hdeed ⊢
  cases hdeed with
  | stay => exact ho
  | start howns hbound => exact ho.start howns hbound
  | proceed hp howns hbound hserve =>
      exact ho.proceed hp (hagree ho hp howns) hbound hserve
  | lock hp hlock howns hbound hnext =>
      refine ho.proceed hp (ho.agree.tryFlock hp hlock fun l => ?_)
        (hnext.trans hbound.symm) ?_
      · simp [howns]
      · rintro rfl
        cases hnext
  | close hp howns hbound hnext =>
      refine ho.proceed hp (ho.agree.close hp fun l => ?_)
        (hnext.trans hbound.symm) ?_
      · simp [howns]
      · rintro rfl
        cases hnext
  | remove hp hlock howns hbound hserve hserve' =>
      rename_i p draw proc next
      have ho' := ho.removeFile hp hlock hserve draw
      have hp' : (h.removeFile draw).procs p = some proc := by
        unfold Host.removeFile
        split <;> exact hp
      exact ho'.proceed hp' (hagree ho' hp' howns) hbound hserve'
  | bind hp hfree => exact ho.bind hp hfree
  | spawn hp howns hbound hserve =>
      have ho' : (h.start (.daemon .tryLock)).Ordered :=
        ho.start (fun l => by cases l <;> rfl) rfl
      have hp' := (procs_start_of_ne h (.daemon .tryLock)
        (Nat.ne_of_lt (ho.lt hp))).trans hp
      exact ho'.proceed hp' (hagree ho' hp' howns) hbound hserve
  | exit p => exact ho.exit p

theorem ordered_after (acts : List Act) : (after acts).Ordered :=
  run_invariant (P := Ordered) (fun _ act ho => ordered_step ho act)
    ordered_init acts

/-- One daemon holds its lock at a time, the file of a daemon that runs
is removed by its own steps only, and one that serves is found under
it. -/
structure Single (h : Host) : Prop where
  one : ∀ p q at_ at_', h.procs p = some (.daemon at_) →
    h.procs q = some (.daemon at_') → at_.locked = true →
    at_'.locked = true → p = q
  socket : ∀ p act, h.socket = some p → (h.procs p).isSome = true →
    (h.step act).socket ≠ some p → ∃ draw, act = .move p draw
  found : ∀ p, h.procs p = some (.daemon .serve) → h.socket = some p

end Host

/-- However CLIs and daemons interleave, and whichever of them die, there
is one daemon, and nobody else removes its socket. -/
theorem one_daemon (acts : List Host.Act) : (Host.after acts).Single := by
  have ho := Host.ordered_after acts
  constructor
  case one =>
    intro p q at_ at_' hp hq hlocked hlocked'
    have howns : (Process.daemon at_).owns .daemonLock = true := hlocked
    exact ho.agree.exclusive hp hq howns hlocked'
  case socket =>
    intro p act hsocket halive hgone
    obtain ⟨proc, hp⟩ := Option.isSome_iff_exists.1 halive
    generalize hnext : (Host.after acts).step act = next at hgone
    have hdeed := (Host.after acts).step_deed act
    rw [hnext] at hdeed
    cases hdeed with
    | remove hp' hlock _ _ _ _ =>
        -- who removes a file owns the lock, and so does who has bound it
        obtain rfl := ho.agree.exclusive hp hp' (ho.owns_of_socket hsocket hp) hlock
        exact ⟨_, rfl⟩
    | bind _ hfree =>
        rw [hfree] at hsocket
        cases hsocket
    | _ => exact absurd hsocket hgone
  case found => exact ho.serving

-- two CLIs find no daemon, and each spawns one: the later of the two to
-- come to its lock leaves
example :
    let h := Host.after ([.run false, .run false,
      .call 0 .spawnDaemonDetached, .call 1 .spawnDaemonDetached]
      ++ List.replicate 7 (.move 0 {}) ++ List.replicate 7 (.move 1 {})
      ++ [.move 2 {}, .move 3 {}] ++ List.replicate 3 (.move 2 {}))
    h.started = 4 ∧ h.procs 2 = some (.daemon .serve) ∧ h.procs 3 = none
      ∧ h.socket = some 2 := by decide

end Autofork
