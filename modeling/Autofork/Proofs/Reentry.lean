/-
Whether a held dependent is selected again.

Nothing in a selection looks at the held rows. A held dependent stays
out of it because the wake that holds it has taken the latch of the
trigger it is held under (`held_under`), and so only as long as it is
matched by that trigger: a gauge that has grown past a threshold, or a
deadline that has passed, can make another trigger its first match, and
then it is selected while it is held (`held_reselected`).

`HeldOut` says of a poll, in terms of the wakes that were issued, that
each held dependent is filtered, throttled, or first matched by a
trigger a wake has taken it under, and that is exactly when the poll
selects none of them (`keptOut_iff`). A dependent matched by the trigger
it is held under, in the same pause if that is idling, is among these
(`taken_of_rematched`). In a run whose stampings are of such polls, each
issuance of a dependent leads to one spawn instruction at most, and to
none before its predecessors have finished.
-/
import Autofork.Proofs.Issues
import Autofork.Proofs.Releases
import Autofork.Proofs.Select

namespace Autofork

open Lib

variable {a : String}

-- ============================================================== one poll

/-- A wake has taken this trigger of the fork since the session was
opened, in the present pause if the trigger is idling. -/
def Taken (session : SessionRow) (f : String) (l : List Obs) :
    ForkRunOn → Prop
  | .idle _ => Consumed session.sessionId f
      (idlePauseKey session.pauseEpoch) l
  | first => Consumed session.sessionId f first.label l

instance (session : SessionRow) (f : String) (l : List Obs)
    (first : ForkRunOn) : Decidable (Taken session f l first) := by
  unfold Taken Consumed
  split <;> infer_instance

/-- What a wake has taken is what the latches show as taken. -/
private theorem latchTaken_iff_taken {store : Store} {l : List Obs}
    (hmatch : LatchesMatch store l) {session : SessionRow} {f : String}
    {moments : List ForkMoment} {defaultIdleSecs : Nat} {first : ForkRunOn}
    (hdue : Due moments defaultIdleSecs first) :
    latchTaken store session f first = true ↔ Taken session f l first := by
  rw [latchTaken, latchKeyFor_of_due hdue, Option.any_some]
  cases first <;> exact hmatch ..

/-- A fork is kept out of a selection: by a filter or a throttle, or
because a wake has taken its first match. -/
def KeptOut (store : Store) (disk : Disk) (l : List Obs)
    (session : SessionRow) (cfg : Config) (moments : List ForkMoment)
    (t : Int) (f : String) : Prop :=
  ∀ entry ∈ store.rosterOf session.sessionId, entry.forkName = f →
    ∀ fork, disk.forkAt entry = some fork →
    Admitted store session cfg t entry fork → ∀ first,
    FirstMatch fork.runOn moments cfg.defaultIdleDeadlineSecs first →
    Taken session f l first

/-- A selection leaves out exactly the forks that are kept out. -/
theorem keptOut_iff {store : Store} {disk : Disk} {l : List Obs}
    (hmatch : LatchesMatch store l) {session : SessionRow} {cfg : Config}
    {moments : List ForkMoment} {t : Int} {f : String} :
    (∀ x ∈ selectFrom store disk session cfg moments t, x.name ≠ f)
      ↔ KeptOut store disk l session cfg moments t f := by
  constructor
  · rintro h entry hentry rfl fork hfork hadm first hfirst
    by_cases hfree : latchTaken store session entry.forkName first = true
    · exact (latchTaken_iff_taken hmatch hfirst.due.2).1 hfree
    · rw [Bool.not_eq_true] at hfree
      obtain ⟨x, hx, hxname⟩ :=
        (mem_selectFrom hentry hfork).2 ⟨hadm, first, hfirst, hfree⟩
      exact absurd hxname (h x hx)
  · rintro h x hx rfl
    obtain ⟨entry, hentry, hx⟩ := List.mem_filterMap.1 hx
    have hsame := selectEntry_name hx
    cases hfork : disk.forkAt entry with
    | none => simp [selectEntry, hfork] at hx
    | some fork =>
        obtain ⟨hadm, first, hfirst, hfree, -⟩ :=
          (selectEntry_eq_some_iff hfork).1 hx
        have htaken := (latchTaken_iff_taken hmatch hfirst.due.2).2
          (h entry hentry hsame.symm fork hfork hadm first hfirst)
        rw [hsame, hfree] at htaken
        cases htaken

/-- Every dependent held for the session is kept out of a selection. -/
def HeldOut (store : Store) (disk : Disk) (l : List Obs)
    (session : SessionRow) (cfg : Config) (moments : List ForkMoment)
    (t : Int) : Prop :=
  ∀ row ∈ store.pending.rows, row.sessionId = session.sessionId →
    KeptOut store disk l session cfg moments t row.forkName

/-- The issuance that wrote the row worked from one of this pause. -/
def HeldIn (pauseEpoch : Int) (row : PendingRec) (l : List Obs) : Prop :=
  ∃ k session selected t,
    entry l row.issue = some (.issued k session selected t)
      ∧ session.pauseEpoch = pauseEpoch

/-- The trigger is the one the row is held under, in the same pause if
it is idling. -/
def Rematched (session : SessionRow) (row : PendingRec) (l : List Obs)
    (first : ForkRunOn) : Prop :=
  first.label = row.triggerLabel
    ∧ ∀ s, first = .idle s → HeldIn session.pauseEpoch row l

/-- The wake that holds a dependent has taken it under that trigger. -/
theorem taken_of_rematched {disk : Disk} {as : List Act} {row : PendingRec}
    (hrow : row ∈ (World.after disk as).daemon.store.pending.rows)
    {session : SessionRow} (ha : row.sessionId = session.sessionId)
    {first : ForkRunOn}
    (h : Rematched session row (World.after disk as).daemon.log first) :
    Taken session row.forkName (World.after disk as).daemon.log first := by
  obtain ⟨hlabel, hpause⟩ := h
  obtain ⟨k, from_, selected, t, trigger, key, hentry, hlabel', hkey, hl⟩ :=
    held_under disk as row hrow
  have hconsumed := (latched_iff_consumed disk as _ _ _).1 hl
  rw [ha] at hconsumed
  cases first with
  | idle s =>
      obtain ⟨k', from', selected', t', hentry', hepoch⟩ := hpause s rfl
      obtain ⟨-, rfl, -, -⟩ :=
        Obs.issued.inj (Option.some.inj (hentry.symm.trans hentry'))
      obtain rfl := ForkRunOn.eq_idle_of_label (hlabel'.trans hlabel.symm)
      rw [← Option.some.inj hkey, hepoch] at hconsumed
      exact hconsumed
  | _ =>
      rw [latchKey_of_label (hlabel'.trans hlabel.symm) hkey (by simp)]
        at hconsumed
      exact hconsumed

-- ============================================================== over runs

/-- A stamping for session `a` is of a selection that is current, and
that the held dependents are kept out of. -/
def settledHeld (a : String) (w : World) : Act → Prop
  | .move k _ => match w.about k with
      | some (.write (.stamp session selected _)) => session.sessionId = a →
          ∃ cfg moments t, selected = selectFrom w.daemon.store w.daemon.disk
              session cfg moments t
            ∧ HeldOut w.daemon.store w.daemon.disk w.daemon.log session cfg
              moments t
      | _ => True
  | _ => True

/-- A stamping for session `a` issues no fork that is held. -/
def stampsUnheld (a : String) (w : World) : Act → Prop
  | .move k _ => match w.about k with
      | some (.write (.stamp session selected _)) => session.sessionId = a →
          ∀ row ∈ w.daemon.store.pending.rows, row.sessionId = a →
            ∀ x ∈ selected, x.name ≠ row.forkName
      | _ => True
  | _ => True

private theorem stampsUnheld_of_settled {w : World} {act : Act}
    (hmatch : LatchesMatch w.daemon.store w.daemon.log)
    (h : settledHeld a w act) : stampsUnheld a w act := by
  unfold settledHeld at h
  unfold stampsUnheld
  split at h
  next k tick =>
    split at h
    next session selected t hab =>
      intro ha row hrow hrowa
      obtain ⟨cfg, moments, t, rfl, hout⟩ := h ha
      exact (keptOut_iff hmatch).2 (hout row hrow (hrowa.trans ha.symm))
    next => trivial
  next => trivial

/-- No wake has issued a held dependent again since it was held. -/
def Lone (a : String) (s : Store) (l : List Obs) : Prop :=
  ∀ row ∈ s.pending.rows, row.sessionId = a → ∀ m o, row.issue < m →
    entry l m = some o → ¬Issues a row.forkName o

/-- A release is the one spawn instruction of its issuance: the
dependent was held by it, has not been issued or released since, and its
predecessors have finished. -/
def SpawnedOnce (a : String) : Obs → List Obs → Prop
  | .released _ session released, l => session.sessionId = a →
      ∀ dep ∈ released, HeldBy a dep.issue dep.forkName dep.preds l
        ∧ Finished a dep l
        ∧ ∀ m o, dep.issue < m → entry l m = some o →
          ¬Issues a dep.forkName o ∧ ¬Releases a dep.issue dep.forkName o
  | _, _ => True

private theorem Lone.extend {s : Store} {l : List Obs} (h : Lone a s l)
    (s' : Store) (obs : List Obs)
    (hrows : ∀ row ∈ s'.pending.rows, row ∈ s.pending.rows)
    (hobs : ∀ row ∈ s'.pending.rows, row.sessionId = a →
      ∀ o ∈ obs, ¬Issues a row.forkName o) : Lone a s' (obs ++ l) := by
  intro row hrow ha m o hm ho
  rcases entry_append_cases ho with ho | ho
  · exact h row (hrows row hrow) ha m o hm ho
  · exact hobs row hrow ha o ho

/-- An issuance of unheld forks. -/
private theorem Lone.stamp {s : Store} {l : List Obs} (h : Lone a s l)
    (k : Nat) {session : SessionRow} {selected : List SelectedFork} {t : Int}
    (hunheld : session.sessionId = a → ∀ row ∈ s.pending.rows,
      row.sessionId = a → ∀ x ∈ selected, x.name ≠ row.forkName) :
    Lone a (s.stampWake session selected t l.length)
      (.issued k session selected t :: l) := by
  intro row hrow ha m o hm ho
  have hlt := entry_lt ho
  rcases mem_pending_stampWake hrow with hold | ⟨sp, -, -, rfl⟩
  · refine h.extend s [.issued k session selected t] (fun _ => id)
      (fun row hrow ha o ho => ?_) row hold ha m o hm ho
    rw [List.mem_singleton.1 ho]
    intro hissues
    obtain ⟨hs, x, hx, hname⟩ := hissues
    exact hunheld hs row hrow ha x hx hname
  · -- a row just written is younger than every entry but its own
    have hyoung : l.length < m := hm
    rw [List.length_cons] at hlt
    omega

private theorem lone_step (w : World) (act : Act)
    (hC : stampsUnheld a w act) (h : Lone a w.daemon.store w.daemon.log) :
    Lone a (w.step act).daemon.store (w.step act).daemon.log := by
  refine w.store_invariant (C := fun w act => stampsUnheld a w act)
    (Q := Lone a) ?_ ?_ act hC h
  · intro s l o ho h
    refine h.extend s [o] (fun _ => id) fun row _ _ o' ho' hissues => ?_
    rw [List.mem_singleton.1 ho'] at hissues
    cases o <;> simp [Obs.passive, Issues] at ho hissues
  · intro w k tick x hC hab h
    have hinert : (∀ session selected t, x ≠ .stamp session selected t) →
        ∀ f, ∀ o ∈ (x.run k tick.now w.daemon).2.2, ¬Issues a f o := by
      intro hx f o ho hissues
      cases o with
      | issued j session selected t =>
          exact hx session selected t (issued_of_run ho)
      | _ => exact hissues
    cases x with
    | stamp session selected t =>
        refine h.stamp k ?_
        simpa only [stampsUnheld, hab] using hC
    | release session released =>
        exact h.extend _ _
          (fun row hrow => (mem_pending_deleteReleased.1 hrow).1)
          fun row _ _ => hinert (by simp) row.forkName
    | _ =>
        exact h.extend _ _ (mem_pending_run (by simp) (by simp)).1
          fun row _ _ => hinert (by simp) row.forkName

-- ========================================================== the releases

/-- What a listing knows of a dependent. -/
def Owed (a : String) (dep : PendingDep) (l : List Obs) : Prop :=
  HeldBy a dep.issue dep.forkName dep.preds l ∧ Finished a dep l

private theorem owed_stable (dep : PendingDep) :
    Prog.Stable (Owed a dep) := fun _ _ hl h =>
  ⟨heldBy_stable _ _ _ _ hl h.1, finished_stable a dep hl h.2⟩

/-- What every run keeps. -/
structure Spawning (a : String) (w : World) : Prop where
  latches : LatchesMatch w.daemon.store w.daemon.log
  held : RowsHeld w.daemon.store w.daemon.log
  recorded : Recorded w.daemon.store w.daemon.log
  delivery : Delivery a w.daemon.store w.daemon.log
  lone : Lone a w.daemon.store w.daemon.log
  releasing : Releasing a (Owed a) w
  each : Each (SpawnedOnce a) w.daemon.log

private theorem spawning_init (disk : Disk) :
    Spawning a (World.init disk) where
  latches := latchesMatch_init disk
  held row hrow := by cases hrow
  recorded := recorded_init disk
  delivery := delivery_init a disk
  lone row hrow := by cases hrow
  releasing := releasing_init disk
  each := trivial

/-- A release of rows that are there. -/
private theorem Spawning.release {w : World} (h : Spawning a w) {k : Nat}
    {tick : Tick} {session : SessionRow} {released : List PendingDep}
    (hab : w.about k = some (.write (.release session released)))
    (hintact : releaseIntact a w (.move k tick) = true) :
    SpawnedOnce a (.released k session released) w.daemon.log := by
  intro ha dep hdep
  have howed := h.releasing.deletes owed_stable hab ha dep hdep
  refine ⟨howed.1, howed.2, fun m o hm ho => ?_⟩
  simp only [releaseIntact, hab, ha, bne_self_eq_false, Bool.false_or,
    List.all_eq_true] at hintact
  obtain ⟨row, hrow, hs, hf, hi⟩ : ∃ row ∈ w.daemon.store.pending.rows,
      row.sessionId = a ∧ row.forkName = dep.forkName
        ∧ row.issue = dep.issue := by
    simpa [and_assoc] using hintact dep hdep
  rw [← hf, ← hi]
  rw [← hi] at hm
  exact ⟨h.lone row hrow hs m o hm ho,
    (h.delivery.fresh row hrow hs).2 o (entry_mem ho)⟩

private theorem spawning_step (w : World) (act : Act)
    (hC : settledHeld a w act ∧ releaseIntact a w act = true)
    (h : Spawning a w) : Spawning a (w.step act) where
  latches := latchesMatch_step w act h.latches
  held := rowsHeld_step w act h.held
  recorded := recorded_step w act h.recorded
  delivery := delivery_step w act hC.2 h.delivery
  lone := lone_step w act (stampsUnheld_of_settled h.latches hC.1) h.lone
  releasing := by
    refine h.releasing.step owed_stable (fun dep hdep => ⟨?_, ?_⟩) act
    · obtain ⟨⟨row, hrow, rfl, rfl⟩, -⟩ := mem_releasable.1 hdep
      exact h.held row hrow
    · exact h.recorded.finished hdep
  each := by
    refine World.each_step (fun o l ho => ?_) (fun _ _ _ => trivial)
      (fun k task op f tick d r o hact ht hprog _ hdeed => ?_) h.each
    · cases o <;> trivial
    · have hab := World.about_of_prog ht hprog
      cases op with
      | write x =>
          cases x <;> cases hdeed <;> try trivial
          exact h.release hab (hact ▸ hC.2)
      | snapshot s => cases r <;> cases hdeed; trivial
      | _ => cases hdeed <;> trivial

/-- In every interleaving whose stampings are of current selections that
the held dependents are kept out of, and whose releases delete the rows
they listed: no stamping issues a held dependent; every release is the
one spawn instruction of its issuance, and comes after the predecessors
have finished. A poll at the end selects no held dependent exactly when
they are kept out of its selection; and never one whose first match is
the trigger it is held under. -/
theorem held_not_reselected {disk : Disk} {as : List Act}
    (hC : Along World.step
      (fun w act => settledHeld a w act ∧ releaseIntact a w act = true)
      (World.init disk) as) :
    Along World.step (stampsUnheld a) (World.init disk) as
      ∧ Each (SpawnedOnce a) (World.after disk as).daemon.log
      ∧ ∀ k t session cfg moments d' sel, session.sessionId = a →
        (selectForks session cfg moments).alone (at_ k t)
          (World.after disk as).daemon = some (d', sel) →
        ((∀ row ∈ (World.after disk as).daemon.store.pending.rows,
            row.sessionId = a → ∀ x ∈ sel, x.name ≠ row.forkName)
          ↔ HeldOut d'.store (World.after disk as).daemon.disk
            (World.after disk as).daemon.log session cfg moments t)
        ∧ ∀ row ∈ (World.after disk as).daemon.store.pending.rows,
          row.sessionId = a →
          (∀ entry ∈ d'.store.rosterOf a, entry.forkName = row.forkName →
            ∀ fork, (World.after disk as).daemon.disk.forkAt entry = some fork →
            ∀ first, FirstMatch fork.runOn moments cfg.defaultIdleDeadlineSecs
              first →
            Rematched session row (World.after disk as).daemon.log first) →
          ∀ x ∈ sel, x.name ≠ row.forkName := by
  refine ⟨?_, (hC.invariant (P := Spawning a) spawning_step
    (spawning_init disk)).each, fun k t session cfg moments d' sel ha hrun => ?_⟩
  · refine Along.mono (fun w act h => ?_) (hC.keeping
      (P := fun w : World => LatchesMatch w.daemon.store w.daemon.log)
      (fun w act _ => latchesMatch_step w act) (latchesMatch_init disk))
    exact stampsUnheld_of_settled h.2 h.1.1
  obtain ⟨hs, rfl⟩ := selectForks_alone hrun
  obtain ⟨roster, hq⟩ := queueForks_only (World.after disk as).daemon.store
    session.sessionId ((World.after disk as).daemon.disk.discover session.cwd) t
  -- the roster refresh moves neither the latches nor the held rows
  have hmatch : LatchesMatch d'.store (World.after disk as).daemon.log := by
    rw [hs, hq]
    exact latched_iff_consumed disk as
  have hpending : d'.store.pending
      = (World.after disk as).daemon.store.pending := by
    rw [hs, hq]
  refine ⟨?_, fun row hrow hrowa hown => ?_⟩
  · rw [← hpending, ← ha]
    exact forall_congr' fun row => imp_congr_right fun _ =>
      imp_congr_right fun _ => keptOut_iff hmatch
  · refine (keptOut_iff hmatch).2 fun entry hentry hname fork hfork _ first
      hfirst => ?_
    exact taken_of_rematched hrow (hrowa.trans ha.symm)
      (hown entry (ha ▸ hentry) hname fork hfork first hfirst)

-- ------------------------------------------ a wake while one is held

/-- Two forks due after a minute of idling, the second to run after the
first, and one due after two. -/
private def trio (delta : Delta) : Disk :=
  .holding [("alpha", { runOn := [.idle (some 60)] }),
      ("beta", { runOn := [.idle (some 60)], after := ["alpha"] }),
      ("gamma", { runOn := [.idle (some 120)] })]
    { wakeDebounceSecs := 0 } (some delta)

/-- The first poll holds `beta` back. The second, of the same pause,
finds nothing due until `gamma` is. Then `alpha` completes, and the third
releases `beta`. -/
private def trioRun : List Act :=
  .stop "s" :: Act.moves 15 0 10 ++ Act.moves 26 0 70
    ++ .stop "s" :: Act.moves 36 1 80 ++ Act.moves 40 1 130
    ++ .edit (trio {
      newOffset := 2
      spawns := [("u", some "alpha")]
      notifications := [⟨some "u", none, some "completed"⟩] })
    :: .stop "s" :: Act.moves 16 2 140

/-- What `HeldOut` asks, one held dependent after the other. -/
private def heldOutNow (w : World) (session : SessionRow)
    (moments : List ForkMoment) : Bool :=
  w.daemon.store.pending.rows.all fun row =>
    (w.daemon.store.rosterOf session.sessionId).all fun entry =>
      entry.forkName != row.forkName
        || (w.daemon.disk.forkAt entry).all fun fork =>
          (matchMoments fork moments 600).all fun first =>
            decide (Taken session row.forkName w.daemon.log first)

/-- A stamping of what is selected over one of these lists of moments,
with the held dependents kept out. -/
private def trioSettled (w : World) : Act → Bool
  | .move k _ => match w.about k with
      | some (.write (.stamp session selected t)) =>
          [[.idle 60], [.idle 60, .idle 120]].any fun moments =>
            decide (selected = selectFrom w.daemon.store w.daemon.disk session
              {} moments t) && heldOutNow w session moments
      | _ => true
  | _ => true

private theorem settledHeld_of_trio {w : World} {act : Act}
    (h : trioSettled w act = true) : settledHeld "s" w act := by
  unfold trioSettled at h
  unfold settledHeld
  split at h
  next k tick =>
    split at h
    next session selected t hab =>
      rw [List.any_eq_true] at h
      obtain ⟨moments, -, h⟩ := h
      rw [Bool.and_eq_true, decide_eq_true_eq] at h
      intro _
      refine ⟨{}, moments, t, h.1, ?_⟩
      intro row hrow _ entry hentry hname fork hfork _ first hfirst
      have hall := List.all_eq_true.1 (List.all_eq_true.1 h.2 row hrow) entry
        hentry
      rw [hfork, hname, bne_self_eq_false, Bool.false_or, Option.all_some,
        matchMoments_eq_some_iff.2 hfirst, Option.all_some,
        decide_eq_true_eq] at hall
      exact hall
    next => trivial
  next => trivial

/-- `gamma` is issued while `beta` is held, and `beta` released after. -/
theorem held_not_reselected_in_turn :
    (∃ o ∈ entry (World.after (trio { newOffset := 1 }) trioRun).daemon.log 32,
        Issues "s" "gamma" o)
      ∧ (∃ o ∈ entry (World.after (trio { newOffset := 1 })
          trioRun).daemon.log 41, Releases "s" 13 "beta" o)
      ∧ Each (SpawnedOnce "s")
        (World.after (trio { newOffset := 1 }) trioRun).daemon.log := by
  have honce : ∀ disk as, Along World.step (fun w act => trioSettled w act
        = true ∧ releaseIntact "s" w act = true) (World.init disk) as →
      Each (SpawnedOnce "s") (World.after disk as).daemon.log :=
    fun _ _ hsettled => (held_not_reselected (hsettled.mono
      fun _ _ h => ⟨settledHeld_of_trio h.1, h.2⟩)).2.1
  have hsettled : Along World.step (fun w act => trioSettled w act = true
        ∧ releaseIntact "s" w act = true)
      (World.init (trio { newOffset := 1 })) trioRun := by
    decide +kernel
  refine ⟨by decide +kernel, by decide +kernel, ?_⟩
  revert hsettled
  exact honce _ _

-- ------------------------------------------------------ a growing gauge

/-- Two forks due after a minute of idling, the second to run after the
first, or as soon as the session has used ten tokens. -/
private def growing (promptTokens : Option Nat) : Disk :=
  .holding [("alpha", { runOn := [.idle (some 60)] }),
      ("beta", { runOn := [.contextTokens 10, .idle (some 60)]
                 after := ["alpha"] })]
    { wakeDebounceSecs := 0 } (some { newOffset := 1, promptTokens })

/-- `beta` is held under its idle trigger; the next poll finds twenty
tokens used. -/
private def grownRun : List Act :=
  .stop "s" :: Act.moves 15 0 10 ++ Act.moves 24 0 70
    ++ .edit (growing (some 20)) :: .stop "s" :: Act.moves 11 1 80

private def grownRow : SessionRow where
  sessionId := "s"
  projectRoot := "/p"
  cwd := "/p"
  transcriptPath := some "t"
  status := .open
  lastActivity := 80
  transcriptOffset := 1
  promptTokens := some 20
  model := none
  createdAt := 10
  enableTags := none
  disableTags := none
  pauseEpoch := 0
  pauseStartedAt := some 10

/-- The threshold's latch is free, so `beta` is selected while its row
is there. -/
theorem held_reselected :
    ¬∀ (disk : Disk) (as : List Act) (k : Nat) (t : Int)
      (session : SessionRow) (cfg : Config) (moments : List ForkMoment)
      (d' : Daemon) (sel : List SelectedFork) (row : PendingRec),
      .snapshot k session ∈ (World.after disk as).daemon.log →
      (selectForks session cfg moments).alone (at_ k t)
        (World.after disk as).daemon = some (d', sel) →
      row ∈ (World.after disk as).daemon.store.pending.rows →
      row.sessionId = session.sessionId →
      ∀ x ∈ sel, x.name ≠ row.forkName := by
  intro h
  have hsome : ((selectForks grownRow {} [.context 20 (some 200000)]).alone
      (at_ 1 80) (World.after (growing none) grownRun).daemon).isSome := by
    decide +kernel
  obtain ⟨⟨d', sel⟩, hrun⟩ := Option.isSome_iff_exists.1 hsome
  obtain ⟨row, hrow, hs, hf⟩ :
      ∃ row ∈ (World.after (growing none) grownRun).daemon.store.pending.rows,
        row.sessionId = "s" ∧ row.forkName = "beta" := by
    decide +kernel
  have hnames : ∃ x ∈ selectFrom d'.store
      (World.after (growing none) grownRun).daemon.disk grownRow {}
      [.context 20 (some 200000)] 80, x.name = "beta" := by
    rw [(selectForks_alone hrun).1]
    decide +kernel
  obtain ⟨x, hx, hname⟩ := hnames
  rw [← (selectForks_alone hrun).2] at hx
  exact h (growing none) grownRun 1 80 grownRow {} _ d' sel row
    (by decide +kernel) hrun hrow hs x hx (hname.trans hf.symm)

end Autofork
