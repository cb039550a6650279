/-
Debouncing loses nothing.

A poll that finds something due waits out its debounce and selects once
more. What had elapsed then is a prefix of what has elapsed now
(`prefix_elapsedMoments`): the deadlines are ascending, and no fire time
overflows. The first moment that hits any trigger of a fork settles its
match, so more moments at the end leave the match, and with it the
label and the latch, as they were. Both throttles only relax as time
passes. So with store and files as they were, whatever was selected is
selected again, just as it was (`debounce_loses_nothing`).
-/
import Autofork.Proofs.Atomic
import Autofork.Proofs.Tags
import Autofork.Proofs.Walk

namespace Autofork

open Lib

-- ====================================================== what has elapsed

/-- In a list ascending in `f`, what lies up to `x` is a prefix of what
lies up to a later `y`. -/
theorem prefix_filter_le {α : Type} {f : α → Int} {x y : Int} (h : x ≤ y)
    {l : List α} (hl : l.Pairwise fun a b => f a ≤ f b) :
    l.filter (fun a => decide (f a ≤ x))
      <+: l.filter fun a => decide (f a ≤ y) := by
  induction l with
  | nil => exact List.prefix_rfl
  | cons a l ih =>
      obtain ⟨hfirst, hrest⟩ := List.pairwise_cons.1 hl
      by_cases ha : f a ≤ x
      · simpa [ha, ha.trans h] using ih hrest
      · -- what is past `x` stays past it
        have hpast : ∀ b ∈ a :: l, ¬f b ≤ x := by
          intro b hb
          rcases List.mem_cons.1 hb with rfl | hb
          · exact ha
          · exact fun hle => ha ((hfirst b hb).trans hle)
        rw [List.filter_eq_nil_iff.2 fun b hb => by simpa using hpast b hb]
        exact List.nil_prefix

/-- The idle deadlines of these forks are below 2⁶² seconds. -/
def BriefDeadlines (forks : List ForkDef) (defaultIdleSecs : Nat) : Prop :=
  ∀ fork ∈ forks, ∀ a, .idle a ∈ fork.runOn →
    a.getD defaultIdleSecs < 4611686018427387904

/-- Every deadline to serve is that of an idle trigger. -/
theorem mem_idleDeadlines {forks : List ForkDef} {defaultIdleSecs d : Nat}
    (h : d ∈ idleDeadlines forks defaultIdleSecs) :
    ∃ fork ∈ forks, ∃ a, .idle a ∈ fork.runOn
      ∧ a.getD defaultIdleSecs = d :=
  (mem_idleDeadlines_iff.1 h).2

/-- What has elapsed is a prefix of what has elapsed later. -/
theorem prefix_elapsedMoments {promptTokens : Option Nat} {maxTokens : Nat}
    {baseline t₁ t₂ : Int} {deadlines : List Nat} (hle : t₁ ≤ t₂)
    (hsorted : deadlines.Pairwise fun a b => wrapI64 (baseline + asI64 a)
      ≤ wrapI64 (baseline + asI64 b)) :
    elapsedMoments promptTokens maxTokens baseline deadlines t₁
      <+: elapsedMoments promptTokens maxTokens baseline deadlines t₂ :=
  (List.prefix_append_right_inj _).2 ((prefix_filter_le hle hsorted).map _)

/-- Deadlines below 2⁶², from a baseline that is, come due in their
order. -/
theorem fireTimes_sorted {forks : List ForkDef} {defaultIdleSecs : Nat}
    {baseline : Int} (hbrief : BriefDeadlines forks defaultIdleSecs)
    (hbase : 0 ≤ baseline ∧ baseline < 4611686018427387904) :
    (idleDeadlines forks defaultIdleSecs).Pairwise fun a b =>
      wrapI64 (baseline + asI64 a) ≤ wrapI64 (baseline + asI64 b) := by
  have hfire : ∀ d ∈ idleDeadlines forks defaultIdleSecs,
      wrapI64 (baseline + asI64 d) = baseline + d := by
    intro d hd
    obtain ⟨fork, hfork, a, ha, rfl⟩ := mem_idleDeadlines hd
    have hlt := hbrief fork hfork a ha
    rw [asI64_of_lt (by omega)]
    exact wrapI64_of_bounds (by omega) (by omega)
  refine (List.pairwise_insertionSort (· ≤ ·) _).imp_of_mem fun ha hb hle => ?_
  rw [hfire _ ha, hfire _ hb]
  omega

/-- More moments at the end leave the first match alone. -/
theorem FirstMatch.mono {runOn : List ForkRunOn}
    {moments moments' : List ForkMoment} {defaultIdleSecs : Nat}
    {trigger : ForkRunOn} (h : FirstMatch runOn moments defaultIdleSecs trigger)
    (hmore : moments <+: moments') :
    FirstMatch runOn moments' defaultIdleSecs trigger := by
  obtain ⟨more, rfl⟩ := hmore
  obtain ⟨ms₁, m, ms₂, rfl, hrest⟩ := h
  exact ⟨ms₁, m, ms₂ ++ more, by simp, hrest⟩

-- ===================================================== what is admitted

/-- The times a store compares the clock with are clock readings, as
they are in every run (`clocked_run`). -/
structure Store.Clocked (s : Store) : Prop where
  ran : ∀ r ∈ s.roster.rows, ∀ t, r.ranAt = some t → Readable t
  started : ∀ r ∈ s.runs, Readable r.startedAt

/-- Queueing adds no such time. -/
private theorem Store.Clocked.queued {s : Store} (h : s.Clocked)
    {sessionId : String} {entries : List ForkEntry} {t : Int} :
    (s.queueForks sessionId entries t).Clocked where
  ran r hr t' hran := by
    rcases (queueForks_rows s sessionId entries t).2 r hr with hr | hnone
    · exact h.ran r hr t' hran
    · rw [hnone] at hran
      cases hran
  started := by
    obtain ⟨roster, hs⟩ := queueForks_only s sessionId entries t
    rw [hs]
    exact h.started

section clocked

/-- A poll stamps at a time it has read. -/
private def onClock : Prog.Contract Op Op.Res Obs where
  pre _
    | .write (.stamp _ _ t) => Readable t
    | _ => True
  post _
    | .now, (t : Int), _ => Readable t
    | _, _, _ => True

private theorem onClock_quiet (l : List Obs) (op : Op)
    (h : op.wakes = false) : onClock.pre l op := by
  unfold onClock
  dsimp only
  split
  · cases h
  · trivial

private theorem buildWake_onClock (session : SessionRow)
    (selected : List SelectedFork) (l : List Obs) :
    Prog.Outline .free onClock (fun _ _ => True)
      (buildWake session selected) l := by
  unfold buildWake
  split
  · trivial
  · refine ⟨fun _ => trivial, fun _ _ => ⟨trivial, fun t _ _ ht => ?_⟩⟩
    refine ⟨fun _ => trivial, fun _ _ => ⟨ht, fun _ _ _ _ => ?_⟩⟩
    exact ⟨fun _ => trivial, fun _ _ => ⟨trivial, fun _ _ _ _ => trivial⟩⟩

private theorem releaseDue_onClock (session : SessionRow) (l : List Obs) :
    Prog.Outline .free onClock (fun _ _ => True) (releaseDue session) l := by
  refine ⟨fun _ => trivial, fun _ _ => ⟨trivial, fun released l _ _ => ?_⟩⟩
  show Prog.Outline .free onClock (fun _ _ => True)
    (if List.isEmpty released then pure none else _) l
  split
  · trivial
  · refine ⟨fun _ => trivial, fun _ _ => ⟨trivial, fun _ _ _ _ => ?_⟩⟩
    exact ⟨fun _ => trivial, fun _ _ => ⟨trivial, fun _ _ _ _ => trivial⟩⟩

private theorem handler_onClock (job : Job) (l : List Obs) :
    Prog.Outline .free onClock (fun _ _ => True) job.handler l := by
  cases job with
  | request req =>
      cases req with
      | stopWait ev =>
          refine handleStopWait_outline (B := fun _ _ => True)
            (R := fun _ _ => True) (fun _ _ _ _ _ => trivial)
            (fun _ _ _ _ _ => trivial) (fun _ => trivial) onClock_quiet ev
            (fun _ _ _ _ _ _ => trivial) ?_ ?_ l
          · exact fun session l _ => (releaseDue_onClock session l).mono
              fun _ _ _ _ _ _ => trivial
          · exact fun session _ _ selected l _ _ =>
              (buildWake_onClock session selected l).mono
                fun _ _ _ _ _ _ => trivial
      | event ev => exact (quiet_handleEvent ev).outline_free onClock_quiet l
      | prune => exact quiet_handlePrune.outline_free onClock_quiet l
  | reap => exact quiet_sessionReaper.outline_free onClock_quiet l
  | grace sessionId gen => exact (quiet_graceClose ..).outline_free onClock_quiet l

/-- A section that stamps at a clock reading, if at all, keeps the store
clocked. -/
private theorem clocked_section {k : Nat} {now : Int} {d : Daemon}
    {x : Section} (h : d.store.Clocked)
    (hstamp : ∀ session selected t, x = .stamp session selected t →
      Readable t) : (x.run k now d).1.Clocked := by
  by_cases hx : ∃ session selected t, x = .stamp session selected t
  · obtain ⟨session, selected, t, rfl⟩ := hx
    have ht := hstamp session selected t rfl
    constructor
    · intro r hr t' hran
      simp only [Section.run, roster_stampWake, List.mem_map] at hr
      obtain ⟨r, hr, rfl⟩ := hr
      unfold stampedRow at hran
      split at hran
      · exact Option.some.inj hran ▸ ht
      · exact h.ran r hr t' hran
    · intro r hr
      simp only [Section.run, runs_stampWake, List.mem_append] at hr
      rcases hr with hr | hr
      · exact h.started r hr
      · rw [startedAt_issuedRuns r hr]
        exact ht
  · push Not at hx
    refine ⟨fun r hr t hran => ?_, ?_⟩
    · rcases roster_unrun hx r hr with hr | hnone
      · exact h.ran r hr t hran
      · rw [hnone] at hran
        cases hran
    · rw [runs_run hx]
      exact h.started

private structure Clocking (w : World) : Prop where
  outlined : w.Outlined .free (fun _ => onClock) fun _ _ _ _ => True
  clocked : w.daemon.store.Clocked

private theorem clocking_step (w : World) (act : Act) (hread : act.readable = true)
    (h : Clocking w) : Clocking (w.step act) where
  outlined := by
    refine h.outlined.step_free (fun _ => onClock_quiet)
      (fun _ task _ l => handler_onClock task.job l) ?_
    rintro k op tick d r rfl - hex
    cases op with
    | now =>
        cases hex
        show Readable tick.now
        simpa [Act.readable, Act.reading] using hread
    | _ => trivial
  clocked := by
    refine World.store_invariant (Q := fun s _ => s.Clocked)
      (C := fun w act => Clocking w) (fun _ _ _ _ => id) ?_ w act h h.clocked
    intro w k tick x h hab hclocked
    refine clocked_section hclocked ?_
    rintro session selected t rfl
    obtain ⟨task, f, ht, hprog⟩ := World.about_eq_some hab
    exact (h.outlined.next_free ht hprog fun l => handler_onClock task.job l).1

/-- While the clock shows times it can, the store has no others. -/
theorem clocked_run {disk : Disk} {as : List Act}
    (hread : Along World.step (fun _ act => act.readable = true)
      (World.init disk) as) :
    (World.after disk as).daemon.store.Clocked :=
  (hread.invariant (P := Clocking) clocking_step
    ⟨World.outlined_init disk trivial,
      fun r hr => (by cases hr), fun r hr => (by cases hr)⟩).clocked

end clocked

private theorem forkThrottled_mono {fork : ForkDef} {ranAt : Option Int}
    {t₁ t₂ : Int} (hran : ∀ t, ranAt = some t → Readable t)
    (ht₁ : Readable t₁) (ht₂ : Readable t₂) (hle : t₁ ≤ t₂)
    (h : forkThrottled fork ranAt t₁ = false) :
    forkThrottled fork ranAt t₂ = false := by
  unfold forkThrottled at h ⊢
  split at h
  next throttle ran _ =>
    have hran := hran ran rfl
    rw [ht₁.wrap_sub hran, decide_eq_false_iff_not] at h
    simp only [ht₂.wrap_sub hran, decide_eq_false_iff_not]
    omega
  next => rfl

/-- The last run for a tag is one of the runs. -/
private theorem lastRunForTags_clocked {s : Store} (hs : s.Clocked)
    {projectRoot : Path} {tag : String} {last : Int}
    (h : s.lastRunForTags projectRoot [tag] = some last) : Readable last := by
  obtain ⟨⟨r, hr, -, rfl⟩, -⟩ := lastRunForTags_eq_some_iff.1 h
  exact hs.started r hr

private theorem tagThrottled_mono {s : Store} (hs : s.Clocked)
    {projectRoot : Path} {tagThrottles : List (String × Nat)}
    {tags : List String} {t₁ t₂ : Int} (ht₁ : Readable t₁)
    (ht₂ : Readable t₂) (hle : t₁ ≤ t₂)
    (h : tagThrottled s projectRoot tagThrottles tags t₁ = false) :
    tagThrottled s projectRoot tagThrottles tags t₂ = false := by
  unfold tagThrottled at h ⊢
  rw [List.any_eq_false] at h ⊢
  intro tag htag hthrottled
  refine h tag htag ?_
  split at hthrottled
  next => cases hthrottled
  next window hwindow =>
    obtain ⟨last, hlast, hlt⟩ := (Option.any_eq_true _ _).1 hthrottled
    refine (Option.any_eq_true _ _).2 ⟨last, hlast, ?_⟩
    have hclocked := lastRunForTags_clocked hs hlast
    rw [decide_eq_true_eq, ht₂.wrap_sub hclocked] at hlt
    rw [decide_eq_true_eq, ht₁.wrap_sub hclocked]
    omega

/-- What the filters and throttles let through they let through later. -/
theorem Admitted.later {store : Store} {session : SessionRow} {cfg : Config}
    {t₁ t₂ : Int} {entry : RosterEntry} {fork : ForkDef}
    (h : Admitted store session cfg t₁ entry fork) (hs : store.Clocked)
    (hentry : entry ∈ store.roster.rows) (ht₁ : Readable t₁)
    (ht₂ : Readable t₂) (hle : t₁ ≤ t₂) :
    Admitted store session cfg t₂ entry fork where
  allowed := h.allowed
  rested := forkThrottled_mono (hs.ran entry hentry) ht₁ ht₂ hle h.rested
  tagsRested := tagThrottled_mono hs ht₁ ht₂ hle h.tagsRested

-- ============================================================ the roster

/-- A roster row without the time it was queued at. -/
private def unqueued (r : RosterEntry) : RosterEntry := { r with queuedAt := 0 }

private theorem unqueued_queueFork {s s' : Store}
    (h : s.roster.rows.map unqueued = s'.roster.rows.map unqueued)
    (sessionId forkName : String) (forkPath : Path) (t t' : Int) :
    (s.queueFork sessionId forkName forkPath t).roster.rows.map unqueued
      = (s'.queueFork sessionId forkName forkPath t').roster.rows.map
        unqueued := by
  have hkeys : s.roster.rows.map RosterEntry.key
      = s'.roster.rows.map RosterEntry.key := by
    have := congrArg (List.map RosterEntry.key) h
    rwa [List.map_map, List.map_map] at this
  show (s.roster.insertOrIgnore _).rows.map unqueued
    = (s'.roster.insertOrIgnore _).rows.map unqueued
  by_cases hk : (sessionId, forkName) ∈ s.roster.rows.map RosterEntry.key
  · have hk' := hkeys ▸ hk
    rw [Table.insertOrIgnore_of_mem, Table.insertOrIgnore_of_mem]
    · exact h
    · exact hk'
    · exact hk
  · have hk' := hkeys ▸ hk
    rw [Table.rows_insertOrIgnore_of_notMem, Table.rows_insertOrIgnore_of_notMem,
      List.map_append, List.map_append, h]
    · rfl
    · exact hk'
    · exact hk

private theorem unqueued_queueForks (sessionId : String)
    (entries : List ForkEntry) (t t' : Int) {s s' : Store}
    (h : s.roster.rows.map unqueued = s'.roster.rows.map unqueued) :
    (s.queueForks sessionId entries t).roster.rows.map unqueued
      = (s'.queueForks sessionId entries t').roster.rows.map unqueued := by
  induction entries generalizing s s' with
  | nil => exact h
  | cons e entries ih => exact ih (unqueued_queueFork h ..)

/-- Queueing later, on the same roster or on the one queued before,
gives a row for each. -/
private theorem queued_later {s s' : Store} {sessionId : String}
    {entries : List ForkEntry} {t₁ : Int} (t₂ : Int)
    (hs : s' = s ∨ s' = s.queueForks sessionId entries t₁) {r : RosterEntry}
    (hr : r ∈ (s.queueForks sessionId entries t₁).roster.rows) :
    ∃ r' ∈ (s'.queueForks sessionId entries t₂).roster.rows,
      unqueued r' = unqueued r := by
  rcases hs with rfl | rfl
  · rw [← List.mem_map, ← unqueued_queueForks sessionId entries t₁ t₂ rfl]
    exact List.mem_map_of_mem hr
  · exact ⟨r, (queueForks_rows _ sessionId entries t₂).1 r hr, rfl⟩

/-- No verdict asks when rows were queued. -/
private theorem selectEntry_queued {store : Store} {disk : Disk}
    {session : SessionRow} {cfg : Config} {moments : List ForkMoment}
    {t t' : Int} {sessionId : String} {entries : List ForkEntry}
    {entry entry' : RosterEntry} (h : unqueued entry' = unqueued entry) :
    selectEntry (store.queueForks sessionId entries t') disk session cfg
        moments t entry'
      = selectEntry store disk session cfg moments t entry := by
  obtain ⟨roster, hs⟩ := queueForks_only store sessionId entries t'
  rw [hs]
  show selectEntry store disk session cfg moments t (unqueued entry')
    = selectEntry store disk session cfg moments t (unqueued entry)
  rw [h]

-- ========================================================== two selections

/-- What an entry is selected for it is selected for when more has
elapsed, later. -/
private theorem selectEntry_later {store : Store} {disk : Disk}
    {session : SessionRow} {cfg : Config} {moments moments' : List ForkMoment}
    {t₁ t₂ : Int} {entry : RosterEntry} {x : SelectedFork}
    (h : selectEntry store disk session cfg moments t₁ entry = some x)
    (hs : store.Clocked) (hentry : entry ∈ store.roster.rows)
    (ht₁ : Readable t₁) (ht₂ : Readable t₂) (hle : t₁ ≤ t₂)
    (hmore : moments <+: moments') :
    selectEntry store disk session cfg moments' t₂ entry = some x := by
  cases hfork : disk.forkAt entry with
  | none => simp [selectEntry, hfork] at h
  | some fork =>
      obtain ⟨hadm, trigger, hfirst, hfree, hx⟩ :=
        (selectEntry_eq_some_iff hfork).1 h
      exact (selectEntry_eq_some_iff hfork).2
        ⟨hadm.later hs hentry ht₁ ht₂ hle, trigger, hfirst.mono hmore, hfree,
          hx⟩

/-- Whatever is selected over the moments elapsed at one time is
selected over those elapsed later, under the same label and latch, when
neither the store nor the files have changed since: the store is what
the first selection found, or left. -/
theorem debounce_loses_nothing {k₁ k₂ : Nat} {session : SessionRow}
    {cfg : Config} {promptTokens : Option Nat} {maxTokens : Nat}
    {baseline t₁ t₂ : Int} {forks : List ForkDef} {d₁ d₁' d₂ d₂' : Daemon}
    {selected₁ selected₂ : List SelectedFork}
    (hbrief : BriefDeadlines forks cfg.defaultIdleDeadlineSecs)
    (hbase : 0 ≤ baseline ∧ baseline < 4611686018427387904)
    (ht₁ : Readable t₁) (ht₂ : Readable t₂) (hle : t₁ ≤ t₂)
    (hclocked : d₁.store.Clocked)
    (hrun₁ : (selectForks session cfg (elapsedMoments promptTokens maxTokens
        baseline (idleDeadlines forks cfg.defaultIdleDeadlineSecs) t₁)).alone
      (at_ k₁ t₁) d₁ = some (d₁', selected₁))
    (hstore : d₂.store = d₁.store ∨ d₂.store = d₁'.store)
    (hdisk : d₂.disk = d₁.disk)
    (hrun₂ : (selectForks session cfg (elapsedMoments promptTokens maxTokens
        baseline (idleDeadlines forks cfg.defaultIdleDeadlineSecs) t₂)).alone
      (at_ k₂ t₂) d₂ = some (d₂', selected₂)) :
    selected₁ ⊆ selected₂ := by
  intro x hx
  obtain ⟨hs₁, rfl⟩ := selectForks_alone hrun₁
  obtain ⟨hs₂, rfl⟩ := selectForks_alone hrun₂
  obtain ⟨entry, hentry, hsel⟩ := List.mem_filterMap.1 hx
  rw [Store.rosterOf, Table.mem_orderBy, beq_iff_eq] at hentry
  rw [hs₁] at hentry hsel hstore
  have hlater := selectEntry_later hsel hclocked.queued hentry.1 ht₁ ht₂ hle
    (prefix_elapsedMoments hle (fireTimes_sorted hbrief hbase))
  -- the second selection finds a row for the fork, queued perhaps later
  obtain ⟨entry', hentry', hsame⟩ := queued_later t₂ hstore hentry.1
  have hsession : entry'.sessionId = session.sessionId :=
    (congrArg RosterEntry.sessionId hsame).trans hentry.2
  refine List.mem_filterMap.2 ⟨entry', ?_, ?_⟩
  · rw [Store.rosterOf, Table.mem_orderBy, beq_iff_eq, hs₂, hdisk]
    exact ⟨hentry', hsession⟩
  · rw [hs₂, hdisk, selectEntry_queued hsame]
    rcases hstore with hstore | hstore
    · rw [hstore, ← selectEntry_queued rfl]
      exact hlater
    · rw [hstore]
      exact hlater

-- ------------------------------------------------------- five seconds

/-- A fork due after a minute, and one due five seconds later. -/
private def drowsy : List (String × ForkDef) :=
  [("nap", { runOn := [.idle (some 60)], throttleSecs := some 30 }),
    ("sleep", { runOn := [.idle (some 65)] })]

/-- Both run in the first pause, and the second has begun. -/
private def dozeRun : List Act :=
  .stop "s" :: Act.moves 20 0 10 ++ Act.moves 10 0 70 ++ Act.moves 30 0 75
    ++ .prompt "s" :: Act.moves 10 1 80 ++ .stop "s" :: Act.moves 20 2 100

private def dozing : Daemon := (World.after (.holding drowsy {} none) dozeRun).daemon

private def dozer : SessionRow where
  sessionId := "s"
  projectRoot := "/p"
  cwd := "/p"
  transcriptPath := some "t"
  status := .open
  lastActivity := 100
  transcriptOffset := 0
  promptTokens := none
  model := none
  createdAt := 10
  enableTags := none
  disableTags := none
  pauseEpoch := 1
  pauseStartedAt := some 100

private def dozingMoments (t : Int) : List ForkMoment :=
  elapsedMoments none 200000 100 (idleDeadlines (drowsy.map Prod.snd) 600) t

/-- In a second pause one is due when the debounce begins, and still is
when the other has joined it. -/
theorem debounce_gathers :
    dozing.store.getSession "s" = some dozer
      ∧ ∃ d₁ d₂ selected₁ selected₂,
        (selectForks dozer {} (dozingMoments 160)).alone (at_ 0 160) dozing
            = some (d₁, selected₁)
          ∧ (selectForks dozer {} (dozingMoments 165)).alone (at_ 0 165) dozing
            = some (d₂, selected₂)
          ∧ selected₁ ⊆ selected₂ ∧ selected₁.length = 1
          ∧ selected₂.length = 2 := by
  have hsome₁ : ((selectForks dozer {} (dozingMoments 160)).alone (at_ 0 160)
      dozing).any (fun p => p.2.length == 1) = true := by
    decide +kernel
  have hsome₂ : ((selectForks dozer {} (dozingMoments 165)).alone (at_ 0 165)
      dozing).any (fun p => p.2.length == 2) = true := by
    decide +kernel
  obtain ⟨⟨d₁, selected₁⟩, hrun₁, hone⟩ := (Option.any_eq_true _ _).1 hsome₁
  obtain ⟨⟨d₂, selected₂⟩, hrun₂, htwo⟩ := (Option.any_eq_true _ _).1 hsome₂
  have hbrief : BriefDeadlines (drowsy.map Prod.snd) 600 := by
    simp [BriefDeadlines, drowsy]
  have hread : Along World.step (fun _ act => act.readable = true)
      (World.init (.holding drowsy {} none)) dozeRun := by
    decide +kernel
  have hclocked : dozing.store.Clocked := by
    unfold dozing
    exact clocked_run hread
  refine ⟨by decide +kernel, d₁, d₂, selected₁, selected₂, hrun₁, hrun₂,
    debounce_loses_nothing hbrief (by decide) (by decide) (by decide)
      (by decide) hclocked hrun₁ (.inl rfl) rfl hrun₂,
    by simpa using hone, by simpa using htwo⟩

end Autofork
