/-
The budget of a tag, over whole runs and all sessions.

Every issuance records a run for each fork it selects (`RunsKnown`), and
a selection looks for the latest run of a tag among those of its
project. Which project a run is of is read off its session's row, and
that may have changed: an event that comes from another directory moves
the session, and all its runs with it (`budget_moved`).

`rooted` asks of each stamping that the sessions that were issued a wake
under its project are filed under it still, and that its own is. Then
two wakes with forks of one tag are as far apart as the tag's window
says at the second one (`tag_budget`).
-/
import Autofork.Proofs.Tags
import Autofork.Proofs.Throttle

namespace Autofork

open Lib

-- ================================================================ the runs

/-- The project a session is filed under. -/
def World.rootOf (w : World) (sessionId : String) : Option Path :=
  (w.daemon.store.getSession sessionId).map SessionRow.projectRoot

/-- The tags of every definition are as `parse_tags` leaves them. -/
def Disk.ParsesTags (disk : Disk) : Prop :=
  ∀ name content parsed, disk.parseForkFile name content = .fork parsed →
    ∃ texts, parsed.def.tags = parseTags texts

/-- Every issued fork has its run, and every run its time. -/
structure RunsKnown (s : Store) (l : List Obs) : Prop where
  recorded : ∀ k session selected t, .issued k session selected t ∈ l →
    ∀ x ∈ selected, ∃ r ∈ s.runs, r.sessionId = session.sessionId
      ∧ r.startedAt = t
      ∧ r.tags = if x.tags.isEmpty then none else some (join "," x.tags)
  dated : ∀ r ∈ s.runs, Readable r.startedAt

private theorem runsKnown_extend {s s' : Store} {l : List Obs}
    (obs : List Obs) (h : RunsKnown s l) (hruns : s'.runs = s.runs)
    (hobs : ∀ o ∈ obs, ∀ a f, ¬Issues a f o) : RunsKnown s' (obs ++ l) where
  recorded k session selected t ho x hx := by
    rw [hruns]
    rcases List.mem_append.1 ho with ho | ho
    · exact absurd ⟨rfl, x, hx, rfl⟩ (hobs _ ho session.sessionId x.name)
    · exact h.recorded k session selected t ho x hx
  dated := hruns ▸ h.dated

private theorem runsKnown_stamp {s : Store} {l : List Obs}
    (h : RunsKnown s l) (k issue : Nat) (session : SessionRow)
    (selected : List SelectedFork) {t : Int} (ht : Readable t) :
    RunsKnown (s.stampWake session selected t issue)
      (.issued k session selected t :: l) where
  recorded k' session' selected' t' ho x hx := by
    rw [runs_stampWake]
    rcases List.mem_cons.1 ho with heq | ho
    · obtain ⟨rfl, rfl, rfl, rfl⟩ := Obs.issued.inj heq
      obtain ⟨r, hr, hrun⟩ := exists_mem_issuedRuns hx
      exact ⟨r, List.mem_append_right _ hr, hrun⟩
    · obtain ⟨r, hr, hrun⟩ := h.recorded k' session' selected' t' ho x hx
      exact ⟨r, List.mem_append_left _ hr, hrun⟩
  dated r hr := by
    rw [runs_stampWake] at hr
    rcases List.mem_append.1 hr with hr | hr
    · exact h.dated r hr
    · rw [startedAt_issuedRuns r hr]
      exact ht

/-- Selection and issuance are one step, and what is read is what can be
read. -/
def plainStep (w : World) (act : Act) : Prop :=
  (∀ a, currentStamp a w act) ∧ act.readable = true
    ∧ w.daemon.disk.ParsesTags

theorem plainStep.time {w : World} {k : Nat} {tick : Tick}
    (h : plainStep w (.move k tick)) {session : SessionRow}
    {selected : List SelectedFork} {t : Int}
    (hab : w.about k = some (.write (.stamp session selected t))) :
    t = tick.now ∧ Readable t := by
  have ht := ((h.1 session.sessionId).selected hab rfl).1
  refine ⟨ht, ?_⟩
  simpa [ht, Act.readable, Act.reading] using h.2.1

private theorem runsKnown_step (w : World) (act : Act)
    (hC : plainStep w act) (h : RunsKnown w.daemon.store w.daemon.log) :
    RunsKnown (w.step act).daemon.store (w.step act).daemon.log := by
  refine w.store_invariant (C := plainStep) (Q := RunsKnown) ?_ ?_ act hC h
  · intro s l o ho h
    refine runsKnown_extend [o] h rfl fun o' ho' a f hi => ?_
    rw [List.mem_singleton.1 ho'] at hi
    cases o <;> simp [Obs.passive, Issues] at ho hi
  · intro w k tick x hC hab h
    by_cases hx : ∃ session selected t, x = .stamp session selected t
    · obtain ⟨session, selected, t, rfl⟩ := hx
      exact runsKnown_stamp h k _ session selected (hC.time hab).2
    · push Not at hx
      refine runsKnown_extend _ h (runs_run hx) fun o ho a f hi => ?_
      cases o with
      | issued j session selected t => exact hx _ _ _ (issued_of_run ho)
      | _ => exact hi

-- ============================================================ the look-up

/-- The latest run of a tag is no earlier than any run of it in the
project. -/
theorem le_lastRunForTags {s : Store} {root : Path} {tag : String}
    {r : RunRec} {rowTags : String} (hr : r ∈ s.runs)
    (hroot : (s.getSession r.sessionId).map SessionRow.projectRoot = some root)
    (htags : r.tags = some rowTags) (htag : tag ∈ splitComma rowTags) :
    ∃ r' ∈ s.runs, s.lastRunForTags root [tag] = some r'.startedAt
      ∧ r.startedAt ≤ r'.startedAt := by
  have hproject : (s.sessions.find? r.sessionId).any
      (fun x => x.projectRoot == root) = true := by
    rw [Store.getSession, Option.map_map, Option.map_eq_some_iff] at hroot
    obtain ⟨row, hrow, hroot⟩ := hroot
    rw [hrow]
    exact beq_iff_eq.2 hroot
  have hcarries : Carries s root tag r := ⟨hproject, rowTags, htags, htag⟩
  cases hlast : s.lastRunForTags root [tag] with
  | none => exact absurd hcarries (lastRunForTags_eq_none_iff.1 hlast r hr)
  | some t =>
      obtain ⟨⟨r', hr', -, rfl⟩, hlatest⟩ := lastRunForTags_eq_some_iff.1 hlast
      exact ⟨r', hr', rfl, hlatest r hr hcarries⟩

-- ============================================================== the budget

/-- An entry that issued a wake under project `root` is of a session
filed there. -/
def World.filedUnder (w : World) (root : Path) : Obs → Prop
  | .issued _ session _ _ =>
      session.projectRoot = root → w.rootOf session.sessionId = some root
  | _ => True

instance (w : World) (root : Path) : DecidablePred (w.filedUnder root)
  | .issued _ session _ _ => inferInstanceAs (Decidable
      (session.projectRoot = root → w.rootOf session.sessionId = some root))
  | .stopped .. | .prompted .. | .closed .. | .clock .. | .marked .. | .configured ..
  | .registered .. | .snapshot .. | .cancelled .. | .released ..
  | .answered .. => isTrue trivial

/-- A stamping is for the project its session is filed under, and every
session that was issued a wake under that project is filed there. -/
def rooted (w : World) : Act → Bool
  | .move k _ => match w.about k with
      | some (.write (.stamp session _ _)) =>
          w.rootOf session.sessionId == some session.projectRoot
            && w.daemon.log.all fun o => w.filedUnder session.projectRoot o
      | _ => true
  | _ => true

private theorem rooted_stamp {w : World} {k : Nat} {tick : Tick}
    (h : rooted w (.move k tick) = true) {session : SessionRow}
    {selected : List SelectedFork} {t : Int}
    (hab : w.about k = some (.write (.stamp session selected t))) :
    w.rootOf session.sessionId = some session.projectRoot
      ∧ ∀ o ∈ w.daemon.log, w.filedUnder session.projectRoot o := by
  simpa only [rooted, hab, Bool.and_eq_true, beq_iff_eq, List.all_eq_true,
    decide_eq_true_eq] using h

/-- A selected fork was admitted, with the tags of its definition. -/
private theorem admitted_of_selected {store : Store} {disk : Disk}
    {session : SessionRow} {cfg : Config} {moments : List ForkMoment}
    {t : Int} {x : SelectedFork}
    (hx : x ∈ selectFrom store disk session cfg moments t) :
    ∃ entry fork, disk.forkAt entry = some fork ∧ x.tags = fork.tags
      ∧ Admitted store session cfg t entry fork := by
  obtain ⟨entry, -, -, hselect⟩ := selectFrom_entry hx
  cases hfork : disk.forkAt entry with
  | none => simp [selectEntry, hfork] at hselect
  | some fork =>
      obtain ⟨hadm, trigger, -, -, rfl⟩ :=
        (selectEntry_eq_some_iff hfork).1 hselect
      exact ⟨entry, fork, hfork, rfl, hadm⟩

private theorem piece_of_selected {store : Store} {disk : Disk}
    {session : SessionRow} {cfg : Config} {moments : List ForkMoment}
    {t : Int} {x : SelectedFork} (hparse : disk.ParsesTags)
    (hx : x ∈ selectFrom store disk session cfg moments t) :
    ∀ tag ∈ x.tags, Piece tag := by
  obtain ⟨entry, fork, hfork, htags, -⟩ := admitted_of_selected hx
  rw [htags]
  unfold Disk.forkAt at hfork
  split at hfork
  · cases hfork
  · split at hfork
    next parsed hfile =>
      cases hfork
      obtain ⟨texts, htexts⟩ := hparse _ _ _ hfile
      rw [htexts]
      exact fun tag => piece_of_mem_parseTags
    next => cases hfork

/-- A tag with a window was last issued no less than the window ago. -/
private theorem window_le {store : Store} {root : Path}
    {tagThrottles : List (String × Nat)} {tags : List String} {t last : Int}
    {tag : String} {window : Nat}
    (h : tagThrottled store root tagThrottles tags t = false)
    (htag : tag ∈ tags) (hwindow : tagThrottles.lookup tag = some window)
    (hlast : store.lastRunForTags root [tag] = some last) :
    asI64 window ≤ max (wrapI64 (t - last)) 0 := by
  by_contra hlt
  have hthrottled : tagThrottled store root tagThrottles tags t = true := by
    refine List.any_eq_true.2 ⟨tag, htag, ?_⟩
    rw [hwindow]
    dsimp only
    rw [hlast, Option.any_some]
    exact decide_eq_true (not_le.1 hlt)
  rw [h] at hthrottled
  cases hthrottled

/-- In every run with selection and issuance as one step, a clock that
does not go back, and stampings whose sessions are filed where their
wakes were issued: two wakes under one project with forks of one tag are
as far apart as the tag's window says at the second. -/
theorem tag_budget {disk : Disk} {as₁ as₂ : List Act} {k₁ k₂ : Nat}
    {tick₁ tick₂ : Tick} {session₁ session₂ : SessionRow}
    {selected₁ selected₂ : List SelectedFork} {t₁ t₂ : Int} {root : Path}
    {tag : String} {cfg : Config} {moments : List ForkMoment} {window : Nat}
    (hC : Along World.step (fun w act => plainStep w act
        ∧ rooted w act = true) (World.init disk)
      (as₁ ++ .move k₁ tick₁ :: (as₂ ++ [.move k₂ tick₂])))
    (hclock : Clocked (as₁ ++ .move k₁ tick₁ :: (as₂ ++ [.move k₂ tick₂])))
    (h₁ : (World.after disk as₁).about k₁
      = some (.write (.stamp session₁ selected₁ t₁)))
    (h₂ : (World.after disk (as₁ ++ .move k₁ tick₁ :: as₂)).about k₂
      = some (.write (.stamp session₂ selected₂ t₂)))
    (hroot₁ : (World.after disk as₁).rootOf session₁.sessionId = some root)
    (hroot₂ : (World.after disk (as₁ ++ .move k₁ tick₁ :: as₂)).rootOf
      session₂.sessionId = some root)
    (htag₁ : ∃ x ∈ selected₁, tag ∈ x.tags)
    (htag₂ : ∃ x ∈ selected₂, tag ∈ x.tags)
    (hsel : selected₂ = selectFrom
      (World.after disk (as₁ ++ .move k₁ tick₁ :: as₂)).daemon.store
      (World.after disk (as₁ ++ .move k₁ tick₁ :: as₂)).daemon.disk
      session₂ cfg moments t₂)
    (hwindow : cfg.tagThrottles.lookup tag = some window)
    (hlt : window < 9223372036854775808) : t₁ + window ≤ t₂ := by
  -- the two stampings, each at its own world
  obtain ⟨hC₁, hstamp₁, hC₂⟩ := (along_append _ _ _).1 hC
  have hsecond : Along World.step (fun w act => plainStep w act
      ∧ rooted w act = true) (World.init disk)
      ((as₁ ++ .move k₁ tick₁ :: as₂) ++ [.move k₂ tick₂]) := by
    simpa only [List.append_assoc, List.cons_append] using hC
  obtain ⟨hC₂', hstamp₂, -⟩ := (along_append _ _ _).1 hsecond
  obtain ⟨ht₁, hread₁⟩ := hstamp₁.1.time h₁
  obtain ⟨ht₂, hread₂⟩ := hstamp₂.1.time h₂
  obtain ⟨-, cfg₁, moments₁, hsel₁⟩ :=
    (hstamp₁.1.1 session₁.sessionId).selected h₁ rfl
  have hle : t₁ ≤ t₂ := by
    rw [ht₁, ht₂]
    unfold Clocked at hclock
    rw [List.filterMap_append, List.pairwise_append] at hclock
    exact (List.pairwise_cons.1 hclock.2.1).1 tick₂.now (by simp [Act.reading])
  -- the first is on record, with its runs, under the project
  obtain ⟨hfiled₁, -⟩ := rooted_stamp hstamp₁.2 h₁
  rw [hroot₁, Option.some.injEq] at hfiled₁
  obtain ⟨hfiled₂, hall⟩ := rooted_stamp hstamp₂.2 h₂
  rw [hroot₂, Option.some.injEq] at hfiled₂
  have hlogged : .issued k₁ session₁ selected₁ t₁
      ∈ (World.after disk (as₁ ++ .move k₁ tick₁ :: as₂)).daemon.log := by
    rw [World.after, run_append, run_cons]
    exact (World.run_log _ as₂).subset (World.logged_stamp h₁ tick₁)
  have hstill : (World.after disk (as₁ ++ .move k₁ tick₁ :: as₂)).rootOf
      session₁.sessionId = some root :=
    hfiled₂ ▸ hall _ hlogged (hfiled₁.symm.trans hfiled₂)
  have hknown : RunsKnown
      (World.after disk (as₁ ++ .move k₁ tick₁ :: as₂)).daemon.store
      (World.after disk (as₁ ++ .move k₁ tick₁ :: as₂)).daemon.log :=
    (hC₂'.mono fun _ _ h => h.1).invariant
      (P := fun w : World => RunsKnown w.daemon.store w.daemon.log)
      runsKnown_step ⟨fun _ _ _ _ h => (by cases h), fun r h => (by cases h)⟩
  obtain ⟨x₁, hx₁, htag₁⟩ := htag₁
  obtain ⟨r, hr, hsession, hstarted, htags⟩ :=
    hknown.recorded _ _ _ _ hlogged x₁ hx₁
  have hpieces : ∀ t ∈ x₁.tags, Piece t :=
    piece_of_selected hstamp₁.1.2.2 (hsel₁ ▸ hx₁)
  rw [if_neg (by simpa using List.ne_nil_of_mem htag₁)] at htags
  obtain ⟨r', hr', hlast, hlate⟩ := le_lastRunForTags hr
    (by rw [hsession]; exact hstill) htags
    ((splitComma_join hpieces).symm ▸ htag₁)
  -- the second looked it up, and found the window passed
  obtain ⟨x₂, hx₂, htag₂⟩ := htag₂
  rw [hsel] at hx₂
  obtain ⟨entry, fork, -, htags₂, hadm⟩ := admitted_of_selected hx₂
  have hrested := window_le hadm.tagsRested (htags₂ ▸ htag₂) hwindow
    (hfiled₂ ▸ hlast)
  rw [asI64_of_lt hlt, hread₂.wrap_sub (hknown.dated r' hr')] at hrested
  have hspan : max (t₂ - r'.startedAt) 0 ≤ t₂ - t₁ :=
    max_le (Int.sub_le_sub_left (hstarted ▸ hlate) t₂) (Int.sub_nonneg.2 hle)
  exact Int.add_le_of_le_sub_left (hrested.trans hspan)

-- ------------------------------------------------------- two sessions

/-- A tagged fork due as soon as a turn has used a token, and a window of
a hundred seconds for its tag. -/
private def shared : Disk :=
  .holding [("f", { runOn := [.contextTokens 1], tags := ["g"] })]
    { wakeDebounceSecs := 0, tagThrottles := [("g", 100)] }
    (some { newOffset := 1, promptTokens := some 5 })

private theorem shared_parsesTags : shared.ParsesTags := by
  intro name content parsed h
  simp only [shared, Disk.holding] at h
  split at h
  next fork hfork =>
    cases h
    refine ⟨["g"], ?_⟩
    rw [List.lookup_cons] at hfork
    split at hfork
    · cases hfork
      decide
    · cases hfork
  next => cases h

/-- Session `s` is issued the fork at 10; then come some actions; then a
poll of session `u` selects it at `t`. -/
private def firstPoll : List Act := .stop "s" :: Act.moves 30 0 10

private def between (acts : List Act) (k : Nat) (t : Int) : List Act :=
  Act.moves 2 0 10 ++ acts ++ .stop "u" :: Act.moves 30 k t

/-- A stamping of what is selected under the shared window. -/
private abbrev sharedStamp : World → Act → Bool :=
  stampsFrom { wakeDebounceSecs := 0, tagThrottles := [("g", 100)] }
    [.context 5 (some 200000)]

private theorem plainSteps_of_shared {as : List Act}
    (h : Along World.step (fun w act => sharedStamp w act = true
      ∧ act.readable = true) (World.init shared) as)
    (has : ∀ a ∈ as, ∀ disk, a ≠ .edit disk) :
    Along World.step plainStep (World.init shared) as :=
  (h.and (World.along_disk has)).mono fun _ _ hw =>
    ⟨currentStamp_of_stampsFrom hw.1.1, hw.1.2, by
      rw [hw.2]
      exact shared_parsesTags⟩

/-- The stampings of the two polls, for one project. -/
private def sharedWakes (acts : List Act) (k : Nat) (t : Int) : Prop :=
  ∃ p₁ ∈ stampOf (World.after shared firstPoll) 0,
    ∃ p₂ ∈ stampOf (World.after shared
      (firstPoll ++ .move 0 { now := 10 } :: between acts k t)) k,
    p₁.2.2 = 10 ∧ p₂.2.2 = t
      ∧ (World.after shared firstPoll).rootOf p₁.1.sessionId = some "/p"
      ∧ (World.after shared (firstPoll ++ .move 0 { now := 10 }
        :: between acts k t)).rootOf p₂.1.sessionId = some "/p"
      ∧ (∃ x ∈ p₁.2.1, "g" ∈ x.tags) ∧ (∃ x ∈ p₂.2.1, "g" ∈ x.tags)
      ∧ p₂.2.1 = selectFrom (World.after shared (firstPoll
          ++ .move 0 { now := 10 } :: between acts k t)).daemon.store
        (World.after shared (firstPoll
          ++ .move 0 { now := 10 } :: between acts k t)).daemon.disk
        p₂.1 { wakeDebounceSecs := 0, tagThrottles := [("g", 100)] }
        [.context 5 (some 200000)] t

private instance (acts : List Act) (k : Nat) (t : Int) :
    Decidable (sharedWakes acts k t) :=
  inferInstanceAs (Decidable (∃ p₁ ∈ stampOf _ 0, _))

/-- Session `u` has to wait until the window has passed: issued at 10,
and at 150. -/
theorem tag_budget_in_turn :
    ∃ p ∈ stampOf (World.after shared
        (firstPoll ++ .move 0 { now := 10 } :: between [] 1 150)) 1,
      (10 : Int) + (100 : Nat) ≤ p.2.2 := by
  have hrun : Along World.step (fun w act => sharedStamp w act = true
      ∧ act.readable = true) (World.init shared)
      (firstPoll ++ .move 0 { now := 10 }
        :: (between [] 1 150 ++ [.move 1 { now := 150 }])) := by
    decide +kernel
  have hrooted : Along World.step (fun w act => rooted w act = true)
      (World.init shared) (firstPoll ++ .move 0 { now := 10 }
        :: (between [] 1 150 ++ [.move 1 { now := 150 }])) := by
    decide +kernel
  obtain ⟨⟨session₁, selected₁, t₁⟩, hp₁, ⟨session₂, selected₂, t₂⟩, hp₂, rfl,
    rfl, hroot₁, hroot₂, htag₁, htag₂, hsel⟩ :
      sharedWakes [] 1 150 := by
    decide +kernel
  exact ⟨_, hp₂, tag_budget
    ((plainSteps_of_shared hrun (by simp [firstPoll, between, Act.moves, Act.stop])).and
      hrooted) (by decide +kernel) (about_of_stampOf hp₁)
    (about_of_stampOf hp₂) hroot₁ hroot₂ htag₁ htag₂ hsel (by decide)
    (by decide)⟩

/-- Session `s` starts again elsewhere. -/
private def elsewhere : List Act :=
  .receive (.event { Event.simple .sessionStart "s" with projectRoot := "/q" })
    :: Act.moves 4 1 20

/-- It takes its run along, and session `u` is issued the fork twenty
seconds after it. -/
theorem budget_moved :
    ¬∀ (disk : Disk) (as₁ as₂ : List Act) (k₁ k₂ : Nat) (tick₁ tick₂ : Tick)
      (session₁ session₂ : SessionRow) (selected₁ selected₂ : List SelectedFork)
      (t₁ t₂ : Int) (root : Path) (tag : String) (cfg : Config)
      (moments : List ForkMoment) (window : Nat),
      Along World.step plainStep (World.init disk)
        (as₁ ++ .move k₁ tick₁ :: (as₂ ++ [.move k₂ tick₂])) →
      Clocked (as₁ ++ .move k₁ tick₁ :: (as₂ ++ [.move k₂ tick₂])) →
      (World.after disk as₁).about k₁
        = some (.write (.stamp session₁ selected₁ t₁)) →
      (World.after disk (as₁ ++ .move k₁ tick₁ :: as₂)).about k₂
        = some (.write (.stamp session₂ selected₂ t₂)) →
      (World.after disk as₁).rootOf session₁.sessionId = some root →
      (World.after disk (as₁ ++ .move k₁ tick₁ :: as₂)).rootOf
        session₂.sessionId = some root →
      (∃ x ∈ selected₁, tag ∈ x.tags) → (∃ x ∈ selected₂, tag ∈ x.tags) →
      selected₂ = selectFrom
        (World.after disk (as₁ ++ .move k₁ tick₁ :: as₂)).daemon.store
        (World.after disk (as₁ ++ .move k₁ tick₁ :: as₂)).daemon.disk
        session₂ cfg moments t₂ →
      cfg.tagThrottles.lookup tag = some window →
      window < 9223372036854775808 → t₁ + window ≤ t₂ := by
  intro h
  have hrun : Along World.step (fun w act => sharedStamp w act = true
      ∧ act.readable = true) (World.init shared)
      (firstPoll ++ .move 0 { now := 10 }
        :: (between elsewhere 2 30 ++ [.move 2 { now := 30 }])) := by
    decide +kernel
  obtain ⟨⟨session₁, selected₁, t₁⟩, hp₁, ⟨session₂, selected₂, t₂⟩, hp₂, rfl,
    rfl, hroot₁, hroot₂, htag₁, htag₂, hsel⟩ :
      sharedWakes elsewhere 2 30 := by
    decide +kernel
  have hle := h shared firstPoll (between elsewhere 2 30) 0 2 { now := 10 }
    { now := 30 } session₁ session₂ selected₁ selected₂ 10 30 "/p" "g" _ _ 100
    (plainSteps_of_shared hrun
      (by simp [firstPoll, between, elsewhere, Act.moves, Act.stop]))
    (by decide +kernel) (about_of_stampOf hp₁) (about_of_stampOf hp₂) hroot₁
    hroot₂ htag₁ htag₂ hsel (by decide) (by decide)
  exact absurd hle (by decide)

end Autofork
