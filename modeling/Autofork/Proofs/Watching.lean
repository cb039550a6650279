/-
A poll, and what it knows of its pause.

From its Stop on a poll measures its deadlines from a baseline: the time
of a Stop that no genuine prompt has followed. `watching` walks through
its program with that in hand: when it stamps, whatever was selected by
an idle trigger had, at the first of the three clock readings an
issuance makes, been due since the baseline (`handleStopWait_watching`).
What the baseline means of a run is not said here.
-/
import Autofork.Lib.Typestate
import Autofork.Proofs.Debounce

namespace Autofork

open Lib

-- ============================================================ durations

/-- A time below 2⁶² seconds. -/
def Brief (t : Int) : Prop := 0 ≤ t ∧ t < 4611686018427387904

instance (t : Int) : Decidable (Brief t) := inferInstanceAs (Decidable (_ ∧ _))

/-- The deadlines these forks name are below 2⁶² seconds. -/
def BriefForks (entries : List ForkEntry) : Prop :=
  ∀ e ∈ entries, ∀ n, .idle (some n) ∈ e.parsed.def.runOn →
    n < 4611686018427387904

/-- So are all those on the disk. -/
structure Disk.Brief (disk : Disk) : Prop where
  default : ∀ root,
    (disk.cfgFor root).defaultIdleDeadlineSecs < 4611686018427387904
  forks : ∀ dir, BriefForks (disk.discover dir)

/-- What was selected by an idle trigger has been idle since `b` for its
effective deadline. -/
def Elapsed (cfg : Config) (b t : Int) (selected : List SelectedFork) :
    Prop :=
  ∀ x ∈ selected, ∀ s, x.trigger = (ForkRunOn.idle s).label →
    b + (s.getD cfg.defaultIdleDeadlineSecs : Int) ≤ t

/-- What a watch of session `a` works from. -/
structure Watch.Sighted (a : String) (w : Watch) : Prop where
  session : w.session.sessionId = a
  baseline : Brief w.baseline
  deadlines : ∀ d ∈ w.deadlines, d < 4611686018427387904

/-- What is chosen over the elapsed moments has elapsed. -/
theorem Watch.Sighted.elapsed {a : String} {w : Watch} (h : w.Sighted a)
    {t : Int} {selected : List SelectedFork}
    (hsel : ∀ x ∈ selected, Chosen w.session w.cfg (w.moments t) x) :
    Elapsed w.cfg w.baseline t selected := by
  intro x hx s hlabel
  obtain ⟨entry, fork, trigger, hfirst, rfl⟩ := hsel x hx
  obtain rfl := ForkRunOn.eq_idle_of_label (show trigger.label = _ from hlabel)
  obtain ⟨hserved, hle⟩ := elapsed_idle_due hfirst.due.2
  obtain ⟨hlo, hhi⟩ := h.baseline
  have hbrief := h.deadlines _ hserved
  rw [asI64_of_lt (by omega), wrapI64_of_bounds (by omega) (by omega)] at hle
  exact hle

-- ========================================================= the typestate

/-- What a poll knows: the baseline of its pause, that it is registered,
its configuration, and what it has read off the clock since it last
logged anything else, newest first. -/
structure Sight where
  base : Option Int := none
  registered : Bool := false
  cfg : Option Config := none
  readings : List Int := []

/-- A poll of session `a` on watch. An await that is not left by its
timer ends the watch. -/
def watching (a : String) : Prog.Typestate Op Op.Res Sight where
  ok m
    | .write (.stop ev t) => ev.sessionId = a ∧ Brief t
    | .write (.prompt ..) | .cancelWait _ => False
    | .write (.stamp session selected t) => session.sessionId = a
        ∧ ∃ b cfg t₂ t₁ more, m.base = some b ∧ m.cfg = some cfg
          ∧ m.readings = t :: t₂ :: t₁ :: more ∧ Elapsed cfg b t₁ selected
    | .register sessionId | .snapshot sessionId => sessionId = a
    | .select _ => m.registered = true ∧ m.base.isSome = true
    | _ => True
  next m
    | .now, (t : Int) => { m with readings := t :: m.readings }
    | .cfgFor _, cfg => { m with cfg := some cfg, readings := [] }
    | .write (.stop _ t), _ => { m with base := some t, readings := [] }
    | .write (.queue ..), _ => m
    | .write _, _ => { m with readings := [] }
    | .register _, _ => { m with registered := true, readings := [] }
    | .snapshot _, (session : Option SessionRow) =>
        { m with
          base := (session.bind SessionRow.pauseStartedAt).or m.base
          readings := [] }
    | .select _, branch =>
        { m with
          base := if branch = .timer then m.base else none
          readings := [] }
    | _, _ => m
  valid _
    | .now, (t : Int) => Brief t
    | .cfgFor _, (cfg : Config) =>
        cfg.defaultIdleDeadlineSecs < 4611686018427387904
    | .discover _, entries => BriefForks entries
    | .snapshot sessionId, session => ∀ x, session = some x →
        x.sessionId = sessionId ∧ ∀ b, x.pauseStartedAt = some b → Brief b
    | _, _ => True

section watching

variable {a : String} {w : Watch} {m : Sight}

/-- What a poll on watch knows between awaits. -/
structure Sight.Ready (m : Sight) (w : Watch) : Prop where
  base : m.base = some w.baseline
  registered : m.registered = true
  cfg : m.cfg = some w.cfg

/-- The selection loop tells a poll nothing. -/
private theorem considerAll_watching (session : SessionRow) (cfg : Config)
    (moments : List ForkMoment) (t : Int) (roster : List RosterEntry) :
    (considerAll session cfg moments t roster).Typed (watching a)
      (fun m' _ => m' = m) m := by
  refine Prog.Every.typed (I := (· = m)) rfl
    ((chooses_considerAll session cfg moments t roster).mono
      fun op hop m' hm' => ?_)
  cases op <;> first | exact ⟨trivial, fun _ _ => hm'⟩ | cases hop

/-- A selection reads the clock once. -/
private theorem selectForks_watching (session : SessionRow) (cfg : Config)
    (moments : List ForkMoment) :
    (selectForks session cfg moments).Typed (watching a)
      (fun m' selected => (∃ t, m' = { m with readings := t :: m.readings })
        ∧ ∀ x ∈ selected, Chosen session cfg moments x) m := by
  refine Prog.Typed.returning ?_ (returns_selectForks session cfg moments)
  refine ⟨trivial, fun entries _ => ⟨trivial, fun _ _ =>
    ⟨trivial, fun roster _ => ⟨trivial, fun t _ => ?_⟩⟩⟩⟩
  exact (considerAll_watching ..).mono fun m' _ hm' => ⟨t, hm'⟩

/-- Finding out whether anything is due leaves what is known. -/
private theorem dueNow_watching (hm : m.Ready w) :
    (dueNow w).Typed (watching a) (fun m' _ => m'.Ready w) m := by
  refine ⟨trivial, fun t _ => ?_⟩
  show Prog.Typed _ _ _ (if _ then pure false else _)
  split
  · exact ⟨hm.base, hm.registered, hm.cfg⟩
  · refine (selectForks_watching ..).bind fun m' selected hsel => ?_
    obtain ⟨⟨t₂, rfl⟩, -⟩ := hsel
    exact ⟨hm.base, hm.registered, hm.cfg⟩

private theorem parkForever_watching (hm : m.Ready w) :
    parkForever.Typed (watching a) (fun _ _ => True) m :=
  ⟨⟨hm.registered, by rw [hm.base]; rfl⟩, fun _ _ => trivial⟩

/-- What is issued had elapsed at the first of the three readings. -/
private theorem issueWake_watching (hw : w.Sighted a) (hm : m.Ready w) :
    (issueWake w).Typed (watching a) (fun _ _ => True) m := by
  refine ⟨trivial, fun t₁ _ => ?_⟩
  refine (selectForks_watching ..).bind fun m' selected hsel => ?_
  obtain ⟨⟨t₂, rfl⟩, hchosen⟩ := hsel
  have hwake : (buildWake w.session selected).Typed (watching a)
      (fun m' r => r = none → m'.Ready w)
      { m with readings := t₂ :: t₁ :: m.readings } := by
    unfold buildWake
    split
    · exact fun _ => ⟨hm.base, hm.registered, hm.cfg⟩
    · refine ⟨trivial, fun t _ => ⟨⟨hw.session, w.baseline, w.cfg, t₂, t₁,
        m.readings, hm.base, hm.cfg, rfl, hw.elapsed hchosen⟩, fun _ _ => ?_⟩⟩
      exact ⟨trivial, fun _ _ hr => by cases hr⟩
  refine hwake.bind fun m' r hr => ?_
  cases r with
  | none => exact parkForever_watching (hr rfl)
  | some payload => trivial

/-- Past a timer the watch goes on; past anything else nothing does. -/
private theorem await_watching (hm : m.Ready w) (sleepSecs : Option Nat)
    {f : Branch → Handler ResponseBody}
    (htimer : ∀ m : Sight, m.Ready w →
      (f .timer).Typed (watching a) (fun _ _ => True) m)
    (hother : ∀ branch, branch ≠ .timer → f branch = pure .waited) :
    ((Op.select sleepSecs).go >>= f).Typed (watching a) (fun _ _ => True) m := by
  refine ⟨⟨hm.registered, by rw [hm.base]; rfl⟩, fun branch _ => ?_⟩
  show (f branch).Typed _ _ _
  by_cases hb : branch = .timer
  · subst hb
    exact htimer _ ⟨hm.base, hm.registered, hm.cfg⟩
  · rw [hother branch hb]
    trivial

private theorem debounceWake_watching (hw : w.Sighted a) (hm : m.Ready w) :
    (debounceWake w).Typed (watching a) (fun _ _ => True) m := by
  unfold debounceWake
  split
  · refine await_watching hm _ (fun m hm => issueWake_watching hw hm) ?_
    intro branch hb
    cases branch <;> first | rfl | exact absurd rfl hb
  · exact issueWake_watching hw hm

private theorem serveDeadlines_watching (hw : w.Sighted a)
    (deadlines : List Nat) (hm : m.Ready w) :
    (serveDeadlines w deadlines).Typed (watching a) (fun _ _ => True) m := by
  induction deadlines generalizing m with
  | nil => exact parkForever_watching hm
  | cons d rest ih =>
      refine ⟨trivial, fun t _ => ?_⟩
      refine await_watching (w := w) ⟨hm.base, hm.registered, hm.cfg⟩ _
        (fun m hm => ?_) ?_
      · refine (dueNow_watching hm).bind fun m due hm => ?_
        cases due with
        | true => exact debounceWake_watching hw hm
        | false => exact ih hm
      · intro branch hb
        cases branch <;> first | rfl | exact absurd rfl hb

private theorem awaitDue_watching (hw : w.Sighted a) (hm : m.Ready w) :
    (awaitDue w).Typed (watching a) (fun _ _ => True) m := by
  refine (dueNow_watching hm).bind fun m due hm => ?_
  cases due with
  | true => exact debounceWake_watching hw hm
  | false => exact serveDeadlines_watching hw w.deadlines hm

-- =========================================================== a whole poll

/-- Reading the transcript leaves all but the readings. -/
private theorem ingestTranscript_watching {ev : Event} :
    (ingestTranscript ev).Typed (watching a)
      (fun m' _ => m'.base = m.base) m := by
  unfold ingestTranscript
  split
  · rfl
  · refine ⟨trivial, fun session _ => ?_⟩
    cases session with
    | none => rfl
    | some session =>
        refine ⟨trivial, fun delta _ => ?_⟩
        cases delta with
        | none => rfl
        | some delta => exact ⟨trivial, fun t _ => ⟨trivial, fun _ _ => rfl⟩⟩

/-- A poll that releases what is held leaves the rest of what it knows. -/
private theorem releaseDue_watching (session : SessionRow) :
    (releaseDue session).Typed (watching a)
      (fun m' _ => ∃ readings, m' = { m with readings }) m := by
  refine ⟨trivial, fun released _ => ?_⟩
  show Prog.Typed _ _ _ (if List.isEmpty released then pure none else _)
  split
  · exact ⟨m.readings, rfl⟩
  · exact ⟨trivial, fun _ _ => ⟨trivial, fun _ _ => ⟨[], rfl⟩⟩⟩

private theorem parkedPoll_watching {ev : Event} {t : Int}
    {promptTokens : Option Nat} {cfg : Config} (ha : ev.sessionId = a)
    (ht : Brief t) (hcfg : cfg.defaultIdleDeadlineSecs < 4611686018427387904)
    (hbase : m.base = some t) (hreg : m.registered = true)
    (hmcfg : m.cfg = some cfg) :
    (parkedPoll ev t promptTokens cfg).Typed (watching a)
      (fun _ _ => True) m := by
  refine ⟨ha, fun session hvalid => ?_⟩
  cases session with
  | none => trivial
  | some session =>
      obtain ⟨hid, hpause⟩ := hvalid session rfl
      refine (releaseDue_watching session).bind fun m' payload hm' => ?_
      obtain ⟨readings, rfl⟩ := hm'
      cases payload with
      | some payload => trivial
      | none =>
          refine ⟨trivial, fun entries hentries => awaitDue_watching ?_ ?_⟩
          · refine ⟨hid.trans ha, ?_, fun d hd => ?_⟩
            · show Brief (session.pauseStartedAt.getD t)
              cases hp : session.pauseStartedAt with
              | none => exact ht
              | some b => exact hpause b hp
            · obtain ⟨fork, hfork, s, hs, rfl⟩ := mem_idleDeadlines hd
              obtain ⟨e, he, rfl⟩ := List.mem_map.1 hfork
              cases s with
              | none => exact hcfg
              | some n => exact hentries e he n hs
          · refine ⟨?_, hreg, hmcfg⟩
            show session.pauseStartedAt.or m.base = _
            rw [hbase]
            cases session.pauseStartedAt <;> rfl

theorem handleStopWait_watching (ev : Event) :
    (handleStopWait ev).Typed (watching ev.sessionId) (fun _ _ => True) {} := by
  refine ⟨trivial, fun _ _ => ⟨trivial, fun t ht =>
    ⟨⟨rfl, ht⟩, fun _ _ => ?_⟩⟩⟩
  refine ingestTranscript_watching.bind fun m promptTokens hm => ?_
  refine ⟨trivial, fun cfg hcfg => ⟨rfl, fun _ _ => ⟨trivial, fun _ _ => ?_⟩⟩⟩
  have hpoll : (parkedPoll ev t promptTokens cfg).Typed
      (watching ev.sessionId) (fun _ _ => True)
      { m with registered := true, cfg := some cfg, readings := [] } :=
    parkedPoll_watching rfl ht hcfg hm rfl rfl
  exact hpoll.bind fun _ body _ => ⟨trivial, fun _ _ => trivial⟩

end watching

end Autofork
