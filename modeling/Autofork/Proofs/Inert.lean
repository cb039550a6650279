/-
A closed session is inert.

Closing a session clears its rows, but only SessionEnd also cancels the
poll parked for it: the reaper, a prune and a grace timer leave a poll
to serve its deadlines from its own snapshot. When such a poll's timer
runs down on a session that is closed, it queues, stamps and wakes all
the same (`closed_not_inert`). Unless one does, a closed session has no
rows and is sent no wake (`closed_inert`).

Handlers run from await to await here. What one knows of the row
meanwhile is a typestate: that it is open, that it is as it was handed
over, or that rows may have been filed under a closed session, which
only a prompt does, on its way to opening it again.
-/
import Autofork.Proofs.Shifts
import Autofork.Proofs.Slices
import Autofork.Proofs.Walk

namespace Autofork

open Lib

namespace Store

/-- The session is there, with this status. -/
def hasStatus (s : Store) (a : String) (status : SessionStatus) : Bool :=
  (s.sessions.find? a).any fun r => r.status == status

/-- The session has no rows outside `sessions`, those of `runs` apart. -/
structure Clear (a : String) (s : Store) : Prop where
  roster : ∀ r ∈ s.roster.rows, r.sessionId ≠ a
  fires : ∀ r ∈ s.fires.rows, r.sessionId ≠ a
  spawns : ∀ r ∈ s.spawns.rows, r.sessionId ≠ a
  pending : ∀ r ∈ s.pending.rows, r.sessionId ≠ a

/-- If the session is closed, it has no rows. -/
def Inert (a : String) (s : Store) : Prop :=
  s.hasStatus a .closed = true → s.Clear a

end Store

namespace World

/-- The session that an action issues a wake for. -/
def wakeOf (w : World) : Act → Option String
  | .move k _ => match w.about k with
      | some (.write (.stamp session _ _))
      | some (.write (.release session _)) => some session.sessionId
      | _ => none
  | _ => none

/-- The timer of a parked poll of session `a` runs down. -/
def firesTimer (a : String) (w : World) : Act → Bool
  | .move k { branch := .timer, .. } => match w.tasks k with
      | some { job := .request (.stopWait ev)
               prog := .call (.select (some _)) _, .. } => ev.sessionId == a
      | _ => false
  | _ => false

/-- A timer of the session's runs down only while its row is open. -/
def timersOpen (a : String) (w : World) (act : Act) : Bool :=
  !w.firesTimer a act || w.daemon.store.hasStatus a .open

end World

-- ============================================================ the store

namespace Store

variable {a b : String} {s s' : Store}

theorem hasStatus_open_not_closed (h : s.hasStatus a .open = true) :
    s.Inert a := by
  intro hclosed
  unfold hasStatus at h hclosed
  cases hrow : s.sessions.find? a with
  | none =>
      rw [hrow] at h
      cases h
  | some r =>
      rw [hrow, Option.any_some, beq_iff_eq] at h hclosed
      rw [h] at hclosed
      cases hclosed

/-- Whether a session is inert is written on its slice. -/
theorem clear_congr (h : SameSlice a s s') : s.Clear a → s'.Clear a := by
  have hnone : ∀ {κ ρ : Type} {key : ρ → κ} {T T' : Table key}
      (f : ρ → String), T.select (fun r => f r == a)
        = T'.select (fun r => f r == a) →
      (∀ r ∈ T.rows, f r ≠ a) → ∀ r ∈ T'.rows, f r ≠ a := by
    intro κ ρ key T T' f hsame hT r hr hf
    have hmem : r ∈ T.select fun r => f r == a := by
      rw [hsame, Table.mem_select]
      exact ⟨hr, by simpa using hf⟩
    exact hT r ((Table.mem_select _).1 hmem).1 hf
  intro hclear
  refine ⟨hnone _ h.roster hclear.roster, hnone _ h.fires hclear.fires,
    hnone _ h.spawns hclear.spawns, ?_⟩
  intro r hr hf
  have hmem : r.unnumbered ∈ (s.pending.select fun r =>
      r.sessionId == a).map PendingRec.unnumbered := by
    rw [h.pending]
    refine List.mem_map_of_mem ((Table.mem_select _).2 ⟨hr, ?_⟩)
    simpa using hf
  obtain ⟨x, hx, -⟩ := List.mem_map.1 hmem
  obtain ⟨hx, hxa⟩ := (Table.mem_select _).1 hx
  exact hclear.pending x hx (by simpa using hxa)

theorem hasStatus_congr (h : s.sessions.find? a = s'.sessions.find? a)
    (status : SessionStatus) : s'.hasStatus a status = s.hasStatus a status := by
  unfold hasStatus
  rw [h]

theorem inert_congr (h : SameSlice a s s') (hs : s.Inert a) : s'.Inert a := by
  intro hclosed
  rw [hasStatus_congr h.session] at hclosed
  exact clear_congr h (hs hclosed)

/-- Closing a session clears it. -/
theorem inert_closeSession (s : Store) : (s.closeSession a).Inert a := by
  intro _
  unfold closeSession
  constructor
  all_goals
    intro r hr
    rw [Table.mem_deleteWhere] at hr
    exact beq_eq_false_iff_ne.1 hr.2

/-- Closing a list of sessions leaves every session inert that was. -/
theorem inert_closeSessions (ids : List String) (hs : s.Inert a) :
    (ids.foldl closeSession s).Inert a := by
  induction ids generalizing s with
  | nil => exact hs
  | cons id ids ih =>
      apply ih
      by_cases h : id = a
      · subst h
        exact inert_closeSession s
      · exact inert_congr (sameSlice_closeSession h s) hs

theorem hasStatus_updateSession {f : SessionRec → SessionRec}
    (hf : ∀ r, (f r).sessionId = r.sessionId)
    (hstatus : ∀ r, (f r).status = r.status) (status : SessionStatus) :
    (s.updateSession b f hf).hasStatus a status = s.hasStatus a status := by
  unfold hasStatus updateSession
  rw [Table.find?_updateWhere]
  cases s.sessions.find? a with
  | none => rfl
  | some r =>
      rw [Option.map_some, Option.any_some, Option.any_some]
      split
      · rw [hstatus]
      · rfl

theorem hasStatus_upsertSession {ev : Event} {t : Int}
    (hev : ev.sessionId = a) :
    (s.upsertSession ev t).hasStatus a .open = true := by
  unfold hasStatus upsertSession
  rw [Table.find?_insertOrUpdate, if_pos (by simpa using hev)]
  cases s.sessions.find? a with
  | none => rfl
  | some r => rfl

end Store

-- =========================================================== the sections

/-- What a handler knows of the session. -/
inductive Knows
  /-- Its row is open. -/
  | «open»
  /-- It is inert. -/
  | unknown
  /-- Rows may have been filed under a closed session. -/
  | dirty
  deriving DecidableEq

def Knows.Means (a : String) : Knows → Store → Prop
  | .open, s => s.hasStatus a .open = true
  | .unknown, s => s.Inert a
  | .dirty, _ => True

/-- A section that files rows under the session, or wakes it, wants it
open. -/
def Section.Fits (a : String) (m : Knows) : Section → Prop
  | .queue sessionId _ => sessionId = a → m = .open
  | .stamp session _ _ | .release session _ =>
      session.sessionId = a → m = .open
  | _ => True

/-- What is known after a section. Reading the transcript of a session
that may be closed is the one that files rows under it regardless. -/
def Section.leaves (a : String) (m : Knows) : Section → Knows
  | .start ev _ | .prompt ev _ _ | .stop ev _ =>
      if ev.sessionId = a then .open else m
  | .ingest sessionId _ _ =>
      if sessionId = a ∧ m ≠ .open then .dirty else m
  | .close sessionId => if sessionId = a then .unknown else m
  | .closeIfOpen _ | .prune _ => if m = .open then .unknown else m
  | _ => m

theorem Knows.means_congr {a : String} {m : Knows} {s s' : Store}
    (h : SameSlice a s s') (hm : m.Means a s) : m.Means a s' := by
  cases m with
  | «open» => exact (Store.hasStatus_congr h.session _).trans hm
  | unknown => exact Store.inert_congr h hm
  | dirty => trivial

theorem Knows.Means.inert {a : String} {m : Knows} {s : Store}
    (hm : m.Means a s) (hdirty : m ≠ .dirty) : s.Inert a := by
  cases m with
  | «open» => exact Store.hasStatus_open_not_closed hm
  | unknown => exact hm
  | dirty => exact absurd rfl hdirty

/-- What is known while a section leaves the sessions alone. -/
private theorem Knows.open_of_sessions {a : String} {s s' : Store}
    (h : s'.sessions = s.sessions) (hm : Knows.Means a .open s) :
    Knows.Means a .open s' := by
  have hfind : s.sessions.find? a = s'.sessions.find? a := by rw [h]
  exact (Store.hasStatus_congr hfind _).trans hm

private theorem Knows.classified {a : String} {m : Knows} {s : Store}
    {ev : Event} {t : Int} (hm : m.Means a s) :
    m.Means a (classifyNotification s ev t).1 := by
  obtain ⟨spawns, hs⟩ := classifyNotification_only s ev t
  have hsessions : (classifyNotification s ev t).1.sessions = s.sessions := by
    rw [hs]
  have hspawns : (∀ r ∈ s.spawns.rows, r.sessionId ≠ a) →
      ∀ r ∈ (classifyNotification s ev t).1.spawns.rows, r.sessionId ≠ a := by
    intro hclear r hr
    simp only [classifyNotification, Store.markSpawnTerminal] at hr
    split at hr
    · split at hr
      · obtain ⟨y, hy, rfl⟩ := List.mem_map.1 hr
        split
        · exact hclear y hy
        · exact hclear y hy
      · exact hclear r hr
    · exact hclear r hr
  cases m with
  | «open» => exact open_of_sessions hsessions hm
  | dirty => trivial
  | unknown =>
      intro hclosed
      have hclear := hm ((Store.hasStatus_congr (by rw [hsessions]) _).trans
        hclosed)
      refine ⟨?_, ?_, hspawns hclear.spawns, ?_⟩
      · rw [hs]
        exact hclear.roster
      · rw [hs]
        exact hclear.fires
      · rw [hs]
        exact hclear.pending

/-- The spec of every section, for what is known of one session. -/
theorem Knows.run {a : String} {m : Knows} {k : Nat} {now : Int}
    {d : Daemon} {x : Section} (hfits : x.Fits a m)
    (hm : m.Means a d.store) :
    (x.leaves a m).Means a (x.run k now d).1 := by
  have hcloses : x.closes = true → m ≠ .dirty →
      (x.run k now d).1.Inert a := by
    intro hc hdirty
    obtain ⟨ids, hs, -⟩ := closes_run k now d hc
    rw [hs]
    exact Store.inert_closeSessions ids (hm.inert hdirty)
  have hclosed : x.closes = true → x.leaves a m
      = (if m = .open then .unknown else m) →
      (x.leaves a m).Means a (x.run k now d).1 := by
    intro hc hleaves
    rw [hleaves]
    cases m with
    | «open» => exact hcloses hc (by simp)
    | unknown => exact hcloses hc (by simp)
    | dirty => trivial
  have hother : ∀ b, x.about = some b → b ≠ a →
      m.Means a (x.run k now d).1 := fun b hb hne =>
    Knows.means_congr (slice_run hne hb) hm
  cases x with
  | prune t => exact hclosed rfl rfl
  | closeIfOpen sessionId => exact hclosed rfl rfl
  | classify ev t => exact Knows.classified hm
  | close sessionId =>
      simp only [Section.leaves]
      split
      next h =>
        subst h
        exact Store.inert_closeSession d.store
      next h => exact hother _ rfl h
  | start ev t =>
      simp only [Section.leaves]
      split
      next h => exact Store.hasStatus_upsertSession h
      next h => exact hother _ rfl h
  | prompt ev waking t =>
      simp only [Section.leaves]
      split
      next h =>
        have hopen : ((d.store.upsertSession ev t).setLastActivity
            ev.sessionId t).hasStatus a .open = true := by
          refine (Store.hasStatus_updateSession ?_ ?_ _).trans
            (Store.hasStatus_upsertSession h)
          all_goals exact fun _ => rfl
        cases waking with
        | false => exact hopen
        | true =>
            refine (Store.hasStatus_updateSession ?_ ?_ _).trans hopen
            all_goals exact fun _ => rfl
      next h => exact hother _ rfl h
  | stop ev t =>
      simp only [Section.leaves]
      split
      next h =>
        refine (Store.hasStatus_updateSession ?_ ?_ _).trans
          ((Store.hasStatus_updateSession ?_ ?_ _).trans
            (Store.hasStatus_upsertSession h))
        all_goals exact fun _ => rfl
      next h => exact hother _ rfl h
  | ingest sessionId delta t =>
      simp only [Section.leaves]
      split
      next => trivial
      next h =>
        by_cases hs : sessionId = a
        · obtain rfl : m = .open := by
            by_contra hopen
            exact h ⟨hs, hopen⟩
          obtain ⟨spawns, hgauge⟩ :=
            applyDelta_gauge d.store sessionId delta t
          show Store.hasStatus (applyDelta d.store sessionId delta t) a .open
            = true
          rw [hgauge]
          refine (Store.hasStatus_updateSession ?_ ?_ _).trans hm
          all_goals exact fun _ => rfl
        · exact hother _ rfl hs
  | queue sessionId entries =>
      by_cases hs : sessionId = a
      · obtain rfl := hfits hs
        obtain ⟨roster, h⟩ := queueForks_only d.store sessionId entries now
        exact Knows.open_of_sessions (by simp only [Section.run, h]) hm
      · exact hother _ rfl hs
  | stamp session selected t =>
      by_cases hs : session.sessionId = a
      · obtain rfl := hfits hs
        obtain ⟨roster, fires, runs, pending, h⟩ :=
          stampWake_only d.store session selected t d.log.length
        exact Knows.open_of_sessions (by simp only [Section.run, h]) hm
      · exact hother _ rfl hs
  | release session released =>
      by_cases hs : session.sessionId = a
      · obtain rfl := hfits hs
        obtain ⟨pending, h⟩ :=
          deleteReleased_only d.store session.sessionId released
        exact Knows.open_of_sessions (by simp only [Section.run, h]) hm
      · exact hother _ rfl hs

-- =========================================================== the handlers

/-- The session a poll is of. -/
def Job.pollOf : Job → Option String
  | .request (.stopWait ev) => some ev.sessionId
  | _ => none

/-- What a job knows of session `a`. A poll whose timer runs down takes
the row to be open; that it is, is the condition on the run. -/
def knowing (a : String) (job : Job) : Prog.Typestate Op Op.Res Knows where
  ok m op := match op with
    | .write x => x.Fits a m
    | .select _ => m ≠ .dirty
    | _ => True
  next m op r := match op, r with
    | .write x, _ => x.leaves a m
    | .select _, branch =>
        if branch = .timer ∧ job.pollOf = some a then .open else .unknown
    | _, _ => m
  valid _ op r := match op, r with
    | .snapshot sessionId, session => ∀ x, session = some x → x.sessionId = sessionId
    | _, _ => True
  rests m := m ≠ .dirty

/-- Between two awaits a job knows that the session is inert. -/
def knowingShift (a : String) : World.Shift Knows where
  T := knowing a
  idle := .unknown
  E _ m s := m.Means a s
  I s := s.Inert a

section poll

variable {a b : String} {job : Job}

/-- A poll of `b` keeps the row of its own session open. -/
private def Tending (a b : String) (m : Knows) : Prop :=
  m ≠ .dirty ∧ (b = a → m = .open)

private theorem Tending.typed {m : Knows} (hm : Tending a b m) {α : Type}
    {p : Handler α} (hp : Tends b p) :
    p.Typed (knowing a job) (fun m' _ => m' = m) m := by
  refine Prog.Every.typed (I := (· = m)) rfl (hp.mono fun op hop m' hm' => ?_)
  subst hm'
  cases op with
  | select sleepSecs => cases hop
  | write x =>
      refine ⟨?_, fun r _ => ?_⟩
      · cases x with
        | queue sessionId entries =>
            exact fun hs => hm.2 ((beq_iff_eq.1 hop).symm.trans hs)
        | stamp session selected t => cases hop
        | release session released => cases hop
        | _ => trivial
      · cases x with
        | stop ev t =>
            show (if ev.sessionId = a then .open else m') = m'
            split
            next hs => exact (hm.2 ((beq_iff_eq.1 hop).symm.trans hs)).symm
            next => rfl
        | ingest sessionId delta t =>
            show (if sessionId = a ∧ m' ≠ .open then .dirty else m') = m'
            split
            next hs =>
              exact absurd (hm.2 ((beq_iff_eq.1 hop).symm.trans hs.1)) hs.2
            next => rfl
        | queue sessionId entries => rfl
        | _ => cases hop
  | _ => exact ⟨trivial, fun r _ => rfl⟩

/-- One more operation that tends `b`. -/
private theorem Tending.then {m : Knows} (hm : Tending a b m) {α β : Type}
    {Q : Knows → β → Prop} {p : Handler α} {f : α → Handler β}
    (hp : Tends b p) (hf : ∀ r, (f r).Typed (knowing a job) Q m) :
    (p >>= f).Typed (knowing a job) Q m := by
  refine (hm.typed hp).bind fun m' r hm' => ?_
  rw [hm']
  exact hf r

/-- At an await others may go on; after the timer the row is open. -/
private theorem Tending.await {m : Knows} (hm : Tending a b m)
    (hjob : job.pollOf = some b) {sleepSecs : Option Nat}
    {f : Branch → Handler ResponseBody}
    (htimer : ∀ m, Tending a b m → (f .timer).Typed (knowing a job)
      (fun m _ => m ≠ .dirty) m)
    (hrest : ∀ branch, branch ≠ .timer → f branch = pure .waited) :
    ((Op.select sleepSecs).go >>= f).Typed (knowing a job)
      (fun m _ => m ≠ .dirty) m := by
  refine ⟨hm.1, fun branch _ => ?_⟩
  by_cases hb : branch = .timer
  · subst hb
    apply htimer
    show Tending a b (if _ ∧ _ then .open else .unknown)
    rw [hjob]
    split
    next h => exact ⟨by simp, fun _ => rfl⟩
    next h => exact ⟨by simp, fun hba => absurd ⟨rfl, by rw [hba]⟩ h⟩
  · show (f branch).Typed _ _ _
    rw [hrest branch hb]
    show (if _ ∧ _ then Knows.open else .unknown) ≠ .dirty
    split <;> simp

private theorem parkForever_typed {m : Knows} (hm : Tending a b m)
    (hjob : job.pollOf = some b) :
    parkForever.Typed (knowing a job) (fun m _ => m ≠ .dirty) m :=
  hm.await hjob (fun _ hm => hm.1) fun _ _ => rfl

private theorem buildWake_typed {m : Knows} (hm : Tending a b m)
    {session : SessionRow} (hs : session.sessionId = b)
    (selected : List SelectedFork) :
    (buildWake session selected).Typed (knowing a job)
      (fun m' _ => m' = m) m := by
  unfold buildWake
  split
  · rfl
  · refine ⟨trivial, fun t _ => ⟨?_, fun _ _ => ⟨trivial, fun _ _ => rfl⟩⟩⟩
    exact fun ha => hm.2 (hs.symm.trans ha)

private theorem releaseDue_typed {m : Knows} (hm : Tending a b m)
    {session : SessionRow} (hs : session.sessionId = b) :
    (releaseDue session).Typed (knowing a job) (fun m' _ => m' = m) m := by
  refine ⟨trivial, fun released _ => ?_⟩
  show Prog.Typed _ _ m (if _ then _ else _)
  split
  · rfl
  · refine ⟨?_, fun _ _ => ⟨trivial, fun _ _ => rfl⟩⟩
    exact fun ha => hm.2 (hs.symm.trans ha)

variable {w : Watch}

private theorem issueWake_typed {m : Knows} (hm : Tending a b m)
    (hjob : job.pollOf = some b) (hw : w.session.sessionId = b) :
    (issueWake w).Typed (knowing a job) (fun m _ => m ≠ .dirty) m := by
  refine hm.then (tends_go rfl) fun t => ?_
  refine hm.then (hw ▸ tends_selectForks ..) fun selected => ?_
  refine (buildWake_typed hm hw selected).bind fun m' payload hm' => ?_
  rw [hm']
  cases payload with
  | none => exact parkForever_typed hm hjob
  | some payload => exact hm.1

private theorem debounceWake_typed {m : Knows} (hm : Tending a b m)
    (hjob : job.pollOf = some b) (hw : w.session.sessionId = b) :
    (debounceWake w).Typed (knowing a job) (fun m _ => m ≠ .dirty) m := by
  unfold debounceWake
  split
  · refine hm.await hjob (fun m hm => issueWake_typed hm hjob hw) ?_
    intro branch hb
    cases branch with
    | timer => exact absurd rfl hb
    | _ => rfl
  · exact issueWake_typed hm hjob hw

private theorem serveDeadlines_typed {m : Knows} (hm : Tending a b m)
    (hjob : job.pollOf = some b) (hw : w.session.sessionId = b)
    (deadlines : List Nat) : (serveDeadlines w deadlines).Typed
      (knowing a job) (fun m _ => m ≠ .dirty) m := by
  induction deadlines generalizing m with
  | nil => exact parkForever_typed hm hjob
  | cons d rest ih =>
      refine hm.then (tends_go rfl) fun t => ?_
      refine hm.await hjob (fun m hm => ?_) ?_
      · refine hm.then (hw ▸ tends_dueNow w) fun due => ?_
        cases due with
        | true => exact debounceWake_typed hm hjob hw
        | false => exact ih hm
      · intro branch hb
        cases branch with
        | timer => exact absurd rfl hb
        | _ => rfl

private theorem awaitDue_typed {m : Knows} (hm : Tending a b m)
    (hjob : job.pollOf = some b) (hw : w.session.sessionId = b) :
    (awaitDue w).Typed (knowing a job) (fun m _ => m ≠ .dirty) m := by
  refine hm.then (hw ▸ tends_dueNow w) fun due => ?_
  cases due with
  | true => exact debounceWake_typed hm hjob hw
  | false => exact serveDeadlines_typed hm hjob hw _

/-- A poll opens its session, and wakes it only while it is open. -/
private theorem handleStopWait_typed (a : String) (ev : Event) :
    (handleStopWait ev).Typed (knowing a (.request (.stopWait ev)))
      (fun m _ => m ≠ .dirty) .unknown := by
  have hjob : (Job.request (.stopWait ev)).pollOf = some ev.sessionId := rfl
  have hopen : Tending a ev.sessionId
      (if ev.sessionId = a then .open else .unknown) := by
    split
    next h => exact ⟨by simp, fun _ => rfl⟩
    next h => exact ⟨by simp, fun hs => absurd hs h⟩
  refine ⟨trivial, fun _ _ => ⟨trivial, fun t _ => ⟨trivial, fun _ _ => ?_⟩⟩⟩
  have hpoll : ∀ promptTokens cfg {m : Knows}, Tending a ev.sessionId m →
      (parkedPoll ev t promptTokens cfg).Typed
        (knowing a (.request (.stopWait ev))) (fun m _ => m ≠ .dirty) m := by
    intro promptTokens cfg m hm
    refine ⟨trivial, fun session hsession => ?_⟩
    cases session with
    | none => exact hm.1
    | some session =>
        have hs : session.sessionId = ev.sessionId := hsession _ rfl
        refine (releaseDue_typed hm hs).bind fun m' payload hm' => ?_
        rw [hm']
        cases payload with
        | some payload => exact hm.1
        | none =>
            exact hm.then (tends_go rfl) fun _ => awaitDue_typed hm hjob hs
  show Prog.Typed _ _ (if ev.sessionId = a then Knows.open else .unknown)
    (ingestTranscript ev >>= _)
  exact hopen.then (tends_ingestTranscript ev) fun promptTokens =>
    hopen.then (tends_go rfl) fun cfg => hopen.then (tends_go rfl) fun _ =>
      hopen.then (tends_go rfl) fun _ =>
        (hpoll promptTokens cfg hopen).bind fun m body hm =>
          ⟨trivial, fun _ _ => hm⟩

end poll

section others

variable {a : String} {job : Job}

/-- Classifying a prompt files rows under no session but its own. -/
private theorem classifyPrompt_typed (ev : Event) (t : Int) :
    (classifyPrompt ev t).Typed (knowing a job)
      (fun m _ => m = .dirty → ev.sessionId = a) .unknown := by
  have hingest : (ingestTranscript ev).Typed (knowing a job)
      (fun m _ => m = .dirty → ev.sessionId = a) .unknown := by
    unfold ingestTranscript
    split
    · exact fun h => by cases h
    · refine ⟨trivial, fun session _ => ?_⟩
      cases session with
      | none => exact fun h => by cases h
      | some session =>
          refine ⟨trivial, fun delta _ => ?_⟩
          cases delta with
          | none => exact fun h => by cases h
          | some delta =>
              refine ⟨trivial, fun t _ => ⟨trivial, fun _ _ => ?_⟩⟩
              show (if _ ∧ _ then Knows.dirty else .unknown) = .dirty → _
              split
              next h => exact fun _ => h.1
              next => exact fun h => by cases h
  have hrecent : ∀ m, (m = Knows.dirty → ev.sessionId = a) →
      ((Op.recentlyWoke ev.sessionId t).go >>= fun recent =>
        pure (!recent)).Typed (knowing a job)
        (fun m (_ : Bool) => m = .dirty → ev.sessionId = a) m :=
    fun m hm => ⟨trivial, fun _ _ => hm⟩
  unfold classifyPrompt
  split
  · refine hingest.bind fun m _ hm => ⟨trivial, fun matched _ => ?_⟩
    cases matched with
    | true => exact hm
    | false => exact hrecent m hm
  · split
    · exact fun h => by cases h
    · exact hrecent _ fun h => by cases h

/-- What classifying a prompt may leave behind, recording it puts right. -/
private theorem handleEvent_typed (ev : Event) :
    (handleEvent ev).Typed (knowing a job) (fun m _ => m ≠ .dirty)
      .unknown := by
  refine ⟨trivial, fun _ _ => ⟨trivial, fun t _ => ?_⟩⟩
  cases hkind : ev.event with
  | sessionStart =>
      refine ⟨trivial, fun _ _ => ?_⟩
      show (if _ then Knows.open else .unknown) ≠ .dirty
      split <;> simp
  | sessionEnd =>
      refine ⟨trivial, fun _ _ => ⟨trivial, fun _ _ => ?_⟩⟩
      show (if _ then Knows.unknown else .unknown) ≠ .dirty
      split <;> simp
  | stop => exact fun h => by cases h
  | promptSubmit =>
      refine (classifyPrompt_typed ev t).bind fun m waking hm => ?_
      refine ⟨trivial, fun _ _ => ⟨trivial, fun _ _ => ?_⟩⟩
      show (if _ then Knows.open else m) ≠ .dirty
      split
      next => simp
      next h => exact fun hdirty => h (hm hdirty)

/-- What only closes sessions leaves nothing behind. -/
private theorem closing_typed {α : Type} {p : Handler α} (hp : Shuts p) :
    p.Typed (knowing a job) (fun m _ => m ≠ .dirty) .unknown := by
  refine Prog.Every.typed (by simp) (hp.mono fun op hop m hm => ?_)
  have hclosed : ∀ (c : Prop) [Decidable c],
      (if c then Knows.unknown else m) ≠ .dirty := by
    intro c _
    split
    · simp
    · exact hm
  cases op with
  | select sleepSecs => cases hop
  | write x =>
      cases x with
      | close sessionId => exact ⟨trivial, fun _ _ => hclosed _⟩
      | closeIfOpen sessionId => exact ⟨trivial, fun _ _ => hclosed _⟩
      | prune t => exact ⟨trivial, fun _ _ => hclosed _⟩
      | _ => cases hop
  | _ => exact ⟨trivial, fun _ _ => hm⟩

/-- What jobs know is as it should be between awaits. -/
theorem knowing_sound (a : String) : (knowingShift a).Sound where
  start job := by
    cases job with
    | request req =>
        cases req with
        | event ev => exact handleEvent_typed ev
        | stopWait ev => exact handleStopWait_typed a ev
        | prune => exact closing_typed shuts_handlePrune
    | reap => exact closing_typed shuts_sessionReaper
    | grace sessionId gen => exact closing_typed (shuts_graceClose sessionId gen)
  lost job sessionId started := closing_typed (shuts_onPollLost sessionId started)
  idle job s hs := hs
  rests job m s hrests hm := hm.inert hrests
  restsIdle job := by
    show Knows.unknown ≠ .dirty
    simp
  await job m op hop hok := by
    cases op with
    | select sleepSecs =>
        refine ⟨hok, ?_, fun r => ⟨id, rfl⟩⟩
        show Knows.unknown ≠ .dirty
        simp
    | _ => cases hop

end others

-- ================================================================ the run

private theorem exec_snapshot {k : Nat} {sessionId : String} {tick : Tick}
    {d d' : Daemon} {session : SessionRow}
    (h : exec k (.snapshot sessionId) tick d = some (d', some session)) :
    session.sessionId = sessionId := by
  simp only [exec] at h
  cases hrow : d.store.getSession sessionId with
  | none => simp [hrow] at h
  | some row =>
      rw [hrow] at h
      simp only [Option.some.injEq, Prod.mk.injEq] at h
      rw [← h.2]
      exact Store.sessionId_of_getSession hrow

/-- A poll of `a` whose await takes its timer branch. -/
private theorem firesTimer_of_exec {a : String} {w : World} {k : Nat}
    {task : Task} {sleepSecs : Option Nat} {tick : Tick} {d : Daemon}
    (htask : w.tasks k = some task)
    (hab : w.about k = some (.select sleepSecs))
    (hpoll : task.job.pollOf = some a)
    (hexec : exec k (.select sleepSecs) tick w.daemon = some (d, .timer)) :
    w.firesTimer a (.move k tick) = true := by
  obtain ⟨task', f, htask', hprog⟩ := World.about_eq_some hab
  obtain rfl : task = task' := Option.some.inj (htask.symm.trans htask')
  obtain ⟨job, started, client, prog⟩ := task
  obtain ⟨now, branch⟩ := tick
  simp only at hprog hpoll
  subst hprog
  cases branch with
  | timer =>
      cases sleepSecs with
      | none => cases hexec
      | some n =>
          unfold Job.pollOf at hpoll
          split at hpoll
          · simpa [World.firesTimer, htask] using hpoll
          · cases hpoll
  | cancelled =>
      simp only [exec] at hexec
      split at hexec <;> simp at hexec
  | shutdown => simp [exec] at hexec

/-- An operation keeps what its job knows, if no timer runs down on a
closed session. -/
private theorem knowing_exec {a : String} {w : World} {k : Nat} {task : Task}
    {op : Op} {m : Knows} {tick : Tick} {d : Daemon} {r : op.Res}
    (hopen : w.timersOpen a (.move k tick) = true)
    (htask : w.tasks k = some task) (hab : w.about k = some op)
    (hm : m.Means a w.daemon.store) (hok : (knowing a task.job).ok m op)
    (hexec : exec k op tick w.daemon = some (d, r)) :
    (knowing a task.job).valid m op r
      ∧ ((knowing a task.job).next m op r).Means a d.store := by
  rcases exec_cases hexec with ⟨x, rfl, rfl⟩ | ⟨hwrite, hstore, -⟩
  · exact ⟨trivial, Knows.run hok hm⟩
  rw [hstore]
  cases op with
  | write x => exact absurd rfl (hwrite x)
  | snapshot sessionId =>
      refine ⟨?_, hm⟩
      rintro session rfl
      exact exec_snapshot hexec
  | select sleepSecs =>
      refine ⟨trivial, ?_⟩
      show Knows.Means a (if r = .timer ∧ task.job.pollOf = some a then .open
        else .unknown) _
      split
      next h =>
        obtain ⟨rfl, hpoll⟩ := h
        have hfires : w.firesTimer a (.move k tick) = true :=
          firesTimer_of_exec htask hab hpoll hexec
        rw [World.timersOpen, hfires] at hopen
        exact hopen
      next => exact hm.inert hok
  | _ => exact ⟨trivial, hm⟩

/-- A closed session has no rows, and is sent no wake, as long as no
timer of a poll of its own runs down on it. -/
theorem closed_inert {disk : Disk} {a : String} {as : List Act}
    (hrun : Along World.step (fun w act => w.unpreempted act = true
      ∧ w.timersOpen a act = true) (World.init disk) as) :
    ((∀ j, (World.after disk as).yielding Op.awaits j = true) →
        (World.after disk as).daemon.store.Inert a)
      ∧ ∀ bs act cs, as = bs ++ act :: cs →
        (World.after disk bs).wakeOf act = some a →
        (World.after disk bs).daemon.store.hasStatus a .open = true := by
  have hknown : ∀ {as}, Along World.step (fun w act =>
      w.unpreempted act = true ∧ w.timersOpen a act = true)
      (World.init disk) as →
      (World.after disk as).Shifting (knowingShift a) := by
    intro as hrun
    refine hrun.invariant (fun w act hact h => ?_)
      (World.shifting_init disk fun h => ?_)
    · refine World.shifting_step (knowing_sound a) hact.1 ?_ h
      rintro k task op m tick d r rfl htask hab hm hok hexec
      exact knowing_exec hact.2 htask hab hm hok hexec
    · cases h
  refine ⟨(hknown hrun).calm, fun bs act cs has hwake => ?_⟩
  rw [has, along_append] at hrun
  have hact := hrun.2.1
  have hbs := hknown hrun.1
  unfold World.wakeOf at hwake
  split at hwake
  next k tick =>
    have hknows : ∀ x, (World.after disk bs).about k = some (.write x) →
        ∃ m : Knows, m.Means a (World.after disk bs).daemon.store
          ∧ x.Fits a m := by
      intro x hab
      obtain ⟨task, f, htask, hprog⟩ := World.about_eq_some hab
      obtain ⟨m, hm, hp⟩ := hbs.next (knowing_sound a) htask
        (World.unpreempted_others hbs.numbered hact.1 (.inl ⟨tick, rfl⟩))
      rw [hprog] at hp
      exact ⟨m, hm, hp.1⟩
    split at hwake
    next session selected t hab =>
      obtain ⟨m, hm, hfits⟩ := hknows _ hab
      obtain rfl := hfits (Option.some.inj hwake)
      exact hm
    next session released hab =>
      obtain ⟨m, hm, hfits⟩ := hknows _ hab
      obtain rfl := hfits (Option.some.inj hwake)
      exact hm
    next => cases hwake
  next => cases hwake

-- ------------------------------------------------- a poll left parked

/-- A fork due after a minute, and a session timeout shorter than that. -/
private def impatient : Disk :=
  .holding [("nap", { runOn := [.idle (some 60)] })]
    { sessionTimeoutSecs := 1, wakeDebounceSecs := 0 } none

/-- A poll of a session is parked until its deadline. -/
private def parkedRun : List Act := .stop "s" :: Act.moves 13 0 10

/-- The deadline passes while the session is open, and it is woken; then
it ends. -/
theorem closed_inert_after_wake :
    let as := parkedRun ++ Act.moves 24 0 70
      ++ .receive (.event (.simple .sessionEnd "s")) :: Act.moves 5 1 80
    (World.after impatient as).daemon.store.hasStatus "s" .closed = true
      ∧ (World.after impatient as).daemon.store.Clear "s"
      ∧ ∀ bs act cs, as = bs ++ act :: cs →
        (World.after impatient bs).wakeOf act = some "s" →
        (World.after impatient bs).daemon.store.hasStatus "s" .open = true := by
  intro as
  have hclosed : (World.after impatient as).daemon.store.hasStatus "s" .closed
      = true := by
    decide +kernel
  have hrest : ∀ j < (World.after impatient as).jobs.length, True →
      (World.after impatient as).yielding Op.awaits j = true := by
    decide +kernel
  obtain ⟨hinert, hwoken⟩ := @closed_inert impatient "s" as (by decide +kernel)
  refine ⟨hclosed, hinert (fun j => ?_) hclosed, hwoken⟩
  exact World.yielding_of_all (World.numbered_after _ _) hrest j trivial

/-- The reaper closes the session before its deadline and leaves the
poll parked. When the deadline passes the session is woken, closed as it
is. -/
theorem closed_not_inert :
    ¬∀ (disk : Disk) (a : String) (as : List Act),
      Along World.step (fun w act => w.unpreempted act = true)
        (World.init disk) as →
      ((∀ j, (World.after disk as).yielding Op.awaits j = true) →
          (World.after disk as).daemon.store.Inert a)
        ∧ ∀ bs act cs, as = bs ++ act :: cs →
          (World.after disk bs).wakeOf act = some a →
          (World.after disk bs).daemon.store.hasStatus a .open = true := by
  intro h
  have hwoken := (h impatient "s"
    (parkedRun ++ .reap :: Act.moves 3 1 20 ++ Act.moves 17 0 70)
    (by decide +kernel)).2
    (parkedRun ++ .reap :: Act.moves 3 1 20 ++ Act.moves 16 0 70)
    (.move 0 { now := 70 }) [] (by simp [Act.moves]) (by decide +kernel)
  have hclosed : (World.after impatient (parkedRun ++ .reap :: Act.moves 3 1 20
      ++ Act.moves 16 0 70)).daemon.store.hasStatus "s" .open = false := by
    decide +kernel
  rw [hwoken] at hclosed
  cases hclosed

end Autofork
