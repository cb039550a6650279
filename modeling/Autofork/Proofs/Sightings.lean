/-
What a handler has seen before it writes.

A handler writes under a session, its own, only once it has seen the
session's row: it has opened the session, or looked it up. No section
removes a row of `sessions`, so what a handler has seen there is there
when it writes. And it stamps only what a selection has returned, which
has no fork twice and no fork without a latch.

This holds in every interleaving: what others do in between takes
nothing of it away.
-/
import Autofork.Lib.Typestate
import Autofork.Proofs.Columns
import Autofork.Proofs.Issues

namespace Autofork

open Lib

/-- The session has a row. -/
def Store.Knows (s : Store) (a : String) : Prop :=
  (s.sessions.find? a).isSome = true

/-- A session is known once it has been opened. -/
theorem knows_upsertSession (s : Store) (ev : Event) (t : Int) :
    (s.upsertSession ev t).Knows ev.sessionId := by
  unfold Store.upsertSession Store.Knows
  rw [Table.find?_insertOrUpdate, if_pos rfl]
  rfl

/-- Rewriting a row does not remove it. -/
private theorem Store.Knows.update {s : Store} {a : String} (h : s.Knows a)
    (b : String) (f : SessionRec → SessionRec)
    (hf : ∀ r, (f r).sessionId = r.sessionId) :
    (s.updateSession b f hf).Knows a := by
  unfold Store.updateSession Store.Knows
  rw [Table.find?_updateWhere, Option.isSome_map]
  exact h

/-- A Stop opens its session. -/
theorem knows_recordStop (s : Store) (ev : Event) (t : Int) :
    (recordStop s ev t).Knows ev.sessionId :=
  ((knows_upsertSession s ev t).update ..).update ..

/-- So does a prompt. -/
theorem knows_recordPrompt (s : Store) (ev : Event) (waking : Bool)
    (t : Int) : (recordPrompt s ev waking t).Knows ev.sessionId := by
  have htouched := (knows_upsertSession s ev t).update ev.sessionId
    (fun r => { r with lastActivity := t }) fun _ => rfl
  cases waking with
  | true =>
      exact htouched.update ev.sessionId
        (fun r => { r with
          pauseEpoch := r.pauseEpoch + 1
          pauseStartedAt := none })
        fun _ => rfl
  | false => exact htouched

-- ============================================================= selections

private theorem named_considerLatch (session : SessionRow)
    (entry : RosterEntry) (fork : ForkDef) (trigger : ForkRunOn) :
    (considerLatch session entry fork trigger).Returns
      fun sel => ∀ x ∈ sel, x.name = entry.forkName := by
  have hnamed : ∀ x ∈ some (mkSelected session entry fork trigger),
      x.name = entry.forkName := by
    intro x hx
    rw [← Option.some.inj hx]
    rfl
  unfold considerLatch
  split
  · exact hnamed
  · refine Prog.Returns.after fun latched => ?_
    split
    · exact fun x hx => by cases hx
    · exact hnamed

/-- What comes of a roster entry carries its name. -/
private theorem named_considerFork (session : SessionRow) (cfg : Config)
    (moments : List ForkMoment) (t : Int) (entry : RosterEntry) :
    (considerFork session cfg moments t entry).Returns
      fun sel => ∀ x ∈ sel, x.name = entry.forkName := by
  have hnone : ∀ x ∈ (none : Option SelectedFork), x.name = entry.forkName :=
    fun x hx => by cases hx
  refine Prog.Returns.after fun fork => ?_
  split
  · split
    · exact hnone
    · split
      · exact named_considerLatch ..
      · refine Prog.Returns.after fun throttled => ?_
        split
        · exact hnone
        · exact named_considerLatch ..
  · exact hnone

/-- A selection has each name of the roster at most as often as the
roster does. -/
private theorem named_considerAll (session : SessionRow) (cfg : Config)
    (moments : List ForkMoment) (t : Int) (roster : List RosterEntry) :
    (considerAll session cfg moments t roster).Returns fun selected =>
      (selected.map SelectedFork.name).Sublist
        (roster.map RosterEntry.forkName) := by
  induction roster with
  | nil => exact List.Sublist.refl _
  | cons entry roster ih =>
      show Prog.Returns _ (considerFork session cfg moments t entry >>=
        fun sel => considerAll session cfg moments t roster >>=
          fun rest => pure (sel.toList ++ rest))
      refine (named_considerFork session cfg moments t entry).bind
        fun sel hsel => ih.bind fun rest hrest => ?_
      cases sel with
      | none => exact hrest.cons _
      | some x =>
          show (x.name :: rest.map SelectedFork.name).Sublist _
          rw [hsel x rfl]
          exact hrest.cons_cons _

/-- A session has each fork on its roster once. -/
theorem Store.nodup_rosterOf (s : Store) (a : String) :
    ((s.rosterOf a).map RosterEntry.forkName).Nodup := by
  have hkeys := s.roster.nodup_orderBy (fun r => r.sessionId == a)
    fun r r' => decide (r.queuedAt < r'.queuedAt)
      || (r.queuedAt == r'.queuedAt && decide (r.forkName ≤ r'.forkName))
  refine List.Nodup.of_map (fun f => (a, f)) ?_
  rw [List.map_map]
  have hpair : (s.rosterOf a).map ((fun f => (a, f)) ∘ RosterEntry.forkName)
      = (s.rosterOf a).map RosterEntry.key := by
    refine List.map_congr_left fun r hr => ?_
    rw [Store.rosterOf, Table.mem_orderBy, beq_iff_eq] at hr
    show (a, r.forkName) = (r.sessionId, r.forkName)
    rw [hr.2]
  rw [hpair]
  exact hkeys

-- ============================================================== handlers

/-- What can be stamped: different forks, each with a latch. -/
def Stampable (selected : List SelectedFork) : Prop :=
  (selected.map SelectedFork.name).Nodup
    ∧ ∀ x ∈ selected, x.latchKey.isSome = true

/-- A handler, by the session it has seen the row of. -/
def sighting : Prog.Typestate Op Op.Res (Option String) where
  ok m
    | .write (.ingest a ..) | .write (.queue a _) => m = some a
    | .write (.stamp session selected _) =>
        m = some session.sessionId ∧ Stampable selected
    | _ => True
  next m
    | .write (.start ev _), _ | .write (.prompt ev ..), _
    | .write (.stop ev _), _ => some ev.sessionId
    | .getSession a, r => m <|> (r.map fun _ => a)
    | _, _ => m
  valid _
    | .snapshot a, r => ∀ session, r = some session → session.sessionId = a
    | .roster _, r => (r.map RosterEntry.forkName).Nodup
    | _, _ => True

/-- A program that goes on knowing session `a`. -/
abbrev Sights {α : Type} (a : String) (Q : α → Prop) (p : Handler α) : Prop :=
  p.Typed sighting (fun m b => m = some a ∧ Q b) (some a)

/-- An operation for which nothing has to be known. -/
def Op.blind (op : Op) : Prop := ∀ m, sighting.ok m op

/-- A program of such operations. -/
theorem typed_of_blind {α : Type} {p : Handler α} (h : p.Every Op.blind)
    (m : Option String) : p.Typed sighting (fun _ _ => True) m :=
  Prog.Every.typed (I := fun _ => True) trivial
    (Prog.Every.mono (fun _ hop m _ => ⟨hop m, fun _ _ => trivial⟩) h)

/-- What only closes sessions need have seen none. -/
theorem Shuts.sighting {α : Type} {p : Handler α} (h : Shuts p)
    (m : Option String) :
    p.Typed Autofork.sighting (fun _ _ => True) m := by
  refine typed_of_blind (Prog.Every.mono (fun op hop m => ?_) h) m
  cases op with
  | write x => cases x <;> trivial
  | _ => trivial

section poll

variable {a : String} {w : Watch}

/-- What a poll does short of a wake it does under the session it has seen. -/
theorem Tends.sights {α : Type} {p : Handler α} (h : Tends a p) :
    Sights a (fun _ => True) p := by
  refine (Prog.Every.typed (I := (· = some a)) rfl
    (Prog.Every.mono (fun op hop m hm => ?_) h)).mono
      fun m b hm => ⟨hm, trivial⟩
  subst hm
  cases op with
  | write x =>
      cases x with
      | stop ev t =>
          obtain rfl : ev.sessionId = a := by simpa [Op.tends] using hop
          exact ⟨trivial, fun _ _ => rfl⟩
      | ingest b delta t =>
          obtain rfl : b = a := by simpa [Op.tends] using hop
          exact ⟨rfl, fun _ _ => rfl⟩
      | queue b entries =>
          obtain rfl : b = a := by simpa [Op.tends] using hop
          exact ⟨rfl, fun _ _ => rfl⟩
      | _ => cases hop
  | select sleepSecs => cases hop
  | _ => exact ⟨trivial, fun _ _ => rfl⟩

/-- A selection returns forks of the roster of the session it has seen. -/
theorem selectForks_sights (session : SessionRow) (cfg : Config)
    (moments : List ForkMoment) :
    Sights session.sessionId Stampable (selectForks session cfg moments) := by
  have hlatched := returns_selectForks session cfg moments
  have hdistinct : (selectForks session cfg moments).Typed sighting
      (fun m selected => m = some session.sessionId
        ∧ (selected.map SelectedFork.name).Nodup) (some session.sessionId) := by
    refine ⟨trivial, fun entries _ => ⟨rfl, fun _ _ => ⟨trivial,
      fun roster hroster => ⟨trivial, fun t _ => ?_⟩⟩⟩⟩
    have htends : Tends session.sessionId
        (considerAll session cfg moments t roster) :=
      (chooses_considerAll ..).mono fun _ => Op.tends_of_chooses
    refine (htends.sights.returning (named_considerAll ..)).mono ?_
    intro m selected h
    exact ⟨h.1.1, h.2.nodup hroster⟩
  refine (hdistinct.returning hlatched).mono fun m selected h => ?_
  refine ⟨h.1.1, h.1.2, fun x hx => ?_⟩
  obtain ⟨trigger, key, -, -, hkey⟩ := (h.2 x hx).latch
  rw [hkey]
  rfl

/-- A wake is stamped for a session that has been seen. -/
theorem buildWake_sights {session : SessionRow} {selected : List SelectedFork}
    (h : Stampable selected) :
    Sights session.sessionId (fun _ => True) (buildWake session selected) := by
  unfold buildWake
  split
  · exact ⟨rfl, trivial⟩
  · exact ⟨trivial, fun t _ => ⟨⟨rfl, h⟩, fun _ _ => ⟨trivial, fun _ _ =>
      ⟨rfl, trivial⟩⟩⟩⟩

theorem parkForever_sights : Sights a (fun _ => True) parkForever :=
  ⟨trivial, fun _ _ => ⟨rfl, trivial⟩⟩

theorem issueWake_sights :
    Sights w.session.sessionId (fun _ => True) (issueWake w) := by
  refine ⟨trivial, fun t _ => (selectForks_sights ..).bind fun m selected h => ?_⟩
  rw [h.1]
  refine (buildWake_sights h.2).bind fun m payload hm => ?_
  rw [hm.1]
  cases payload with
  | some payload => exact ⟨rfl, trivial⟩
  | none => exact parkForever_sights

theorem debounceWake_sights :
    Sights w.session.sessionId (fun _ => True) (debounceWake w) := by
  unfold debounceWake
  split
  · refine ⟨trivial, fun branch _ => ?_⟩
    cases branch with
    | timer => exact issueWake_sights
    | _ => exact ⟨rfl, trivial⟩
  · exact issueWake_sights

theorem serveDeadlines_sights (deadlines : List Nat) :
    Sights w.session.sessionId (fun _ => True)
      (serveDeadlines w deadlines) := by
  induction deadlines with
  | nil => exact parkForever_sights
  | cons d rest ih =>
      refine ⟨trivial, fun t _ => ⟨trivial, fun branch _ => ?_⟩⟩
      cases branch with
      | timer =>
          refine (tends_dueNow w).sights.bind fun m due hm => ?_
          rw [hm.1]
          cases due with
          | true => exact debounceWake_sights
          | false => exact ih
      | _ => exact ⟨rfl, trivial⟩

/-- The rest of a poll writes under the session it has seen. -/
theorem awaitDue_sights (ha : w.session.sessionId = a) :
    Sights a (fun _ => True) (awaitDue w) := by
  subst ha
  refine (tends_dueNow w).sights.bind fun m due hm => ?_
  rw [hm.1]
  cases due with
  | true => exact debounceWake_sights
  | false => exact serveDeadlines_sights w.deadlines

theorem releaseDue_sights (session : SessionRow) :
    Sights a (fun _ => True) (releaseDue session) := by
  refine ⟨trivial, fun released _ => ?_⟩
  show Prog.Typed sighting _ _ (if List.isEmpty released then pure none else _)
  split
  · exact ⟨rfl, trivial⟩
  · exact ⟨trivial, fun _ _ => ⟨trivial, fun _ _ => ⟨rfl, trivial⟩⟩⟩

theorem parkedPoll_sights (ev : Event) (t : Int) (promptTokens : Option Nat)
    (cfg : Config) :
    Sights ev.sessionId (fun _ => True) (parkedPoll ev t promptTokens cfg) := by
  refine ⟨trivial, fun r hr => ?_⟩
  cases r with
  | none => exact ⟨rfl, trivial⟩
  | some session =>
      have ha : session.sessionId = ev.sessionId := hr session rfl
      refine (releaseDue_sights session).bind fun m payload hm => ?_
      rw [hm.1, ← ha]
      cases payload with
      | some payload => exact ⟨rfl, trivial⟩
      | none =>
          refine (tends_go rfl).sights.bind fun m entries hm => ?_
          rw [hm.1]
          exact awaitDue_sights rfl

/-- A poll opens its session before it writes under it. -/
theorem handleStopWait_sighting (ev : Event) :
    (handleStopWait ev).Typed sighting (fun _ _ => True) none := by
  -- opening the session is what the rest goes by
  refine ⟨trivial, fun _ _ => ⟨trivial, fun t _ => ⟨trivial, fun _ _ => ?_⟩⟩⟩
  refine (tends_ingestTranscript ev).sights.bind fun m promptTokens hm => ?_
  rw [hm.1]
  refine ⟨trivial, fun cfg _ => ⟨trivial, fun _ _ => ⟨trivial, fun _ _ => ?_⟩⟩⟩
  exact (parkedPoll_sights ..).bind fun _ _ _ => ⟨trivial, fun _ _ => trivial⟩

end poll

/-- A prompt looks its session up before it reads the transcript. -/
theorem ingestTranscript_sighting (ev : Event) :
    (ingestTranscript ev).Typed sighting (fun _ _ => True) none := by
  unfold ingestTranscript
  split
  · trivial
  · refine ⟨trivial, fun session _ => ?_⟩
    cases session with
    | none => trivial
    | some session =>
        refine ⟨trivial, fun delta _ => ?_⟩
        cases delta with
        | none => trivial
        | some delta => exact ⟨trivial, fun t _ => ⟨rfl, fun _ _ => trivial⟩⟩

/-- So does the handler of an event, or it has seen the row. -/
theorem handleEvent_sighting (ev : Event) :
    (handleEvent ev).Typed sighting (fun _ _ => True) none := by
  have hrecent : ∀ t m, Prog.Typed sighting (fun _ _ => True) m (do
      let recent ← (Op.recentlyWoke ev.sessionId t).go
      pure (!recent)) := fun t m => ⟨trivial, fun _ _ => trivial⟩
  have hclassify : ∀ t, (classifyPrompt ev t).Typed sighting
      (fun _ _ => True) none := by
    intro t
    unfold classifyPrompt
    -- by its ids, by the hook, or by the last wake
    split
    · refine (ingestTranscript_sighting ev).bind fun m _ _ => ?_
      refine ⟨trivial, fun matched _ => ?_⟩
      cases matched with
      | true => trivial
      | false => exact hrecent t _
    · split
      · trivial
      · exact hrecent t _
  refine ⟨trivial, fun _ _ => ⟨trivial, fun t _ => ?_⟩⟩
  split
  · exact ⟨trivial, fun _ _ => trivial⟩
  · exact (hclassify t).bind fun m waking _ =>
      ⟨trivial, fun _ _ => ⟨trivial, fun _ _ => trivial⟩⟩
  · exact ⟨trivial, fun _ _ => ⟨trivial, fun _ _ => trivial⟩⟩
  · trivial

/-- So every handler writes under sessions it has seen. -/
theorem handler_sighting (job : Job) :
    job.handler.Typed sighting (fun _ _ => True) none := by
  cases job with
  | request req =>
      cases req with
      | event ev => exact handleEvent_sighting ev
      | stopWait ev => exact handleStopWait_sighting ev
      | prune => exact shuts_handlePrune.sighting none
  | reap => exact shuts_sessionReaper.sighting none
  | grace a gen => exact (shuts_graceClose a gen).sighting none

-- ====================================================== among the others

namespace World

/-- Every task has seen the row of the session it knows of. -/
def Sighted (w : World) : Prop :=
  ∀ k task, w.tasks k = some task → ∃ m,
    (∀ a, m = some a → w.daemon.store.Knows a)
      ∧ task.prog.Typed sighting (fun _ _ => True) m

/-- A session that is known stays so. -/
theorem knows_step {w : World} (act : Act) {a : String}
    (h : w.daemon.store.Knows a) : (w.step act).daemon.store.Knows a :=
  w.store_invariant (C := fun _ _ => True) (Q := fun s _ => s.Knows a)
    (fun _ _ _ _ hs => hs) (fun _ _ _ _ _ _ hs => present_run hs) act trivial h

/-- No operation removes a row of a session. -/
theorem knows_exec {k : Nat} {op : Op} {tick : Tick} {d d' : Daemon}
    {r : op.Res} (hex : exec k op tick d = some (d', r)) {a : String}
    (h : d.store.Knows a) : d'.store.Knows a := by
  rcases exec_cases hex with ⟨x, -, rfl⟩ | ⟨-, hs, -⟩
  · exact present_run h
  · rw [hs]
    exact h

/-- What an operation returns, and what it lets its handler know. -/
private theorem exec_sighting {k : Nat} {op : Op} {tick : Tick}
    {d d' : Daemon} {r : op.Res} (hex : exec k op tick d = some (d', r))
    {m : Option String} (hm : ∀ a, m = some a → d.store.Knows a) :
    sighting.valid m op r
      ∧ ∀ a, sighting.next m op r = some a → d'.store.Knows a := by
  have hkept : ∀ a, m = some a → d'.store.Knows a :=
    fun a ha => knows_exec hex (hm a ha)
  cases op with
  | write x =>
      refine ⟨trivial, fun a ha => ?_⟩
      cases x with
      | start ev t =>
          obtain rfl := Option.some.inj ha
          cases hex
          exact knows_upsertSession ..
      | stop ev t =>
          obtain rfl := Option.some.inj ha
          cases hex
          exact knows_recordStop d.store ev t
      | prompt ev waking t =>
          obtain rfl := Option.some.inj ha
          cases hex
          exact knows_recordPrompt d.store ev waking t
      | _ => exact hkept a ha
  | snapshot b =>
      refine ⟨fun session hr => ?_, hkept⟩
      subst hr
      simp only [exec] at hex
      split at hex
      next session' hget =>
        cases hex
        exact Store.sessionId_of_getSession hget
      next => cases hex
  | roster b =>
      cases hex
      exact ⟨d.store.nodup_rosterOf b, hkept⟩
  | getSession b =>
      refine ⟨trivial, fun a ha => ?_⟩
      cases m with
      | some a' => exact hkept a ha
      | none =>
          cases hex
          obtain ⟨session, hget, rfl⟩ := Option.map_eq_some_iff.1 ha
          obtain ⟨row, hrow, -⟩ := Option.map_eq_some_iff.1 hget
          unfold Store.Knows
          rw [hrow]
          rfl
  | _ => exact ⟨trivial, hkept⟩

/-- What a handler has seen is there when it writes. -/
theorem sighted_step (w : World) (act : Act) (h : w.Sighted) :
    (w.step act).Sighted := by
  intro k task ht
  rcases step_tasks ht with hold | ⟨job, client, -, -, -, rfl⟩
    | ⟨old, op, f, tick, d, r, -, hold, hprog, hex, hd, rfl⟩
    | ⟨ev, started, op, f, -, -, -, rfl⟩
  · obtain ⟨m, hm, hp⟩ := h k task hold
    exact ⟨m, fun a ha => knows_step act (hm a ha), hp⟩
  · exact ⟨none, fun a ha => (by cases ha), handler_sighting job⟩
  · obtain ⟨m, hm, hp⟩ := h k old hold
    rw [hprog] at hp
    obtain ⟨hvalid, hnext⟩ := exec_sighting hex hm
    rw [hd]
    exact ⟨_, hnext, hp.2 r hvalid⟩
  · exact ⟨none, fun a ha => (by cases ha),
      (shuts_onPollLost ..).sighting none⟩

/-- What a handler knows when it comes to an operation. -/
theorem Sighted.ok {w : World} (h : w.Sighted) {k : Nat} {op : Op}
    (hab : w.about k = some op) : ∃ m, sighting.ok m op
      ∧ ∀ a, m = some a → w.daemon.store.Knows a := by
  obtain ⟨task, f, ht, hprog⟩ := about_eq_some hab
  obtain ⟨m, hm, hp⟩ := h k task ht
  rw [hprog] at hp
  exact ⟨m, hp.1, hm⟩

theorem sighted_init (disk : Disk) : (init disk).Sighted := by
  intro k task ht
  cases ht

end World

end Autofork
