/-
What the store keeps over the lives of the daemon.

A daemon may die between any two statements, and the next one reads what
it has left. Two things make that safe. The statements of an issuance
come in an order in which each rests on those before it: the run before
the latch, the latch before the held dependent. And a handler writes
under a session only once it has seen its row, which nothing removes.

So whatever the deaths, no latch is taken and no dependent is held
without the run that stands for the wake, and no row names a session
there is none of (`grounded_lives`). The schema asks the database for
none of this. What is known of a session only moves on
(`sessions_go_on`).
-/
import Autofork.Proofs.Sightings
import Autofork.Proofs.Statements

namespace Autofork

open Lib

-- =============================================================== the store

/-- A run of this fork in this session, issued then. -/
def RunRec.IsOf (x : RunRec) (a f : String) (t : Int) : Prop :=
  x.sessionId = a ∧ x.forkName = f ∧ x.startedAt = t

/-- What deaths do not take from the store. -/
structure Store.Grounded (s : Store) : Prop where
  numbered : ∀ i x, s.runs[i]? = some x → x.id = i + 1
  run : ∀ x ∈ s.runs, s.Knows x.sessionId
  roster : ∀ r ∈ s.roster.rows, s.Knows r.sessionId
  spawn : ∀ r ∈ s.spawns.rows, s.Knows r.sessionId
  /-- A latch is that of a wake. -/
  fire : ∀ r ∈ s.fires.rows, ∃ x ∈ s.runs,
    x.IsOf r.sessionId r.forkName r.firedAt
  /-- So is a held dependent, which has its latch. -/
  held : ∀ r ∈ s.pending.rows,
    (∃ x ∈ s.runs, x.IsOf r.sessionId r.forkName r.createdAt
      ∧ x.triggerLabel = r.triggerLabel)
      ∧ ∃ y ∈ s.fires.rows, y.sessionId = r.sessionId ∧ y.forkName = r.forkName

/-- What a statement needs to find, for the store to stay so. -/
def Statement.Fits (s : Store) : Statement → Prop
  | .queueFork a .. | .recordSpawn a .. | .recordIssuedRun a .. => s.Knows a
  | .tryLatchFire a f _ t => ∃ x ∈ s.runs, x.IsOf a f t
  | .insertPendingDep a f _ label _ _ t _ =>
      (∃ x ∈ s.runs, x.IsOf a f t ∧ x.triggerLabel = label)
        ∧ ∃ y ∈ s.fires.rows, y.sessionId = a ∧ y.forkName = f
  | _ => True

/-- Runs numbered without a gap: the last number is how many there
are. -/
private theorem lastRunId_of_numbered {runs : List RunRec}
    (h : ∀ i x, runs[i]? = some x → x.id = i + 1) :
    lastRunId runs = runs.length := by
  induction runs using List.reverseRecOn with
  | nil => rfl
  | append_singleton runs x ih =>
      have hinit : lastRunId runs = runs.length := ih fun i y hy => by
        have hlt := (List.getElem?_eq_some_iff.1 hy).1
        exact h i y (by rw [List.getElem?_append_left hlt, hy])
      have hx : x.id = runs.length + 1 := h _ x (List.getElem?_concat_length ..)
      rw [lastRunId_concat, hinit, hx, List.length_append, List.length_singleton]
      exact Nat.max_eq_right (Nat.le_succ _)

theorem Store.Grounded.apply {s : Store} {st : Statement}
    (hfits : st.Fits s) (h : s.Grounded) : (st.apply s).Grounded where
  numbered i x hx := by
    rcases runs_apply s st with he | ⟨a, f, label, tags, t, -, he⟩
    · exact h.numbered i x (he ▸ hx)
    · rw [he] at hx
      by_cases hi : i < s.runs.length
      · rw [List.getElem?_append_left hi] at hx
        exact h.numbered i x hx
      · rw [List.getElem?_append_right (by omega),
          List.getElem?_singleton] at hx
        split at hx
        next hlast =>
          obtain rfl := (Option.some.inj hx).symm
          show lastRunId s.runs + 1 = i + 1
          rw [lastRunId_of_numbered h.numbered]
          omega
        next => cases hx
  run x hx := by
    rcases runs_apply s st with he | ⟨a, f, label, tags, t, rfl, he⟩
    · exact known_apply (h.run x (he ▸ hx))
    · rw [he, List.mem_append, List.mem_singleton] at hx
      rcases hx with hold | rfl
      · exact known_apply (h.run x hold)
      · exact hfits
  roster r hr := by
    rcases mem_roster_apply hr with ⟨r₀, hold, hkey⟩ | ⟨path, t, rfl⟩
    · have ha : r₀.sessionId = r.sessionId := congrArg Prod.fst hkey
      exact ha ▸ known_apply (h.roster r₀ hold)
    · exact hfits
  spawn r hr := by
    rcases mem_spawns_apply hr with ⟨r₀, hold, hkey⟩ | ⟨f, t, rfl⟩
    · have ha : r₀.sessionId = r.sessionId := congrArg Prod.fst hkey
      exact ha ▸ known_apply (h.spawn r₀ hold)
    · exact hfits
  fire r hr := by
    have hrun : ∃ x ∈ s.runs, x.IsOf r.sessionId r.forkName r.firedAt := by
      rcases mem_fires_apply hr with hold | rfl
      · exact h.fire r hold
      · exact hfits
    obtain ⟨x, hx, hof⟩ := hrun
    exact ⟨x, mem_runs_apply hx, hof⟩
  held r hr := by
    rcases mem_pending_apply hr with ⟨hold, hopen⟩ | ⟨preds, rfl⟩
    · obtain ⟨⟨x, hx, hof⟩, y, hy, ha, hf⟩ := h.held r hold
      refine ⟨⟨x, mem_runs_apply hx, hof⟩, y, fires_apply hy ?_, ha, hf⟩
      rwa [ha]
    · obtain ⟨⟨x, hx, hof⟩, y, hy, hnamed⟩ := hfits
      exact ⟨⟨x, hx, hof⟩, y, hy, hnamed⟩

-- ============================================================== sections

/-- Whatever the statements keep lets each of them fit. -/
private theorem along_fits {P : Store → Prop}
    (hkeep : ∀ s st, P s → P (Statement.apply s st)) {l : List Statement}
    (hfits : ∀ st ∈ l, ∀ s, P s → st.Fits s) {s : Store} (h : P s) :
    Along Statement.apply (fun s st => st.Fits s) s l := by
  induction l generalizing s with
  | nil => trivial
  | cons st l ih =>
      rw [List.forall_mem_cons] at hfits
      exact ⟨hfits.1 s h, ih hfits.2 (hkeep s st h)⟩

private theorem knows_keep {a : String} (s : Store) (st : Statement)
    (h : s.Knows a) : (st.apply s).Knows a := known_apply h

/-- The statements of one fork's issuance rest on one another: the run
first, then the latch, then the dependent. -/
private theorem stampStatements_fit {session : SessionRow} {t : Int}
    {issue : Nat} {sp : SelectedFork × List String}
    (hlatch : sp.1.latchKey.isSome = true) {s : Store}
    (hknown : s.Knows session.sessionId) :
    Along Statement.apply (fun s st => st.Fits s) s
      (stampStatements session t issue sp) := by
  obtain ⟨key, hkey⟩ := Option.isSome_iff_exists.1 hlatch
  let tags := if sp.1.tags.isEmpty then none else some (join "," sp.1.tags)
  let s₁ := s.touchForkRan session.sessionId sp.1.name t
  let s₂ := s₁.recordIssuedRun session.sessionId sp.1.name sp.1.trigger tags t
  let s₃ := (s₂.tryLatchFire session.sessionId sp.1.name key t).1
  let x : RunRec := ⟨lastRunId s₁.runs + 1, session.sessionId, sp.1.name,
    sp.1.trigger, t, tags⟩
  have hx : x ∈ s₂.runs := List.mem_append_right _ List.mem_cons_self
  have hof : x.IsOf session.sessionId sp.1.name t := ⟨rfl, rfl, rfl⟩
  have hlatched : s₃.isLatched session.sessionId sp.1.name key = true :=
    isLatched_tryLatchFire.2 (.inr ⟨rfl, rfl, rfl⟩)
  obtain ⟨y, hy, hykey⟩ := isLatched_iff.1 hlatched
  simp only [FireRec.key, Prod.mk.injEq] at hykey
  simp only [stampStatements, hkey, Option.map_some, Option.toList_some]
  refine ⟨trivial, knows_keep s (.touchForkRan ..) hknown, ⟨x, hx, hof⟩, ?_⟩
  cases sp.2.isEmpty with
  | true => trivial
  | false => exact ⟨⟨⟨x, hx, hof, rfl⟩, y, hy, hykey.1, hykey.2.1⟩, trivial⟩

private theorem stamp_fits {session : SessionRow} {t : Int} {issue : Nat}
    {l : List (SelectedFork × List String)}
    (hlatch : ∀ sp ∈ l, sp.1.latchKey.isSome = true) {s : Store}
    (hknown : s.Knows session.sessionId) :
    Along Statement.apply (fun s st => st.Fits s) s
      (l.flatMap (stampStatements session t issue)) := by
  induction l generalizing s with
  | nil => trivial
  | cons sp l ih =>
      rw [List.forall_mem_cons] at hlatch
      rw [List.flatMap_cons, along_append]
      refine ⟨stampStatements_fit hlatch.1 hknown, ih hlatch.2 ?_⟩
      exact run_invariant (P := fun s : Store => s.Knows session.sessionId)
        knows_keep hknown _

/-- What a section rests on. -/
def Section.Rests (s : Store) : Section → Prop
  | .ingest a .. | .queue a _ => s.Knows a
  | .stamp session selected _ => s.Knows session.sessionId
      ∧ ∀ x ∈ selected, x.latchKey.isSome = true
  | _ => True

theorem Section.fits {now : Int} {d : Daemon} {x : Section}
    (h : x.Rests d.store) :
    Along Statement.apply (fun s st => st.Fits s) d.store
      (x.statements now d) := by
  have hfree : (∀ st ∈ x.statements now d, ∀ s : Store, True → st.Fits s) →
      Along Statement.apply (fun s st => st.Fits s) d.store
        (x.statements now d) :=
    fun hfits => along_fits (fun _ _ _ => trivial) hfits trivial
  cases x with
  | ingest a delta t =>
      refine along_fits knows_keep (fun st hst s hs => ?_) h
      simp only [Section.statements, List.mem_append, List.mem_map,
        List.mem_filterMap, List.mem_singleton] at hst
      rcases hst with ((⟨p, -, rfl⟩ | ⟨p, -, rfl⟩) | ⟨n, -, hn⟩) | rfl
      · exact hs
      · trivial
      · obtain ⟨status, -, rfl⟩ := Option.map_eq_some_iff.1 hn
        trivial
      · trivial
  | queue a entries =>
      refine along_fits knows_keep (fun st hst s hs => ?_) h
      obtain ⟨e, -, rfl⟩ := List.mem_map.1 hst
      exact hs
  | stamp session selected t =>
      refine stamp_fits (fun sp hsp => h.2 sp.1 ?_) h.1
      rw [← withPreds_map_fst selected]
      exact List.mem_map_of_mem hsp
  | start ev t => exact ⟨trivial, trivial⟩
  | stop ev t => exact ⟨trivial, trivial, trivial, trivial⟩
  | prompt ev waking t =>
      cases waking with
      | true => exact ⟨trivial, trivial, trivial, trivial, trivial⟩
      | false => exact ⟨trivial, trivial, trivial⟩
  | classify ev t =>
      refine hfree fun st hst s _ => ?_
      simp only [Section.statements] at hst
      split at hst
      · rw [List.mem_singleton.1 hst]
        trivial
      · cases hst
  | release session released =>
      refine hfree fun st hst s _ => ?_
      obtain ⟨dep, -, rfl⟩ := List.mem_map.1 hst
      trivial
  | close a => exact ⟨trivial, trivial⟩
  | closeIfOpen a =>
      refine hfree fun st hst s _ => ?_
      simp only [Section.statements] at hst
      split at hst
      · split at hst
        · rw [List.mem_singleton.1 hst]
          trivial
        · cases hst
      · cases hst
  | prune t =>
      refine hfree fun st hst s _ => ?_
      obtain ⟨row, -, rfl⟩ := List.mem_map.1 hst
      trivial

-- =================================================================== lives

namespace World

theorem sighted_fate (w : World) (f : Fate) (h : w.Sighted) :
    (w.fate f).Sighted := by
  cases f with
  | act a => exact sighted_step w a h
  | die k n now =>
      -- nobody has seen anything
      intro j task ht
      cases ht

theorem Sighted.rests {w : World} (h : w.Sighted) {k : Nat} {x : Section}
    (hab : w.about k = some (.write x)) : x.Rests w.daemon.store := by
  obtain ⟨m, hok, hm⟩ := h.ok hab
  cases x with
  | ingest a delta t => exact hm a hok
  | queue a entries => exact hm a hok
  | stamp session selected t => exact ⟨hm _ hok.1, hok.2.2⟩
  | _ => trivial

end World

/-- Over any number of lives, whatever the interleaving within each and
wherever deaths have cut them: every latch that is taken, and every
dependent that is held, is that of a recorded run; a held dependent has
a latch; runs are numbered from one on without a gap; and no row names a
session that has none. -/
theorem grounded_lives (disk : Disk) (fs : List Fate) :
    (World.lived disk fs).daemon.store.Grounded := by
  refine World.lives_invariant (K := World.Sighted)
    (G := fun s st => st.Fits s) (fun s st hfits h => h.apply hfits)
    (fun w k now x hw _ hab => x.fits (hw.rests hab)) World.sighted_fate
    (World.sighted_init disk) ?_ fs
  exact {
    numbered := fun i x hx => by cases hx
    run := fun x hx => by cases hx
    roster := fun r hr => by cases hr
    spawn := fun r hr => by cases hr
    fire := fun r hr => by cases hr
    held := fun r hr => by cases hr }

-- ============================================================== from life to life

/-- What later lives know of a session, having known `r`. -/
structure SessionRec.Resumes (r r' : SessionRec) : Prop where
  named : r'.sessionId = r.sessionId
  cwd : r'.cwd = r.cwd
  created : r'.createdAt = r.createdAt
  epoch : r.pauseEpoch ≤ r'.pauseEpoch
  /-- A pause keeps its baseline. -/
  baseline : r'.pauseEpoch = r.pauseEpoch → ∀ t, r.pauseStartedAt = some t →
    r'.pauseStartedAt = some t
  transcript : r.transcriptPath.isSome = true → r'.transcriptPath.isSome = true
  model : r.model.isSome = true → r'.model.isSome = true
  gauge : r.promptTokens.isSome = true → r'.promptTokens.isSome = true

theorem SessionRec.Resumes.refl (r : SessionRec) : r.Resumes r :=
  ⟨rfl, rfl, rfl, le_refl _, fun _ _ => id, id, id, id⟩

theorem SessionRec.Resumes.trans {r r' r'' : SessionRec} (h : r.Resumes r')
    (h' : r'.Resumes r'') : r.Resumes r'' where
  named := h'.named.trans h.named
  cwd := h'.cwd.trans h.cwd
  created := h'.created.trans h.created
  epoch := h.epoch.trans h'.epoch
  baseline he t ht := by
    -- an epoch that is the same at both ends was the same in between
    have hfst := h.epoch
    have hsnd := h'.epoch
    apply h'.baseline (by omega) t
    exact h.baseline (by omega) t ht
  transcript hr := h'.transcript (h.transcript hr)
  model hr := h'.model (h.model hr)
  gauge hr := h'.gauge (h.gauge hr)

private theorem isSome_orElse {α : Type} {o o' : Option α}
    (h : o.isSome = true) : (o' <|> o).isSome = true := by
  cases o' with
  | none => exact h
  | some x => rfl

/-- An update that moves on moves on. -/
private theorem resumes_updateSession {s : Store} {a b : String}
    {r : SessionRec} (f : SessionRec → SessionRec)
    (hf : ∀ x, (f x).sessionId = x.sessionId) (hr : r.Resumes (f r))
    (h : s.sessions.find? a = some r) :
    ∃ r', (s.updateSession b f hf).sessions.find? a = some r'
      ∧ r.Resumes r' := by
  unfold Store.updateSession
  rw [Table.find?_updateWhere, h]
  refine ⟨_, rfl, ?_⟩
  show r.Resumes (if r.sessionId == b then f r else r)
  split
  · exact hr
  · exact .refl r

/-- No statement takes back what is known of a session. -/
theorem sessions_apply {s : Store} (st : Statement) {a : String}
    {r : SessionRec} (h : s.sessions.find? a = some r) :
    ∃ r', (st.apply s).sessions.find? a = some r' ∧ r.Resumes r' := by
  have hkeep := SessionRec.Resumes.refl r
  cases st with
  | upsertSession ev t =>
      simp only [Statement.apply, Store.upsertSession,
        Table.find?_insertOrUpdate]
      split
      · rw [h]
        refine ⟨_, rfl, { hkeep with
          transcript := isSome_orElse
          model := isSome_orElse }⟩
      · exact ⟨r, h, hkeep⟩
  | setLastActivity b t =>
      exact resumes_updateSession _ _ { hkeep with } h
  | bumpPauseEpoch b =>
      refine resumes_updateSession _ _ { hkeep with
        epoch := by
          show r.pauseEpoch ≤ r.pauseEpoch + 1
          omega
        baseline := fun he => ?_ } h
      -- that pause is over
      change r.pauseEpoch + 1 = r.pauseEpoch at he
      omega
  | setPauseStartedAtIfUnset b t =>
      refine resumes_updateSession _ _ { hkeep with
        baseline := fun _ t' ht => ?_ } h
      show (r.pauseStartedAt <|> some t) = some t'
      rw [ht]
      rfl
  | setTranscriptGauge b offset promptTokens =>
      exact resumes_updateSession _ _ { hkeep with gauge := isSome_orElse } h
  | closeSession b =>
      exact resumes_updateSession (fun x => { x with status := .closed })
        (fun _ => rfl) { hkeep with } h
  | markSpawnTerminal b toolUseId taskId status t =>
      obtain ⟨spawns, he⟩ := markSpawnTerminal_only s b toolUseId taskId status t
      show ∃ r', (s.markSpawnTerminal b toolUseId taskId status t).1.sessions.find?
        a = some r' ∧ r.Resumes r'
      rw [he]
      exact ⟨r, h, hkeep⟩
  | _ => exact ⟨r, h, hkeep⟩

/-- What `s` has on its books goes on in `s'`. -/
structure Store.GoesOnIn (s s' : Store) : Prop where
  runs : s.runs <+: s'.runs
  sessions : ∀ a r, s.sessions.find? a = some r →
    ∃ r', s'.sessions.find? a = some r' ∧ r.Resumes r'

theorem Store.GoesOnIn.apply {s s' : Store} (st : Statement) (h : s.GoesOnIn s') :
    s.GoesOnIn (st.apply s') where
  runs := by
    rcases runs_apply s' st with he | ⟨_, _, _, _, _, -, he⟩
    · rw [he]
      exact h.runs
    · rw [he]
      exact h.runs.trans (List.prefix_append ..)
  sessions a r hr := by
    obtain ⟨r', hr', hmid⟩ := h.sessions a r hr
    obtain ⟨r'', hr'', hlast⟩ := sessions_apply st hr'
    exact ⟨r'', hr'', hmid.trans hlast⟩

/-- From any point of any life to any later one, of the same life or of
a later: the runs recorded stay the first ones, in their order; a session
known stays known, with its directory and time of creation; its epoch
does not go back, and within an epoch the baseline once set is not moved;
and a transcript, a model or a gauge once known is not forgotten. -/
theorem sessions_go_on (disk : Disk) (fs gs : List Fate) :
    (World.lived disk fs).daemon.store.GoesOnIn
      (World.lived disk (fs ++ gs)).daemon.store := by
  rw [World.lived, World.lived, run_append]
  apply World.lives_keep fun s st h => h.apply st
  exact ⟨List.prefix_refl _, fun a r hr => ⟨r, hr, .refl r⟩⟩

end Autofork
