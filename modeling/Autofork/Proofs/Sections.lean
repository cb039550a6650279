/-
What the store's sections write, table by table.

For each composite write there is an `_only` lemma, which names the
tables it can touch and so frames all the others at once, and one
membership lemma for each table it does touch. Nothing outside this
module unfolds a section.
-/
import Autofork.System

namespace Autofork

open Lib

-- ============================================================== frames

theorem recordPrompt_only (s : Store) (ev : Event) (waking : Bool)
    (t : Int) : ∃ sessions pending,
      recordPrompt s ev waking t = { s with sessions, pending } := by
  unfold recordPrompt
  split
  · exact ⟨_, _, rfl⟩
  · exact ⟨_, _, rfl⟩

theorem markSpawnTerminal_only (s : Store) (sessionId : String)
    (toolUseId taskId : Option String) (status : String) (t : Int) :
    ∃ spawns, (s.markSpawnTerminal sessionId toolUseId taskId status t).1
      = { s with spawns } := by
  unfold Store.markSpawnTerminal
  split
  · exact ⟨_, rfl⟩
  · exact ⟨_, rfl⟩

theorem classifyNotification_only (s : Store) (ev : Event) (t : Int) :
    ∃ spawns, (classifyNotification s ev t).1 = { s with spawns } := by
  simp only [classifyNotification]
  split
  · exact markSpawnTerminal_only ..
  · exact ⟨_, rfl⟩

/-- A fold of writes to one table writes that table. -/
private theorem foldl_only {α β : Type} {g : Store → β → Store}
    (hput : ∀ s b b', g (g s b) b' = g s b')
    (hget : ∀ s, ∃ b, s = g s b) {f : Store → α → Store}
    (hf : ∀ s a, ∃ b, f s a = g s b) (l : List α) (s : Store) :
    ∃ b, l.foldl f s = g s b := by
  induction l generalizing s with
  | nil => exact hget s
  | cons a l ih =>
      obtain ⟨b, hb⟩ := hf s a
      obtain ⟨b', hb'⟩ := ih (f s a)
      exact ⟨b', by rw [List.foldl_cons, hb', hb, hput]⟩

theorem ingestNotification_only (sessionId : String) (t : Int) (s : Store)
    (n : TaskNotification) :
    ∃ spawns, ingestNotification sessionId t s n = { s with spawns } := by
  unfold ingestNotification
  split
  · exact ⟨_, rfl⟩
  · exact markSpawnTerminal_only ..

/-- Of the sessions, a delta writes the gauge. -/
theorem applyDelta_gauge (s : Store) (sessionId : String) (delta : Delta)
    (t : Int) : ∃ spawns, applyDelta s sessionId delta t
      = Store.setTranscriptGauge { s with spawns } sessionId delta.newOffset
        delta.promptTokens := by
  have fold : ∀ {α : Type} {f : Store → α → Store},
      (∀ s a, ∃ spawns, f s a = { s with spawns }) →
      ∀ (l : List α) (s : Store), ∃ spawns,
        l.foldl f s = { s with spawns } := fun hf l s =>
    foldl_only (g := fun s spawns => { s with spawns })
      (fun _ _ _ => rfl) (fun s => ⟨s.spawns, rfl⟩) hf l s
  unfold applyDelta
  obtain ⟨a, ha⟩ := fold (f := fun s p => s.recordSpawn sessionId p.1 p.2 t)
    (fun _ _ => ⟨_, rfl⟩) delta.spawns s
  obtain ⟨b, hb⟩ := fold (f := fun s p => s.setSpawnTaskId sessionId p.1 p.2)
    (fun _ _ => ⟨_, rfl⟩) delta.taskIds { s with spawns := a }
  obtain ⟨c, hc⟩ := fold (ingestNotification_only sessionId t)
    delta.notifications { s with spawns := b }
  exact ⟨c, by simp only [ha, hb, hc]⟩

theorem applyDelta_only (s : Store) (sessionId : String) (delta : Delta)
    (t : Int) : ∃ sessions spawns,
      applyDelta s sessionId delta t = { s with sessions, spawns } := by
  obtain ⟨spawns, hs⟩ := applyDelta_gauge s sessionId delta t
  exact ⟨_, spawns, hs⟩

theorem queueForks_only (s : Store) (sessionId : String)
    (entries : List ForkEntry) (t : Int) :
    ∃ roster, s.queueForks sessionId entries t = { s with roster } :=
  foldl_only (g := fun s roster => { s with roster }) (fun _ _ _ => rfl)
    (fun s => ⟨s.roster, rfl⟩) (fun _ _ => ⟨_, rfl⟩) entries s

/-- Queueing keeps the rows there are, and adds only rows that have not
run. -/
theorem queueForks_rows (s : Store) (sessionId : String)
    (entries : List ForkEntry) (t : Int) :
    (∀ r ∈ s.roster.rows, r ∈ (s.queueForks sessionId entries t).roster.rows)
      ∧ ∀ r ∈ (s.queueForks sessionId entries t).roster.rows,
        r ∈ s.roster.rows ∨ r.ranAt = none := by
  induction entries generalizing s with
  | nil => exact ⟨fun _ => id, fun _ => .inl⟩
  | cons e l ih =>
      obtain ⟨hkept, hunrun⟩ := ih (s.queueFork sessionId e.name e.path t)
      have hone : ∀ r, r ∈ (s.queueFork sessionId e.name e.path t).roster.rows
          ↔ r ∈ s.roster.rows ∨ (r = { sessionId, forkName := e.name
                                       forkPath := e.path, queuedAt := t
                                       ranAt := none }
            ∧ ∀ y ∈ s.roster.rows, y.key ≠ (sessionId, e.name)) :=
        fun r => Table.mem_insertOrIgnore _
      refine ⟨fun r hr => hkept r ((hone r).2 (.inl hr)), fun r hr => ?_⟩
      rcases hunrun r hr with hr | hr
      · rcases (hone r).1 hr with hr | ⟨rfl, -⟩
        · exact .inl hr
        · exact .inr rfl
      · exact .inr hr

theorem deleteReleased_only (s : Store) (sessionId : String)
    (released : List PendingDep) :
    ∃ pending, s.deleteReleased sessionId released = { s with pending } :=
  foldl_only (g := fun s pending => { s with pending }) (fun _ _ _ => rfl)
    (fun s => ⟨s.pending, rfl⟩) (fun _ _ => ⟨_, rfl⟩) released s

theorem stampFork_only (session : SessionRow) (t : Int) (issue : Nat)
    (s : Store) (sp : SelectedFork × List String) :
    ∃ roster fires runs pending, s.stampFork session t issue sp
      = { s with roster, fires, runs, pending } := by
  simp only [Store.stampFork]
  cases sp.1.latchKey <;> cases sp.2.isEmpty <;> exact ⟨_, _, _, _, rfl⟩

theorem stampWake_only (s : Store) (session : SessionRow)
    (selected : List SelectedFork) (t : Int) (issue : Nat) :
    ∃ roster fires runs pending, s.stampWake session selected t issue
      = { s with roster, fires, runs, pending } := by
  obtain ⟨⟨a, b, c, d⟩, h⟩ := foldl_only
    (g := fun s (x : _ × _ × _ × _) =>
      { s with roster := x.1, fires := x.2.1, runs := x.2.2.1
               pending := x.2.2.2 })
    (fun _ _ _ => rfl) (fun s => ⟨(s.roster, s.fires, s.runs, s.pending), rfl⟩)
    (f := Store.stampFork session t issue)
    (fun s sp => by
      obtain ⟨a, b, c, d, h⟩ := stampFork_only session t issue s sp
      exact ⟨(a, b, c, d), h⟩)
    (withPreds selected) s
  exact ⟨a, b, c, d, h⟩

/-- Marks are marks. -/
theorem mem_marks {before after : Store} {t : Int} {o : Obs}
    (h : o ∈ marks before after t) :
    ∃ s f, o = .marked s f t := by
  obtain ⟨r, -, rfl⟩ := List.mem_map.1 h
  exact ⟨_, _, rfl⟩

-- ============================================================= closing

/-- The sections that close sessions. -/
def Section.closes : Section → Bool
  | .close _ | .closeIfOpen _ | .prune _ => true
  | _ => false

/-- A section that closes sessions closes some list of them, one after
the other, and logs just that. -/
theorem closes_run (k : Nat) (now : Int) (d : Daemon) {x : Section}
    (h : x.closes = true) : ∃ ids : List String,
      (x.run k now d).1 = ids.foldl Store.closeSession d.store
        ∧ (x.run k now d).2.2 = (ids.map Obs.closed).reverse := by
  cases x with
  | close sessionId => exact ⟨[sessionId], rfl, rfl⟩
  | closeIfOpen sessionId =>
      simp only [Section.run]
      split
      · split
        · exact ⟨[sessionId], rfl, rfl⟩
        · exact ⟨[], rfl, rfl⟩
      · exact ⟨[], rfl, rfl⟩
  | prune t =>
      refine ⟨(d.store.listOpenSessions.filter (isStale d · t)).map
        SessionRow.sessionId, ?_, ?_⟩
      · simp only [Section.run, List.foldl_map]
      · simp only [Section.run, List.map_map]
        rfl
  | _ => cases h

theorem mem_roster_closeSessions {ids : List String} {s : Store}
    {r : RosterEntry} :
    r ∈ (ids.foldl Store.closeSession s).roster.rows
      ↔ r ∈ s.roster.rows ∧ r.sessionId ∉ ids := by
  induction ids generalizing s with
  | nil => simp
  | cons id ids ih =>
      rw [List.foldl_cons, ih, Store.closeSession, Table.mem_deleteWhere,
        beq_eq_false_iff_ne, List.mem_cons, not_or, and_assoc]

/-- Only stampings, the roster refresh and closes touch the roster. -/
theorem roster_same {k : Nat} {now : Int} {d : Daemon} {x : Section}
    (hstamp : ∀ session selected t, x ≠ .stamp session selected t)
    (hqueue : ∀ sessionId entries, x ≠ .queue sessionId entries)
    (hcloses : x.closes = false) :
    (x.run k now d).1.roster = d.store.roster := by
  cases x with
  | stamp session selected t => exact absurd rfl (hstamp session selected t)
  | queue sessionId entries => exact absurd rfl (hqueue sessionId entries)
  | start ev t => rfl
  | stop ev t => rfl
  | classify ev t =>
      obtain ⟨spawns, hs⟩ := classifyNotification_only d.store ev t
      simp only [Section.run, hs]
  | prompt ev waking t =>
      obtain ⟨sessions, pending, hs⟩ := recordPrompt_only d.store ev waking t
      simp only [Section.run, hs]
  | ingest sessionId delta t =>
      obtain ⟨sessions, spawns, hs⟩ := applyDelta_only d.store sessionId delta t
      simp only [Section.run, hs]
  | release session released =>
      obtain ⟨pending, hs⟩ :=
        deleteReleased_only d.store session.sessionId released
      simp only [Section.run, hs]
  | _ => cases hcloses

/-- A section other than stamping keeps the rows of every session it
does not close. -/
theorem roster_run {k : Nat} {now : Int} {d : Daemon} {x : Section}
    (hx : ∀ session selected t, x ≠ .stamp session selected t) :
    ∀ r ∈ d.store.roster.rows, Obs.closed r.sessionId ∉ (x.run k now d).2.2 →
      r ∈ (x.run k now d).1.roster.rows := by
  intro r hr hopen
  cases hcloses : x.closes with
  | true =>
      obtain ⟨ids, hs, hobs⟩ := closes_run k now d hcloses
      rw [hs, mem_roster_closeSessions]
      rw [hobs] at hopen
      exact ⟨hr, by simpa using hopen⟩
  | false =>
      by_cases hqueue : ∃ sessionId entries, x = .queue sessionId entries
      · obtain ⟨sessionId, entries, rfl⟩ := hqueue
        exact (queueForks_rows d.store sessionId entries now).1 r hr
      · push Not at hqueue
        rw [roster_same hx hqueue hcloses]
        exact hr

/-- What it adds has not run. -/
theorem roster_unrun {k : Nat} {now : Int} {d : Daemon} {x : Section}
    (hx : ∀ session selected t, x ≠ .stamp session selected t) :
    ∀ r ∈ (x.run k now d).1.roster.rows,
      r ∈ d.store.roster.rows ∨ r.ranAt = none := by
  intro r hr
  cases hcloses : x.closes with
  | true =>
      obtain ⟨ids, hs, -⟩ := closes_run k now d hcloses
      rw [hs, mem_roster_closeSessions] at hr
      exact .inl hr.1
  | false =>
      by_cases hqueue : ∃ sessionId entries, x = .queue sessionId entries
      · obtain ⟨sessionId, entries, rfl⟩ := hqueue
        exact (queueForks_rows d.store sessionId entries now).2 r hr
      · push Not at hqueue
        rw [roster_same hx hqueue hcloses] at hr
        exact .inl hr

-- ============================================================= latches

theorem isLatched_iff {s : Store} {a f key : String} :
    s.isLatched a f key = true ↔ ∃ r ∈ s.fires.rows, r.key = (a, f, key) := by
  rw [Store.isLatched, Option.isSome_iff_exists]
  simp only [s.fires.find?_eq_some_iff]

theorem isLatched_tryLatchFire {s : Store} {a f key a' f' key' : String}
    {t : Int} :
    (s.tryLatchFire a' f' key' t).1.isLatched a f key = true
      ↔ s.isLatched a f key = true ∨ (a' = a ∧ f' = f ∧ key' = key) := by
  simp only [isLatched_iff, Store.tryLatchFire, Table.mem_insertOrIgnore]
  constructor
  · rintro ⟨r, hr | ⟨rfl, -⟩, hk⟩
    · exact .inl ⟨r, hr, hk⟩
    · exact .inr (by simpa [FireRec.key] using hk)
  · rintro (⟨r, hr, hk⟩ | ⟨rfl, rfl, rfl⟩)
    · exact ⟨r, .inl hr, hk⟩
    · by_cases h : ∀ y ∈ s.fires.rows, y.key ≠ (a', f', key')
      · exact ⟨_, .inr ⟨rfl, h⟩, rfl⟩
      · push Not at h
        obtain ⟨y, hy, hk⟩ := h
        exact ⟨y, .inl hy, hk⟩

theorem isLatched_closeSession {s : Store} {a a' f key : String} :
    (s.closeSession a').isLatched a f key = true
      ↔ s.isLatched a f key = true ∧ a ≠ a' := by
  simp only [isLatched_iff, Store.closeSession, Table.mem_deleteWhere]
  constructor
  · rintro ⟨r, ⟨hr, hne⟩, hk⟩
    refine ⟨⟨r, hr, hk⟩, ?_⟩
    rintro rfl
    rw [FireRec.key, Prod.mk.injEq] at hk
    simp [hk.1] at hne
  · rintro ⟨⟨r, hr, hk⟩, hne⟩
    refine ⟨r, ⟨hr, ?_⟩, hk⟩
    rw [FireRec.key, Prod.mk.injEq] at hk
    simpa [hk.1] using hne

/-- A selection, in order, is what its pairs carry. -/
@[simp] theorem withPreds_map_fst (selected : List SelectedFork) :
    (withPreds selected).map Prod.fst = selected := by
  rw [withPreds, List.map_map]
  exact List.map_get_finRange selected

/-- A log entry that issues `f` of session `a` under `key`. -/
def Stamps (a f key : String) : Obs → Prop
  | .issued _ session selected _ => session.sessionId = a
      ∧ ∃ x ∈ selected, x.name = f ∧ x.latchKey = some key
  | _ => False

/-- A log entry that issues fork `f` of session `a`. -/
def Issues (a f : String) : Obs → Prop
  | .issued _ session selected _ =>
      session.sessionId = a ∧ ∃ x ∈ selected, x.name = f
  | _ => False

instance (a f : String) : DecidablePred (Issues a f)
  | .issued _ session selected _ => inferInstanceAs (Decidable
      (session.sessionId = a ∧ ∃ x ∈ selected, x.name = f))
  | .stopped .. | .prompted .. | .closed .. | .clock .. | .marked .. | .configured ..
  | .registered .. | .snapshot .. | .cancelled .. | .released ..
  | .answered .. => isFalse id

theorem isLatched_stampWake {s : Store} {session : SessionRow}
    {selected : List SelectedFork} {t : Int} {issue k : Nat}
    {a f key : String} :
    (s.stampWake session selected t issue).isLatched a f key = true
      ↔ s.isLatched a f key = true
        ∨ Stamps a f key (.issued k session selected t) := by
  have hone : ∀ (s : Store) (sp : SelectedFork × List String),
      (s.stampFork session t issue sp).isLatched a f key = true
        ↔ s.isLatched a f key = true ∨ (session.sessionId = a
          ∧ sp.1.name = f ∧ sp.1.latchKey = some key) := by
    intro s sp
    cases hkey : sp.1.latchKey with
    | none =>
        have hsame : (s.stampFork session t issue sp).fires = s.fires := by
          simp only [Store.stampFork, hkey]
          split <;> rfl
        simp [isLatched_iff, hsame]
    | some key' =>
        have hsame : (s.stampFork session t issue sp).fires
            = (s.tryLatchFire session.sessionId sp.1.name key' t).1.fires := by
          simp only [Store.stampFork, hkey]
          split <;> rfl
        rw [isLatched_iff, hsame, ← isLatched_iff, isLatched_tryLatchFire]
        simp
  have hfold : ∀ (l : List (SelectedFork × List String)) (s : Store),
      (l.foldl (Store.stampFork session t issue) s).isLatched a f key = true
        ↔ s.isLatched a f key = true ∨ (session.sessionId = a
          ∧ ∃ x ∈ l.map Prod.fst, x.name = f ∧ x.latchKey = some key) := by
    intro l
    induction l with
    | nil => simp
    | cons sp l ih =>
        intro s
        rw [List.foldl_cons, ih, hone, or_assoc, ← and_or_left]
        simp
  rw [Store.stampWake, hfold, withPreds_map_fst]
  rfl

-- ============================================================== roster

/-- What a stamping makes of a roster row. -/
def stampedRow (session : SessionRow) (names : List String) (t : Int)
    (r : RosterEntry) : RosterEntry :=
  if r.sessionId = session.sessionId ∧ r.forkName ∈ names then
    { r with ranAt := some t }
  else r

private theorem stampedRow_stampedRow (session : SessionRow) (f : String)
    (names : List String) (t : Int) (r : RosterEntry) :
    stampedRow session names t (stampedRow session [f] t r)
      = stampedRow session (f :: names) t r := by
  by_cases h : r.sessionId = session.sessionId ∧ r.forkName = f
  · have hone : stampedRow session [f] t r = { r with ranAt := some t } := by
      rw [stampedRow, if_pos ⟨h.1, List.mem_singleton.2 h.2⟩]
    rw [hone]
    simp [stampedRow, h.1, h.2]
  · have hone : stampedRow session [f] t r = r := by
      rw [stampedRow, if_neg (by simpa using h)]
    rw [hone]
    unfold stampedRow
    refine if_congr ?_ rfl rfl
    rw [List.mem_cons]
    exact and_congr_right fun hs => (or_iff_right fun hf => h ⟨hs, hf⟩).symm

theorem roster_stampWake (s : Store) (session : SessionRow)
    (selected : List SelectedFork) (t : Int) (issue : Nat) :
    (s.stampWake session selected t issue).roster.rows
      = s.roster.rows.map
        (stampedRow session (selected.map SelectedFork.name) t) := by
  have hone : ∀ (s : Store) (sp : SelectedFork × List String),
      (s.stampFork session t issue sp).roster.rows
        = s.roster.rows.map (stampedRow session [sp.1.name] t) := by
    intro s sp
    have htouch : (s.touchForkRan session.sessionId sp.1.name t).roster.rows
        = s.roster.rows.map (stampedRow session [sp.1.name] t) := by
      simp only [Store.touchForkRan, Table.updateWhere]
      refine List.map_congr_left fun r _ => ?_
      simp only [stampedRow, List.mem_singleton, Bool.and_eq_true, beq_iff_eq]
    rw [← htouch]
    simp only [Store.stampFork]
    cases sp.1.latchKey <;> cases sp.2.isEmpty <;> rfl
  have hfold : ∀ (l : List (SelectedFork × List String)) (s : Store),
      (l.foldl (Store.stampFork session t issue) s).roster.rows
        = s.roster.rows.map
          (stampedRow session (l.map fun sp => sp.1.name) t) := by
    intro l
    induction l with
    | nil =>
        intro s
        have hid : stampedRow session [] t = id := by
          funext r
          simp [stampedRow]
        simp [hid]
    | cons sp l ih =>
        intro s
        rw [List.foldl_cons, ih, hone, List.map_map]
        refine List.map_congr_left fun r _ => ?_
        exact stampedRow_stampedRow session sp.1.name _ t r
  have hnames : (withPreds selected).map (fun sp => sp.1.name)
      = selected.map SelectedFork.name := by
    rw [← withPreds_map_fst selected, List.map_map, withPreds_map_fst]
    rfl
  rw [Store.stampWake, hfold, hnames]

-- ================================================================ runs

/-- The runs an issuance records, numbered from `n` on. -/
def issuedRuns (session : SessionRow) (t : Int) :
    Nat → List SelectedFork → List RunRec
  | _, [] => []
  | n, x :: selected =>
      { id := n + 1
        sessionId := session.sessionId
        forkName := x.name
        triggerLabel := x.trigger
        startedAt := t
        tags := if x.tags.isEmpty then none else some (join "," x.tags) }
        :: issuedRuns session t (n + 1) selected

theorem runs_stampFork (s : Store) (session : SessionRow) (t : Int)
    (issue : Nat) (sp : SelectedFork × List String) :
    (s.stampFork session t issue sp).runs
      = s.runs ++ issuedRuns session t (lastRunId s.runs) [sp.1] := by
  simp only [Store.stampFork]
  cases sp.1.latchKey <;> cases sp.2.isEmpty <;> rfl

theorem runs_stampWake (s : Store) (session : SessionRow)
    (selected : List SelectedFork) (t : Int) (issue : Nat) :
    (s.stampWake session selected t issue).runs
      = s.runs ++ issuedRuns session t (lastRunId s.runs) selected := by
  have hfold : ∀ (l : List (SelectedFork × List String)) (s : Store),
      (l.foldl (Store.stampFork session t issue) s).runs
        = s.runs
          ++ issuedRuns session t (lastRunId s.runs) (l.map Prod.fst) := by
    intro l
    induction l with
    | nil =>
        intro s
        exact (List.append_nil _).symm
    | cons sp l ih =>
        intro s
        have hnext : lastRunId (s.stampFork session t issue sp).runs
            = lastRunId s.runs + 1 := by
          rw [runs_stampFork, issuedRuns, issuedRuns, lastRunId_concat]
          exact Nat.max_eq_right (Nat.le_succ _)
        rw [List.foldl_cons, ih, hnext, runs_stampFork, List.append_assoc]
        rfl
  rw [Store.stampWake, hfold, withPreds_map_fst]

/-- Every selected fork has its run. -/
theorem exists_mem_issuedRuns {session : SessionRow} {t : Int} {n : Nat}
    {selected : List SelectedFork} {x : SelectedFork} (hx : x ∈ selected) :
    ∃ r ∈ issuedRuns session t n selected, r.sessionId = session.sessionId
      ∧ r.startedAt = t
      ∧ r.tags = if x.tags.isEmpty then none else some (join "," x.tags) := by
  induction selected generalizing n with
  | nil => cases hx
  | cons y selected ih =>
      rcases List.mem_cons.1 hx with rfl | hx
      · exact ⟨_, List.mem_cons_self, rfl, rfl, rfl⟩
      · obtain ⟨r, hr, h⟩ := ih hx
        exact ⟨r, List.mem_cons_of_mem _ hr, h⟩

theorem startedAt_issuedRuns {session : SessionRow} {t : Int} {n : Nat}
    {selected : List SelectedFork} :
    ∀ r ∈ issuedRuns session t n selected, r.startedAt = t := by
  induction selected generalizing n with
  | nil => simp [issuedRuns]
  | cons y selected ih =>
      intro r hr
      rcases List.mem_cons.1 hr with rfl | hr
      · rfl
      · exact ih r hr

private theorem runs_closeSessions (ids : List String) (s : Store) :
    (ids.foldl Store.closeSession s).runs = s.runs := by
  induction ids generalizing s with
  | nil => rfl
  | cons id ids ih =>
      rw [List.foldl_cons, ih]
      rfl

/-- Only stamping records runs, and nothing forgets them. -/
theorem runs_run {k : Nat} {now : Int} {d : Daemon} {x : Section}
    (hx : ∀ session selected t, x ≠ .stamp session selected t) :
    (x.run k now d).1.runs = d.store.runs := by
  by_cases hcloses : x.closes = true
  · obtain ⟨ids, hs, -⟩ := closes_run k now d hcloses
    rw [hs, runs_closeSessions]
  cases x with
  | stamp session selected t => exact absurd rfl (hx session selected t)
  | start ev t => rfl
  | stop ev t => rfl
  | classify ev t =>
      obtain ⟨spawns, hs⟩ := classifyNotification_only d.store ev t
      simp only [Section.run, hs]
  | prompt ev waking t =>
      obtain ⟨sessions, pending, hs⟩ := recordPrompt_only d.store ev waking t
      simp only [Section.run, hs]
  | ingest sessionId delta t =>
      obtain ⟨sessions, spawns, hs⟩ := applyDelta_only d.store sessionId delta t
      simp only [Section.run, hs]
  | queue sessionId entries =>
      obtain ⟨roster, hs⟩ := queueForks_only d.store sessionId entries now
      simp only [Section.run, hs]
  | release session released =>
      obtain ⟨pending, hs⟩ :=
        deleteReleased_only d.store session.sessionId released
      simp only [Section.run, hs]
  | _ => exact absurd rfl hcloses

-- ===================================================== held dependents

/-- The row a held dependent is written as. -/
def heldRow (session : SessionRow) (t : Int) (issue : Nat)
    (sp : SelectedFork × List String) : PendingRec where
  sessionId := session.sessionId
  forkName := sp.1.name
  forkPath := sp.1.path
  triggerLabel := sp.1.trigger
  overlap := sp.1.overlap
  preds := join "," sp.2
  createdAt := t
  issue := issue

theorem mem_pending_stampFork {s : Store} {session : SessionRow} {t : Int}
    {issue : Nat} {sp : SelectedFork × List String} {row : PendingRec} :
    row ∈ (s.stampFork session t issue sp).pending.rows
      ↔ if sp.2 = [] then row ∈ s.pending.rows
        else (row ∈ s.pending.rows
            ∧ row.key ≠ (session.sessionId, sp.1.name))
          ∨ row = heldRow session t issue sp := by
  have hrest : ∀ store : Store, store.pending = s.pending →
      (row ∈ (store.insertPendingDep session.sessionId sp.1.name sp.1.path
          sp.1.trigger sp.1.overlap sp.2 t issue).pending.rows
        ↔ (row ∈ s.pending.rows ∧ row.key ≠ (session.sessionId, sp.1.name))
          ∨ row = heldRow session t issue sp) := by
    intro store hp
    rw [Store.insertPendingDep, hp]
    exact Table.mem_insertOrReplace _
  simp only [Store.stampFork]
  by_cases he : sp.2 = []
  · simp only [he, List.isEmpty_nil, if_true]
    cases sp.1.latchKey <;> exact Iff.rfl
  · simp only [he, List.isEmpty_eq_false_iff.2 he, if_false,
      Bool.false_eq_true]
    cases sp.1.latchKey <;> exact hrest _ rfl

/-- After an issuance a pending row is an old one or one of the wake's
held dependents. -/
theorem mem_pending_stampWake {s : Store} {session : SessionRow}
    {selected : List SelectedFork} {t : Int} {issue : Nat}
    {row : PendingRec}
    (h : row ∈ (s.stampWake session selected t issue).pending.rows) :
    row ∈ s.pending.rows ∨ ∃ sp ∈ withPreds selected, sp.2 ≠ []
      ∧ row = heldRow session t issue sp := by
  have hfold : ∀ (l : List (SelectedFork × List String)) (s : Store),
      row ∈ (l.foldl (Store.stampFork session t issue) s).pending.rows →
      row ∈ s.pending.rows ∨ ∃ sp ∈ l, sp.2 ≠ []
        ∧ row = heldRow session t issue sp := by
    intro l
    induction l with
    | nil => exact fun s h => .inl h
    | cons sp l ih =>
        intro s h
        rcases ih _ h with h | ⟨sp', hsp', hne, rfl⟩
        · rw [mem_pending_stampFork] at h
          split at h
          · exact .inl h
          · rcases h with h | rfl
            · exact .inl h.1
            · exact .inr ⟨sp, by simp, by assumption, rfl⟩
        · exact .inr ⟨sp', by simp [hsp'], hne, rfl⟩
  exact hfold _ _ h

/-- When the selected forks have different names, the rows it writes are
all there, each in place of any earlier one of its fork. -/
theorem mem_pending_stampWake_iff {s : Store} {session : SessionRow}
    {selected : List SelectedFork} {t : Int} {issue : Nat}
    {row : PendingRec}
    (hnames : (selected.map SelectedFork.name).Nodup) :
    row ∈ (s.stampWake session selected t issue).pending.rows
      ↔ (row ∈ s.pending.rows ∧ ¬(row.sessionId = session.sessionId
          ∧ ∃ sp ∈ withPreds selected, sp.2 ≠ [] ∧ sp.1.name = row.forkName))
        ∨ ∃ sp ∈ withPreds selected, sp.2 ≠ []
          ∧ row = heldRow session t issue sp := by
  have hfold : ∀ (l : List (SelectedFork × List String)) (s : Store),
      (l.map fun sp => sp.1.name).Nodup →
      (row ∈ (l.foldl (Store.stampFork session t issue) s).pending.rows
        ↔ (row ∈ s.pending.rows ∧ ¬(row.sessionId = session.sessionId
            ∧ ∃ sp ∈ l, sp.2 ≠ [] ∧ sp.1.name = row.forkName))
          ∨ ∃ sp ∈ l, sp.2 ≠ [] ∧ row = heldRow session t issue sp) := by
    intro l
    induction l with
    | nil => simp
    | cons sp l ih =>
        intro s hnodup
        rw [List.map_cons, List.nodup_cons] at hnodup
        rw [List.foldl_cons, ih _ hnodup.2, mem_pending_stampFork]
        simp only [List.exists_mem_cons_iff]
        by_cases hroot : sp.2 = []
        · simp [hroot]
        · have hother : row = heldRow session t issue sp →
              ¬∃ sp' ∈ l, sp'.2 ≠ [] ∧ sp'.1.name = row.forkName := by
            rintro rfl ⟨sp', hsp', -, hname⟩
            exact hnodup.1 (List.mem_map.2 ⟨sp', hsp', hname⟩)
          have hkey : row.key ≠ (session.sessionId, sp.1.name)
              ↔ ¬(row.sessionId = session.sessionId
                ∧ sp.1.name = row.forkName) := by
            rw [PendingRec.key, ne_eq, Prod.mk.injEq, eq_comm (a := sp.1.name)]
          rw [if_neg hroot, hkey]
          constructor
          · rintro (⟨⟨hrow, hno⟩ | hnew, hrest⟩ | hlater)
            · refine .inl ⟨hrow, fun ⟨hs, h⟩ => h.elim
                (fun h => hno ⟨hs, h.2⟩) fun h => hrest ⟨hs, h⟩⟩
            · exact .inr (.inl ⟨hroot, hnew⟩)
            · exact .inr (.inr hlater)
          · rintro (⟨hrow, hno⟩ | hnew | hlater)
            · exact .inl ⟨.inl ⟨hrow, fun h => hno ⟨h.1, .inl ⟨hroot, h.2⟩⟩⟩,
                fun h => hno ⟨h.1, .inr h.2⟩⟩
            · exact .inl ⟨.inr hnew.2, fun h => hother hnew.2 h.2⟩
            · exact .inr hlater
  refine hfold _ _ ?_
  rwa [← withPreds_map_fst selected, List.map_map] at hnames

theorem mem_pending_deleteReleased {s : Store} {sessionId : String}
    {released : List PendingDep} {row : PendingRec} :
    row ∈ (s.deleteReleased sessionId released).pending.rows
      ↔ row ∈ s.pending.rows ∧ ¬(row.sessionId = sessionId
        ∧ ∃ dep ∈ released, dep.forkName = row.forkName) := by
  unfold Store.deleteReleased
  induction released generalizing s with
  | nil => simp
  | cons dep released ih =>
      rw [List.foldl_cons, ih]
      simp only [Store.deletePendingDep, Table.mem_deleteWhere,
        Bool.and_eq_false_iff, beq_eq_false_iff_ne, List.exists_mem_cons_iff]
      constructor
      · rintro ⟨⟨hrow, hdep⟩, hrest⟩
        refine ⟨hrow, ?_⟩
        rintro ⟨hs, hf | hf⟩
        · exact hdep.elim (· hs) (· hf.symm)
        · exact hrest ⟨hs, hf⟩
      · rintro ⟨hrow, hno⟩
        refine ⟨⟨hrow, ?_⟩, fun h => hno ⟨h.1, .inr h.2⟩⟩
        by_cases hs : row.sessionId = sessionId
        · exact .inr fun hf => hno ⟨hs, .inl hf.symm⟩
        · exact .inl hs

theorem mem_listPendingDeps {s : Store} {sessionId : String}
    {dep : PendingDep} :
    dep ∈ s.listPendingDeps sessionId ↔ ∃ row ∈ s.pending.rows,
      row.sessionId = sessionId ∧ row.toDep = dep := by
  simp only [Store.listPendingDeps, List.mem_map, Table.mem_orderBy,
    beq_iff_eq, and_assoc]

end Autofork
