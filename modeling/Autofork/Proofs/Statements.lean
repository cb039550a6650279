/-
What each statement does to each table, and the rule for what lives
keep.

A statement writes one table, but for the one that closes a session. So
for each table there is one lemma that says what a row of it was before,
or which statement has written it; an invariant of the store then comes
down to those.

A daemon that dies cuts its last section short. What every statement
keeps, in the order the section has them in, holds at each point in
between, and so of the file it leaves (`lives_invariant`).
-/
import Autofork.Proofs.Columns
import Autofork.Proofs.Steps
import Autofork.Restart

namespace Autofork

open Lib

-- ============================================================== sections

private theorem run_map {α : Type} (f : α → Statement) (l : List α)
    (s : Store) : run Statement.apply s (l.map f)
      = l.foldl (fun s a => (f a).apply s) s :=
  List.foldl_map

private theorem run_stampStatements (session : SessionRow) (t : Int)
    (issue : Nat) (s : Store) (sp : SelectedFork × List String) :
    run Statement.apply s (stampStatements session t issue sp)
      = s.stampFork session t issue sp := by
  simp only [stampStatements, Store.stampFork]
  cases sp.1.latchKey <;> cases sp.2.isEmpty <;> rfl

private theorem run_notifications (a : String) (t : Int)
    (ns : List TaskNotification) (s : Store) :
    run Statement.apply s (ns.filterMap (notificationStatement a t))
      = ns.foldl (ingestNotification a t) s := by
  induction ns generalizing s with
  | nil => rfl
  | cons n ns ih =>
      rw [List.foldl_cons, ← ih]
      cases h : n.status.filter isTerminalStatus with
      | none => simp [notificationStatement, ingestNotification, h]
      | some status =>
          simp [notificationStatement, ingestNotification, h, Statement.apply]

/-- A section writes its statements, one after the other. -/
theorem Section.run_statements (k : Nat) (now : Int) (d : Daemon)
    (x : Section) : Lib.run Statement.apply d.store (x.statements now d)
      = (x.run k now d).1 := by
  cases x with
  | start ev t => rfl
  | stop ev t => rfl
  | classify ev t =>
      simp only [Section.statements, Section.run, classifyNotification]
      split <;> rfl
  | prompt ev waking t => cases waking <;> rfl
  | ingest a delta t =>
      simp only [Section.statements, Section.run, applyDelta, run_append,
        run_map, run_notifications]
      rfl
  | queue a entries => exact run_map ..
  | stamp session selected t =>
      show List.foldl _ _ (List.flatMap _ _) = _
      rw [List.foldl_flatMap]
      refine congrArg (fun f => List.foldl f d.store (withPreds selected)) ?_
      funext s sp
      exact run_stampStatements ..
  | release session released => exact run_map ..
  | close a => rfl
  | closeIfOpen a =>
      simp only [Section.statements, Section.run]
      cases d.store.getSession a with
      | none => rfl
      | some session =>
          by_cases hopen : session.status = .open
          · simp only [if_pos hopen]
            rfl
          · simp only [if_neg hopen]
            rfl
  | prune t => exact run_map ..

-- ================================================================ tables

section tables

variable {s : Store} {st : Statement}

private theorem key_of_mem_updateWhere {κ ρ : Type} {key : ρ → κ}
    (T : Table key) {p : ρ → Bool} {f : ρ → ρ}
    (hf : ∀ r, key (f r) = key r) {x : ρ}
    (h : x ∈ (T.updateWhere p f hf).rows) : ∃ y ∈ T.rows, key y = key x := by
  rcases T.mem_updateWhere.1 h with ⟨y, hy, -, rfl⟩ | ⟨hx, -⟩
  · exact ⟨y, hy, (hf y).symm⟩
  · exact ⟨x, hx, rfl⟩

private theorem markSpawnTerminal_spawns (s : Store) (a : String)
    (toolUseId taskId : Option String) (status : String) (t : Int) :
    ∃ spawns, (Statement.markSpawnTerminal a toolUseId taskId status t).apply s
      = { s with spawns } :=
  markSpawnTerminal_only s a toolUseId taskId status t

/-- Runs are only ever added, one at a time. -/
theorem runs_apply (s : Store) (st : Statement) : (st.apply s).runs = s.runs
    ∨ ∃ a f label tags t, st = .recordIssuedRun a f label tags t
      ∧ (st.apply s).runs
        = s.runs ++ [⟨lastRunId s.runs + 1, a, f, label, t, tags⟩] := by
  cases st with
  | recordIssuedRun a f label tags t => exact .inr ⟨a, f, label, tags, t, rfl, rfl⟩
  | markSpawnTerminal a toolUseId taskId status t =>
      obtain ⟨spawns, h⟩ := markSpawnTerminal_spawns s a toolUseId taskId status t
      rw [h]
      exact .inl rfl
  | _ => exact .inl rfl

/-- A run that is recorded stays. -/
theorem mem_runs_apply {x : RunRec} (h : x ∈ s.runs) : x ∈ (st.apply s).runs := by
  rcases runs_apply s st with he | ⟨a, f, label, tags, t, -, he⟩
  · rw [he]
    exact h
  · rw [he]
    exact List.mem_append_left _ h

/-- A session that has been seen stays. -/
theorem known_apply {a : String} (h : (s.sessions.find? a).isSome = true) :
    ((st.apply s).sessions.find? a).isSome = true := by
  have hupdate : ∀ b (f : SessionRec → SessionRec)
      (hf : ∀ r, (f r).sessionId = r.sessionId),
      ((s.updateSession b f hf).sessions.find? a).isSome = true := by
    intro b f hf
    unfold Store.updateSession
    rw [Table.find?_updateWhere, Option.isSome_map]
    exact h
  cases st with
  | upsertSession ev t =>
      simp only [Statement.apply, Store.upsertSession, Table.find?_insertOrUpdate]
      split
      · rfl
      · exact h
  | setLastActivity b t => exact hupdate ..
  | bumpPauseEpoch b => exact hupdate ..
  | setPauseStartedAtIfUnset b t => exact hupdate ..
  | setTranscriptGauge b offset promptTokens => exact hupdate ..
  | closeSession b =>
      exact hupdate b (fun r => { r with status := .closed }) fun _ => rfl
  | markSpawnTerminal b toolUseId taskId status t =>
      obtain ⟨spawns, he⟩ := markSpawnTerminal_spawns s b toolUseId taskId status t
      rw [he]
      exact h
  | _ => exact h

/-- A rostered fork was rostered before, or is queued now. -/
theorem mem_roster_apply {r : RosterEntry} (h : r ∈ (st.apply s).roster.rows) :
    (∃ r₀ ∈ s.roster.rows, r₀.key = r.key)
      ∨ ∃ path t, st = .queueFork r.sessionId r.forkName path t := by
  cases st with
  | queueFork a f path t =>
      rcases (Table.mem_insertOrIgnore _).1 h with hold | ⟨rfl, -⟩
      · exact .inl ⟨r, hold, rfl⟩
      · exact .inr ⟨path, t, rfl⟩
  | touchForkRan a f t =>
      exact .inl (key_of_mem_updateWhere s.roster (by exact fun _ => rfl) h)
  | closeSession a =>
      exact .inl ⟨r, ((Table.mem_deleteWhere _).1 h).1, rfl⟩
  | markSpawnTerminal a toolUseId taskId status t =>
      obtain ⟨spawns, he⟩ := markSpawnTerminal_spawns s a toolUseId taskId status t
      rw [he] at h
      exact .inl ⟨r, h, rfl⟩
  | _ => exact .inl ⟨r, h, rfl⟩

/-- A latch was taken before, or is taken now. -/
theorem mem_fires_apply {r : FireRec} (h : r ∈ (st.apply s).fires.rows) :
    r ∈ s.fires.rows
      ∨ st = .tryLatchFire r.sessionId r.forkName r.triggerLabel r.firedAt := by
  cases st with
  | tryLatchFire a f key t =>
      rcases (Table.mem_insertOrIgnore _).1 h with hold | ⟨rfl, -⟩
      · exact .inl hold
      · exact .inr rfl
  | closeSession a => exact .inl ((Table.mem_deleteWhere _).1 h).1
  | markSpawnTerminal a toolUseId taskId status t =>
      obtain ⟨spawns, he⟩ := markSpawnTerminal_spawns s a toolUseId taskId status t
      rw [he] at h
      exact .inl h
  | _ => exact .inl h

/-- A latch is given back by the closing of its session only. -/
theorem fires_apply {r : FireRec} (h : r ∈ s.fires.rows)
    (hst : st ≠ .closeSession r.sessionId) : r ∈ (st.apply s).fires.rows := by
  cases st with
  | tryLatchFire a f key t => exact (Table.mem_insertOrIgnore _).2 (.inl h)
  | closeSession a =>
      refine (Table.mem_deleteWhere _).2 ⟨h, ?_⟩
      rw [beq_eq_false_iff_ne]
      exact fun ha => hst (by rw [ha])
  | markSpawnTerminal a toolUseId taskId status t =>
      obtain ⟨spawns, he⟩ := markSpawnTerminal_spawns s a toolUseId taskId status t
      rw [he]
      exact h
  | _ => exact h

/-- A spawn was seen before, or is recorded now. -/
theorem mem_spawns_apply {r : SpawnRec} (h : r ∈ (st.apply s).spawns.rows) :
    (∃ r₀ ∈ s.spawns.rows, r₀.key = r.key)
      ∨ ∃ f t, st = .recordSpawn r.sessionId r.toolUseId f t := by
  cases st with
  | recordSpawn a toolUseId f t =>
      rcases (Table.mem_insertOrIgnore _).1 h with hold | ⟨rfl, -⟩
      · exact .inl ⟨r, hold, rfl⟩
      · exact .inr ⟨f, t, rfl⟩
  | setSpawnTaskId a toolUseId taskId =>
      exact .inl (key_of_mem_updateWhere s.spawns (by exact fun _ => rfl) h)
  | markSpawnTerminal a toolUseId taskId status t =>
      simp only [Statement.apply, Store.markSpawnTerminal] at h
      split at h
      · exact .inl (key_of_mem_updateWhere s.spawns (by exact fun _ => rfl) h)
      · exact .inl ⟨r, h, rfl⟩
  | closeSession a =>
      exact .inl ⟨r, ((Table.mem_deleteWhere _).1 h).1, rfl⟩
  | _ => exact .inl ⟨r, h, rfl⟩

/-- A dependent was held before, in a session that is not closed now, or
is held now. -/
theorem mem_pending_apply {r : PendingRec} (h : r ∈ (st.apply s).pending.rows) :
    (r ∈ s.pending.rows ∧ st ≠ .closeSession r.sessionId)
      ∨ ∃ preds, st = .insertPendingDep r.sessionId r.forkName r.forkPath
        r.triggerLabel r.overlap preds r.createdAt r.issue := by
  cases st with
  | insertPendingDep a f path label overlap preds t issue =>
      rcases (Table.mem_insertOrReplace _).1 h with ⟨hold, -⟩ | rfl
      · exact .inl ⟨hold, by simp⟩
      · exact .inr ⟨preds, rfl⟩
  | deletePendingDep a f =>
      exact .inl ⟨((Table.mem_deleteWhere _).1 h).1, by simp⟩
  | clearPendingDeps a =>
      exact .inl ⟨((Table.mem_deleteWhere _).1 h).1, by simp⟩
  | closeSession a =>
      obtain ⟨hold, hne⟩ := (Table.mem_deleteWhere _).1 h
      rw [beq_eq_false_iff_ne] at hne
      exact .inl ⟨hold, fun he => hne (Statement.closeSession.inj he).symm⟩
  | markSpawnTerminal a toolUseId taskId status t =>
      obtain ⟨spawns, he⟩ := markSpawnTerminal_spawns s a toolUseId taskId status t
      rw [he] at h
      exact .inl ⟨h, by simp⟩
  | _ => exact .inl ⟨h, by simp⟩

end tables

-- ============================================================== the rule

/-- What every step keeps holds wherever a run is cut short. -/
theorem along_cut {σ α : Type} {step : σ → α → σ} {C : σ → α → Prop}
    {P : σ → Prop} (hstep : ∀ s a, C s a → P s → P (step s a)) {s : σ}
    {as : List α} (hC : Along step C s as) (h : P s) (n : Nat) :
    P (run step s (as.take n)) := by
  rw [← List.take_append_drop n as, along_append] at hC
  exact Along.invariant hstep hC.1 h

namespace World

/-- The rule for what lives keep of the store: `K` is what is known of the
tasks, `G` what a statement needs to find. -/
theorem lives_invariant {P : Store → Prop} {K : World → Prop}
    {G : Store → Statement → Prop}
    (hkeep : ∀ s st, G s st → P s → P (st.apply s))
    (hguard : ∀ w k now x, K w → P w.daemon.store →
      w.about k = some (.write x) →
      Along Statement.apply G w.daemon.store (x.statements now w.daemon))
    (hK : ∀ w f, K w → K (w.fate f))
    {w : World} (hw : K w) (h : P w.daemon.store) (fs : List Fate) :
    P (run fate w fs).daemon.store := by
  suffices hboth : K (run fate w fs) ∧ P (run fate w fs).daemon.store from
    hboth.2
  refine run_invariant (P := fun w : World => K w ∧ P w.daemon.store)
    (fun w f hold => ⟨hK w f hold.1, ?_⟩) ⟨hw, h⟩ fs
  cases f with
  | act a =>
      refine w.store_invariant (C := fun w' _ => w' = w) (Q := fun s _ => P s)
        (fun s l o _ hs => hs) (fun w' k tick x hC hab hs => ?_) a rfl hold.2
      subst hC
      rw [← x.run_statements]
      exact Along.invariant hkeep (hguard _ k tick.now x hold.1 hs hab) hs
  | die k n now =>
      show P (w.left k n now)
      unfold left
      split
      next x hab =>
        exact along_cut hkeep (hguard _ k now x hold.1 hold.2 hab) hold.2 n
      next => exact hold.2

/-- What every statement keeps needs no more. -/
theorem lives_keep {P : Store → Prop}
    (hkeep : ∀ s st, P s → P (Statement.apply s st)) {w : World}
    (h : P w.daemon.store) (fs : List Fate) :
    P (run fate w fs).daemon.store :=
  lives_invariant (K := fun _ => True) (G := fun _ _ => True)
    (fun s st _ hs => hkeep s st hs)
    (fun _ _ _ _ _ _ _ => along_iff.2 fun _ _ _ _ => trivial)
    (fun _ _ _ => trivial) trivial h fs

end World

end Autofork
