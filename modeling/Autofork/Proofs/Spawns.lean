/-
The spawn registry, over single sections.

A spawn row is written once, marked terminal at most once, and leaves
with its session: a section keeps every terminal row as it is unless it
closes the session (`Keeps`), because marking looks only at rows that
are not terminal yet (`Settled`). So a completion that the registry
shows after a section and did not show before is one the section marked
(`completed_run`).
-/
import Autofork.Proofs.Sections

namespace Autofork

open Lib

/-- A log entry that marks a spawn of fork `f` of session `a`. -/
def Completes (a f : String) : Obs → Prop
  | .marked sessionId forkName _ => sessionId = a ∧ forkName = some f
  | _ => False

instance (a f : String) : DecidablePred (Completes a f)
  | .marked sessionId forkName _ =>
      inferInstanceAs (Decidable (sessionId = a ∧ forkName = some f))
  | .stopped .. | .prompted .. | .closed .. | .clock .. | .configured ..
  | .registered .. | .snapshot .. | .cancelled .. | .issued ..
  | .released .. | .answered .. => isFalse id

/-- A log entry that marks one at `since` or later. -/
def CompletesSince (a f : String) (since : Int) : Obs → Prop
  | .marked sessionId forkName t =>
      sessionId = a ∧ forkName = some f ∧ since ≤ t
  | _ => False

instance (a f : String) (since : Int) :
    DecidablePred (CompletesSince a f since)
  | .marked sessionId forkName t => inferInstanceAs (Decidable
      (sessionId = a ∧ forkName = some f ∧ since ≤ t))
  | .stopped .. | .prompted .. | .closed .. | .clock .. | .configured ..
  | .registered .. | .snapshot .. | .cancelled .. | .issued ..
  | .released .. | .answered .. => isFalse id

-- ============================================================ the rows

/-- The parts of a spawn row that say whose it is and how it ended. -/
def SpawnRec.outcome (r : SpawnRec) :
    (String × String) × Option String × String × Option Int :=
  (r.key, r.forkName, r.status, r.terminalAt)

namespace Store

/-- A row with a terminal time has a terminal status. -/
def Settled (s : Store) : Prop :=
  ∀ r ∈ s.spawns.rows, r.terminalAt.isSome →
    isTerminalStatus r.status = true

/-- A terminal row stays, as terminal as it was. -/
def Keeps (s s' : Store) : Prop :=
  ∀ r ∈ s.spawns.rows, r.terminalAt.isSome →
    ∃ r' ∈ s'.spawns.rows, r'.outcome = r.outcome

theorem Keeps.refl (s : Store) : s.Keeps s := fun r hr _ => ⟨r, hr, rfl⟩

theorem Keeps.trans {s s' s'' : Store} (h : s.Keeps s') (h' : s'.Keeps s'') :
    s.Keeps s'' := by
  intro r hr ht
  obtain ⟨r', hr', heq⟩ := h r hr ht
  have ht' : r'.terminalAt.isSome := by
    have : r'.terminalAt = r.terminalAt := congrArg (·.2.2.2) heq
    rw [this]
    exact ht
  obtain ⟨r'', hr'', heq'⟩ := h' r' hr' ht'
  exact ⟨r'', hr'', heq'.trans heq⟩

/-- A write that settles what it touches and keeps what is terminal. -/
def Evolves (s s' : Store) : Prop := s.Settled → s'.Settled ∧ s.Keeps s'

theorem Evolves.refl (s : Store) : s.Evolves s := fun h => ⟨h, .refl s⟩

theorem Evolves.trans {s s' s'' : Store} (h : s.Evolves s')
    (h' : s'.Evolves s'') : s.Evolves s'' := fun hs =>
  ⟨(h' (h hs).1).1, (h hs).2.trans (h' (h hs).1).2⟩

theorem Evolves.foldl {α : Type} {f : Store → α → Store}
    (hf : ∀ (s : Store) x, s.Evolves (f s x)) (l : List α) (s : Store) :
    s.Evolves (l.foldl f s) := by
  induction l generalizing s with
  | nil => exact .refl s
  | cons x l ih => exact (hf s x).trans (ih _)

/-- What is terminal now was terminal before, or is since `t`. -/
def Dated (t : Int) (s s' : Store) : Prop :=
  ∀ r ∈ s'.spawns.rows, r.terminalAt.isSome → r.terminalAt = some t
    ∨ ∃ r₀ ∈ s.spawns.rows, r₀.outcome = r.outcome

theorem Dated.of_subset {t : Int} {s s' : Store}
    (h : ∀ r ∈ s'.spawns.rows, r ∈ s.spawns.rows) : s.Dated t s' :=
  fun r hr _ => .inr ⟨r, h r hr, rfl⟩

theorem Dated.trans {t : Int} {s s' s'' : Store} (h : s.Dated t s')
    (h' : s'.Dated t s'') : s.Dated t s'' := by
  intro r hr ht
  rcases h' r hr ht with hnew | ⟨r', hr', heq⟩
  · exact .inl hnew
  · have hterm : r'.terminalAt = r.terminalAt := congrArg (·.2.2.2) heq
    rw [← hterm] at ht ⊢
    rcases h r' hr' ht with hnew | ⟨r₀, hr₀, heq₀⟩
    · exact .inl hnew
    · exact .inr ⟨r₀, hr₀, heq₀.trans heq⟩

theorem Dated.foldl {α : Type} {t : Int} {f : Store → α → Store}
    (hf : ∀ (s : Store) x, s.Dated t (f s x)) (l : List α) (s : Store) :
    s.Dated t (l.foldl f s) := by
  induction l generalizing s with
  | nil => exact .of_subset fun _ => id
  | cons x l ih => exact (hf s x).trans (ih _)

-- ====================================================== the statements

theorem evolves_recordSpawn (s : Store) (sessionId toolUseId : String)
    (forkName : Option String) (t : Int) :
    s.Evolves (s.recordSpawn sessionId toolUseId forkName t) := by
  intro hs
  constructor
  · intro r hr ht
    rw [recordSpawn, Table.mem_insertOrIgnore] at hr
    rcases hr with hr | ⟨rfl, -⟩
    · exact hs r hr ht
    · cases ht
  · intro r hr _
    refine ⟨r, ?_, rfl⟩
    rw [recordSpawn, Table.mem_insertOrIgnore]
    exact .inl hr

theorem evolves_setSpawnTaskId (s : Store)
    (sessionId toolUseId taskId : String) :
    s.Evolves (s.setSpawnTaskId sessionId toolUseId taskId) := by
  intro hs
  constructor
  · intro r hr ht
    obtain ⟨r₀, hr₀, rfl⟩ := List.mem_map.1 hr
    split at ht
    next h => simpa [h] using hs r₀ hr₀ ht
    next h => simpa [h] using hs r₀ hr₀ ht
  · intro r hr _
    refine ⟨_, List.mem_map_of_mem hr, ?_⟩
    split <;> rfl

/-- Marking touches no terminal row: it looks for the status a spawn is
recorded with, which is not a terminal one. -/
theorem evolves_markSpawnTerminal (s : Store) (sessionId : String)
    (toolUseId taskId : Option String) {status : String}
    (hstatus : isTerminalStatus status = true) (t : Int) :
    s.Evolves (s.markSpawnTerminal sessionId toolUseId taskId status t).1 := by
  unfold markSpawnTerminal
  split
  case isFalse => exact .refl s
  case isTrue =>
    intro hs
    constructor
    · intro r hr ht
      obtain ⟨r₀, hr₀, rfl⟩ := List.mem_map.1 hr
      split at ht
      next h => simpa [h] using hstatus
      next h => simpa [h] using hs r₀ hr₀ ht
    · intro r hr ht
      have hne : r.status ≠ "spawned" := by
        intro he
        have := hs r hr ht
        rw [he] at this
        exact absurd this (by decide)
      exact ⟨_, List.mem_map_of_mem hr, by simp [hne]⟩

-- ------------------------------------------------------------ their dates

theorem dated_recordSpawn (s : Store) (sessionId toolUseId : String)
    (forkName : Option String) (now t : Int) :
    s.Dated t (s.recordSpawn sessionId toolUseId forkName now) := by
  intro r hr ht
  rw [recordSpawn, Table.mem_insertOrIgnore] at hr
  rcases hr with hr | ⟨rfl, -⟩
  · exact .inr ⟨r, hr, rfl⟩
  · cases ht

theorem dated_setSpawnTaskId (s : Store)
    (sessionId toolUseId taskId : String) (t : Int) :
    s.Dated t (s.setSpawnTaskId sessionId toolUseId taskId) := by
  intro r hr _
  obtain ⟨r₀, hr₀, rfl⟩ := List.mem_map.1 hr
  refine .inr ⟨r₀, hr₀, ?_⟩
  split <;> rfl

/-- Marking gives the time it is done at. -/
theorem dated_markSpawnTerminal (s : Store) (sessionId : String)
    (toolUseId taskId : Option String) (status : String) (t : Int) :
    s.Dated t (s.markSpawnTerminal sessionId toolUseId taskId status t).1 := by
  unfold markSpawnTerminal
  split
  · intro r hr _
    obtain ⟨r₀, hr₀, rfl⟩ := List.mem_map.1 hr
    split
    · exact .inl rfl
    · exact .inr ⟨r₀, hr₀, rfl⟩
  · exact .of_subset fun _ => id

end Store

theorem dated_classifyNotification (s : Store) (ev : Event) (t : Int) :
    s.Dated t (classifyNotification s ev t).1 := by
  simp only [classifyNotification]
  split
  · exact s.dated_markSpawnTerminal _ _ _ _ t
  · exact .of_subset fun _ => id

theorem dated_applyDelta (s : Store) (sessionId : String) (delta : Delta)
    (t : Int) : s.Dated t (applyDelta s sessionId delta t) := by
  have hspawns := Store.Dated.foldl (t := t)
    (f := fun s (p : String × Option String) => s.recordSpawn sessionId p.1 p.2 t)
    (fun s p => s.dated_recordSpawn sessionId p.1 p.2 t t) delta.spawns s
  have htasks := fun s => Store.Dated.foldl (t := t)
    (f := fun s (p : String × String) => s.setSpawnTaskId sessionId p.1 p.2)
    (fun s p => s.dated_setSpawnTaskId sessionId p.1 p.2 t) delta.taskIds s
  have hnotes := fun s => Store.Dated.foldl (t := t)
    (f := ingestNotification sessionId t) (fun s n => by
      unfold ingestNotification
      split
      · exact .of_subset fun _ => id
      · exact s.dated_markSpawnTerminal _ _ _ _ t) delta.notifications s
  exact hspawns.trans ((htasks _).trans (hnotes _))

theorem evolves_classifyNotification (s : Store) (ev : Event) (t : Int) :
    s.Evolves (classifyNotification s ev t).1 := by
  simp only [classifyNotification]
  split
  next hstatus =>
    exact s.evolves_markSpawnTerminal _ _ _ hstatus t
  next => exact .refl s

theorem evolves_ingestNotification (sessionId : String) (t : Int)
    (s : Store) (n : TaskNotification) :
    s.Evolves (ingestNotification sessionId t s n) := by
  unfold ingestNotification
  split
  next => exact .refl s
  next status hstatus =>
    exact s.evolves_markSpawnTerminal _ _ _
      (Option.filter_eq_some_iff.1 hstatus).2 t

theorem evolves_applyDelta (s : Store) (sessionId : String) (delta : Delta)
    (t : Int) : s.Evolves (applyDelta s sessionId delta t) := by
  have hspawns := Store.Evolves.foldl
    (f := fun s (p : String × Option String) => s.recordSpawn sessionId p.1 p.2 t)
    (fun s p => s.evolves_recordSpawn sessionId p.1 p.2 t) delta.spawns s
  have htasks := fun s => Store.Evolves.foldl
    (f := fun s (p : String × String) => s.setSpawnTaskId sessionId p.1 p.2)
    (fun s p => s.evolves_setSpawnTaskId sessionId p.1 p.2) delta.taskIds s
  have hnotes := fun s => Store.Evolves.foldl
    (evolves_ingestNotification sessionId t) delta.notifications s
  exact hspawns.trans ((htasks _).trans (hnotes _))

-- ========================================================= completions

theorem forkCompletedSince_iff {s : Store} {a f : String} {since : Int} :
    s.forkCompletedSince a f since = true ↔ ∃ r ∈ s.spawns.rows,
      r.sessionId = a ∧ r.forkName = some f
        ∧ isTerminalStatus r.status = true
        ∧ ∃ t, r.terminalAt = some t ∧ since ≤ t := by
  simp [Store.forkCompletedSince, and_assoc, Option.any_eq_true]

/-- What completed is marked, or had completed before. -/
theorem completed_of_evolves {s s' : Store} (hs : s.Settled)
    (h : s.Evolves s') {a f : String} {since t : Int} (hdated : s.Dated t s')
    (hc : s'.forkCompletedSince a f since = true) :
    s.forkCompletedSince a f since = true
      ∨ ∃ o ∈ marks s s' t, CompletesSince a f since o := by
  obtain ⟨r, hr, hsess, hfork, hstatus, at_, hat, hle⟩ :=
    forkCompletedSince_iff.1 hc
  by_cases hnew : (s.spawns.find? r.key).any fun r => r.terminalAt.isSome
  · obtain ⟨r₀, hfind, hterm⟩ := (Option.any_eq_true _ _).1 hnew
    obtain ⟨hr₀, hkey⟩ := s.spawns.find?_eq_some_iff.1 hfind
    obtain ⟨r', hr', hout⟩ := (h hs).2 r₀ hr₀ hterm
    have hsame : r' = r := by
      refine s'.spawns.eq_of_key_eq hr' hr ?_
      exact (congrArg Prod.fst hout).trans hkey
    rw [hsame] at hout
    simp only [SpawnRec.outcome, SpawnRec.key, Prod.mk.injEq] at hout
    obtain ⟨⟨hsess', -⟩, hfork', hstatus', hat'⟩ := hout
    exact .inl (forkCompletedSince_iff.2 ⟨r₀, hr₀, hsess' ▸ hsess,
      hfork' ▸ hfork, hstatus' ▸ hstatus, at_, hat' ▸ hat, hle⟩)
  · rcases hdated r hr (by rw [hat]; rfl) with ht | ⟨r₀, hr₀, hout⟩
    · refine .inr ⟨_, List.mem_map.2 ⟨r, ?_, rfl⟩, hsess, hfork, ?_⟩
      · rw [newlyTerminal, List.mem_filter]
        exact ⟨hr, by simp [hat, hnew]⟩
      · rw [hat] at ht
        exact Option.some.inj ht ▸ hle
    · simp only [SpawnRec.outcome, SpawnRec.key, Prod.mk.injEq] at hout
      obtain ⟨⟨hsess', -⟩, hfork', hstatus', hat'⟩ := hout
      exact .inl (forkCompletedSince_iff.2 ⟨r₀, hr₀, hsess'.trans hsess,
        hfork'.trans hfork, hstatus' ▸ hstatus, at_, hat'.trans hat, hle⟩)

/-- A stamping leaves the registry alone. -/
theorem forkCompletedSince_stampWake (s : Store) (session : SessionRow)
    (selected : List SelectedFork) (t : Int) (issue : Nat)
    (a f : String) (since : Int) :
    (s.stampWake session selected t issue).forkCompletedSince a f since
      = s.forkCompletedSince a f since := by
  obtain ⟨roster, fires, runs, pending, hs⟩ :=
    stampWake_only s session selected t issue
  rw [hs]
  rfl

/-- Rows that only go away bring no completion. -/
private theorem completed_of_subset {s s' : Store} {a f : String}
    {since : Int} (hsub : ∀ r ∈ s'.spawns.rows, r ∈ s.spawns.rows)
    (hc : s'.forkCompletedSince a f since = true) :
    s.forkCompletedSince a f since = true := by
  obtain ⟨r, hr, h⟩ := forkCompletedSince_iff.1 hc
  exact forkCompletedSince_iff.2 ⟨r, hsub r hr, h⟩

/-- A section other than the two that mark writes no spawn row. -/
theorem spawns_run {k : Nat} {now : Int} {d : Daemon} {x : Section}
    (hclassify : ∀ ev t, x ≠ .classify ev t)
    (hingest : ∀ sessionId delta t, x ≠ .ingest sessionId delta t) :
    ∀ r ∈ (x.run k now d).1.spawns.rows, r ∈ d.store.spawns.rows := by
  have closed : ∀ (s : Store) sessionId, ∀ r ∈ (s.closeSession sessionId).spawns.rows,
      r ∈ s.spawns.rows := by
    intro s sessionId r h
    rw [Store.closeSession, Table.mem_deleteWhere] at h
    exact h.1
  intro r hr
  cases x with
  | classify ev t => exact absurd rfl (hclassify ev t)
  | ingest sessionId delta t => exact absurd rfl (hingest sessionId delta t)
  | start ev t => exact hr
  | stop ev t => exact hr
  | prompt ev waking t =>
      obtain ⟨sessions, pending, hs⟩ := recordPrompt_only d.store ev waking t
      simpa only [Section.run, hs] using hr
  | queue sessionId entries =>
      obtain ⟨roster, hs⟩ := queueForks_only d.store sessionId entries now
      simpa only [Section.run, hs] using hr
  | stamp session selected t =>
      obtain ⟨roster, fires, runs, pending, hs⟩ :=
        stampWake_only d.store session selected t d.log.length
      simpa only [Section.run, hs] using hr
  | release session released =>
      obtain ⟨pending, hs⟩ :=
        deleteReleased_only d.store session.sessionId released
      simpa only [Section.run, hs] using hr
  | close sessionId => exact closed _ _ r hr
  | closeIfOpen sessionId =>
      simp only [Section.run] at hr
      split at hr
      · split at hr
        · exact closed _ _ r hr
        · exact hr
      · exact hr
  | prune t =>
      simp only [Section.run] at hr
      exact List.foldlRecOn (motive := fun s : Store =>
        r ∈ s.spawns.rows → r ∈ d.store.spawns.rows) _ _ id
        (fun s ih x _ h => ih (closed _ _ r h)) hr

theorem settled_run {k : Nat} {now : Int} {d : Daemon} (x : Section)
    (h : d.store.Settled) : (x.run k now d).1.Settled := by
  cases x with
  | classify ev t => exact (evolves_classifyNotification d.store ev t h).1
  | ingest sessionId delta t =>
      exact (evolves_applyDelta d.store sessionId delta t h).1
  | _ => exact fun r hr => h r (spawns_run (by simp) (by simp) r hr)

/-- A completion that is new since a section is one it marked, and as
late. -/
theorem completedSince_run {k : Nat} {now : Int} {d : Daemon} (x : Section)
    (h : d.store.Settled) {a f : String} {since : Int}
    (hc : (x.run k now d).1.forkCompletedSince a f since = true) :
    d.store.forkCompletedSince a f since = true
      ∨ ∃ o ∈ (x.run k now d).2.2, CompletesSince a f since o := by
  cases x with
  | classify ev t =>
      exact completed_of_evolves h (evolves_classifyNotification _ ev t)
        (dated_classifyNotification _ ev t) hc
  | ingest sessionId delta t =>
      exact completed_of_evolves h (evolves_applyDelta _ sessionId delta t)
        (dated_applyDelta _ sessionId delta t) hc
  | _ => exact .inl (completed_of_subset (spawns_run (by simp) (by simp)) hc)

theorem completed_run {k : Nat} {now : Int} {d : Daemon} (x : Section)
    (h : d.store.Settled) {a f : String} {since : Int}
    (hc : (x.run k now d).1.forkCompletedSince a f since = true) :
    d.store.forkCompletedSince a f since = true
      ∨ ∃ o ∈ (x.run k now d).2.2, Completes a f o := by
  refine (completedSince_run x h hc).imp_right fun ⟨o, ho, hsince⟩ => ⟨o, ho, ?_⟩
  cases o with
  | marked sessionId forkName t => exact ⟨hsince.1, hsince.2.1⟩
  | _ => cases hsince

-- ------------------------------------------------------- what they keep

/-- Only the two sections that mark and closes touch the registry. -/
theorem spawns_same {k : Nat} {now : Int} {d : Daemon} {x : Section}
    (hclassify : ∀ ev t, x ≠ .classify ev t)
    (hingest : ∀ sessionId delta t, x ≠ .ingest sessionId delta t)
    (hcloses : x.closes = false) :
    (x.run k now d).1.spawns = d.store.spawns := by
  cases x with
  | classify ev t => exact absurd rfl (hclassify ev t)
  | ingest sessionId delta t => exact absurd rfl (hingest sessionId delta t)
  | start ev t => rfl
  | stop ev t => rfl
  | prompt ev waking t =>
      obtain ⟨sessions, pending, hs⟩ := recordPrompt_only d.store ev waking t
      simp only [Section.run, hs]
  | queue sessionId entries =>
      obtain ⟨roster, hs⟩ := queueForks_only d.store sessionId entries now
      simp only [Section.run, hs]
  | stamp session selected t =>
      obtain ⟨roster, fires, runs, pending, hs⟩ :=
        stampWake_only d.store session selected t d.log.length
      simp only [Section.run, hs]
  | release session released =>
      obtain ⟨pending, hs⟩ :=
        deleteReleased_only d.store session.sessionId released
      simp only [Section.run, hs]
  | _ => cases hcloses

theorem mem_spawns_closeSessions {ids : List String} {s : Store}
    {r : SpawnRec} :
    r ∈ (ids.foldl Store.closeSession s).spawns.rows
      ↔ r ∈ s.spawns.rows ∧ r.sessionId ∉ ids := by
  induction ids generalizing s with
  | nil => simp
  | cons id ids ih =>
      rw [List.foldl_cons, ih, Store.closeSession, Table.mem_deleteWhere,
        beq_eq_false_iff_ne, List.mem_cons, not_or, and_assoc]

/-- What a terminal row keeps is enough for its completion. -/
private theorem completed_of_keeps {s s' : Store} {a f : String}
    {since : Int} (hkeeps : s.Keeps s')
    (hc : s.forkCompletedSince a f since = true) :
    s'.forkCompletedSince a f since = true := by
  obtain ⟨r, hr, hsess, hfork, hstatus, at_, hat, hle⟩ :=
    forkCompletedSince_iff.1 hc
  obtain ⟨r', hr', hout⟩ := hkeeps r hr (by rw [hat]; rfl)
  simp only [SpawnRec.outcome, SpawnRec.key, Prod.mk.injEq] at hout
  obtain ⟨⟨hsess', -⟩, hfork', hstatus', hat'⟩ := hout
  exact forkCompletedSince_iff.2 ⟨r', hr', hsess'.trans hsess,
    hfork'.trans hfork, hstatus' ▸ hstatus, at_, hat'.trans hat, hle⟩

/-- What is marked has completed. -/
private theorem completed_of_marks {s s' : Store} {a f : String}
    {since t : Int} (hsettled : s'.Settled) (hdated : s.Dated t s')
    {o : Obs} (ho : o ∈ marks s s' t) (hsince : CompletesSince a f since o) :
    s'.forkCompletedSince a f since = true := by
  obtain ⟨r, hr, rfl⟩ := List.mem_map.1 ho
  obtain ⟨hsess, hfork, hle⟩ := hsince
  rw [newlyTerminal, List.mem_filter, Bool.and_eq_true,
    Bool.not_eq_true'] at hr
  obtain ⟨hr, hterm, hnew⟩ := hr
  rcases hdated r hr hterm with ht | ⟨r₀, hr₀, hout⟩
  · exact forkCompletedSince_iff.2 ⟨r, hr, hsess, hfork,
      hsettled r hr hterm, t, ht, hle⟩
  · -- a row as terminal before is not newly terminal
    simp only [SpawnRec.outcome, Prod.mk.injEq] at hout
    have hfind : s.spawns.find? r.key = some r₀ :=
      s.spawns.find?_eq_some_iff.2 ⟨hr₀, hout.1⟩
    rw [hfind, Option.any_some, hout.2.2.2, hterm] at hnew
    cases hnew

/-- A section that does not close the session shows what was completed
before and what it marks. -/
theorem completedSince_run_iff {k : Nat} {now : Int} {d : Daemon}
    (x : Section) (h : d.store.Settled) {a f : String} {since : Int}
    (hopen : .closed a ∉ (x.run k now d).2.2) :
    (x.run k now d).1.forkCompletedSince a f since = true
      ↔ d.store.forkCompletedSince a f since = true
        ∨ ∃ o ∈ (x.run k now d).2.2, CompletesSince a f since o := by
  refine ⟨completedSince_run x h, ?_⟩
  have unmarked : (x.run k now d).1.spawns = d.store.spawns →
      (∀ o ∈ (x.run k now d).2.2, ¬CompletesSince a f since o) →
      (d.store.forkCompletedSince a f since = true
        ∨ ∃ o ∈ (x.run k now d).2.2, CompletesSince a f since o) →
      (x.run k now d).1.forkCompletedSince a f since = true := by
    intro hs hno hc
    rw [Store.forkCompletedSince, hs]
    exact hc.resolve_right fun ⟨o, ho, hsince⟩ => hno o ho hsince
  cases hcloses : x.closes with
  | true =>
      obtain ⟨ids, hs, hobs⟩ := closes_run k now d hcloses
      rw [hobs] at hopen ⊢
      rintro (hc | ⟨o, ho, hsince⟩)
      · obtain ⟨r, hr, hsess, hrest⟩ := forkCompletedSince_iff.1 hc
        rw [hs]
        refine forkCompletedSince_iff.2 ⟨r, ?_, hsess, hrest⟩
        rw [mem_spawns_closeSessions, hsess]
        exact ⟨hr, by simpa using hopen⟩
      · simp only [List.mem_reverse, List.mem_map] at ho
        obtain ⟨b, -, rfl⟩ := ho
        cases hsince
  | false =>
      cases x with
      | classify ev t =>
          have hsettled := evolves_classifyNotification d.store ev t h
          rintro (hc | ⟨o, ho, hsince⟩)
          · exact completed_of_keeps hsettled.2 hc
          · exact completed_of_marks hsettled.1
              (dated_classifyNotification d.store ev t) ho hsince
      | ingest sessionId delta t =>
          have hsettled := evolves_applyDelta d.store sessionId delta t h
          rintro (hc | ⟨o, ho, hsince⟩)
          · exact completed_of_keeps hsettled.2 hc
          · exact completed_of_marks hsettled.1
              (dated_applyDelta d.store sessionId delta t) ho hsince
      | close sessionId | closeIfOpen sessionId => cases hcloses
      | prune t => cases hcloses
      | _ =>
          exact unmarked (spawns_same (by simp) (by simp) hcloses)
            (by simp [Section.run, CompletesSince])

end Autofork
