/-
Pruning closes what `status` marks.

Both read the same list of open sessions and judge each by the same
heuristic, which looks at nothing a close changes: deciding session by
session while closing them is deciding all of them first. What closing a
set of sessions does to each table is written out in
`closesAll_closeSessions`; the frame is read off it.
-/
import Autofork.Proofs.Sections
import Autofork.Status

namespace Autofork

open Lib

-- ============================================================= closing

/-- A session's row once the sessions `ids` are closed. -/
def closedAmong (ids : List String) (r : SessionRec) : SessionRec :=
  if r.sessionId ∈ ids then { r with status := .closed } else r

@[simp] theorem closedAmong_sessionId (ids : List String) (r : SessionRec) :
    (closedAmong ids r).sessionId = r.sessionId := by
  unfold closedAmong
  split <;> rfl

/-- Closing sessions closes their rows and deletes the others' of theirs,
table by table. -/
structure ClosesAll (ids : List String) (s s' : Store) : Prop where
  sessions : s'.sessions.rows = s.sessions.rows.map (closedAmong ids)
  roster : s'.roster.rows = s.roster.rows.filter fun r => r.sessionId ∉ ids
  fires : s'.fires.rows = s.fires.rows.filter fun r => r.sessionId ∉ ids
  spawns : s'.spawns.rows = s.spawns.rows.filter fun r => r.sessionId ∉ ids
  pending : s'.pending.rows = s.pending.rows.filter fun r => r.sessionId ∉ ids
  runs : s'.runs = s.runs

private theorem filter_not_mem_cons {ρ : Type} (f : ρ → String) (id : String)
    (ids : List String) (l : List ρ) :
    (l.filter fun r => !(f r == id)).filter (fun r => f r ∉ ids)
      = l.filter fun r => f r ∉ id :: ids := by
  rw [List.filter_filter]
  refine List.filter_congr fun r _ => ?_
  by_cases hr : f r = id
  · simp [hr]
  · simp [hr]

theorem closesAll_closeSessions (ids : List String) (s : Store) :
    ClosesAll ids s (ids.foldl Store.closeSession s) := by
  induction ids generalizing s with
  | nil =>
      have hid : closedAmong [] = id := by
        funext r
        simp [closedAmong]
      constructor <;> simp [hid]
  | cons id ids ih =>
      have h := ih (s.closeSession id)
      constructor
      · rw [List.foldl_cons, h.sessions]
        show (s.sessions.rows.map _).map _ = _
        rw [List.map_map]
        refine List.map_congr_left fun r _ => ?_
        unfold closedAmong
        by_cases hr : r.sessionId = id
        · by_cases hmem : id ∈ ids
          · simp [hr, hmem]
          · simp [hr, hmem]
        · simp [hr]
      · rw [List.foldl_cons, h.roster]
        exact filter_not_mem_cons ..
      · rw [List.foldl_cons, h.fires]
        exact filter_not_mem_cons ..
      · rw [List.foldl_cons, h.spawns]
        exact filter_not_mem_cons ..
      · rw [List.foldl_cons, h.pending]
        exact filter_not_mem_cons ..
      · rw [List.foldl_cons, h.runs]
        rfl

/-- A session that is not among them keeps its row, and all its rows of
the other tables. -/
theorem ClosesAll.frame {ids : List String} {s s' : Store}
    (h : ClosesAll ids s s') {a : String} (ha : a ∉ ids) :
    s'.sessions.rows.filter (fun r => r.sessionId == a)
        = s.sessions.rows.filter (fun r => r.sessionId == a)
      ∧ s'.roster.rows.filter (fun r => r.sessionId == a)
        = s.roster.rows.filter (fun r => r.sessionId == a)
      ∧ s'.fires.rows.filter (fun r => r.sessionId == a)
        = s.fires.rows.filter (fun r => r.sessionId == a)
      ∧ s'.spawns.rows.filter (fun r => r.sessionId == a)
        = s.spawns.rows.filter (fun r => r.sessionId == a)
      ∧ s'.pending.rows.filter (fun r => r.sessionId == a)
        = s.pending.rows.filter (fun r => r.sessionId == a) := by
  have hfilter : ∀ {ρ : Type} (f : ρ → String) (l : List ρ),
      (l.filter fun r => f r ∉ ids).filter (fun r => f r == a)
        = l.filter fun r => f r == a := by
    intro ρ f l
    rw [List.filter_filter]
    refine List.filter_congr fun r _ => ?_
    by_cases hr : f r = a
    · simp [hr, ha]
    · simp [hr]
  refine ⟨?_, ?_, ?_, ?_, ?_⟩
  · rw [h.sessions, List.filter_map]
    have hsame : ∀ r ∈ s.sessions.rows.filter (fun r => r.sessionId == a),
        closedAmong ids r = r := by
      intro r hr
      have hr' : r.sessionId = a := by simpa using (List.mem_filter.1 hr).2
      unfold closedAmong
      rw [if_neg (hr' ▸ ha)]
    have hcomp : ((fun r : SessionRec => r.sessionId == a) ∘ closedAmong ids)
        = fun r => r.sessionId == a := by
      funext r
      simp
    rw [hcomp, List.map_congr_left hsame, List.map_id']
  · rw [h.roster, hfilter]
  · rw [h.fires, hfilter]
  · rw [h.spawns, hfilter]
  · rw [h.pending, hfilter]

-- ============================================================= pruning

/-- The sessions `prune` closes. -/
def staleSessions (d : Daemon) (t : Int) : List SessionRow :=
  d.store.listOpenSessions.filter (isStale d · t)

/-- How a pruned session is reported. -/
def prunedInfo (s : SessionRow) : SessionInfo where
  sessionId := s.sessionId
  projectRoot := s.projectRoot
  status := "closed"
  lastActivity := s.lastActivity
  promptTokens := s.promptTokens
  stale := true

/-- A `prune` that reads the clock at `t`, with nothing in between. -/
def pruneAt (k : Nat) (t : Int) (d : Daemon) :
    Option (Daemon × ResponseBody) :=
  handlePrune.alone (fun op d => exec k op { now := t } d) d

theorem pruneAt_eq (k : Nat) (t : Int) (d : Daemon) :
    ∃ log, pruneAt k t d = some
      ({ d with
          store := ((staleSessions d t).map SessionRow.sessionId).foldl
            Store.closeSession d.store
          log },
        .pruned ((staleSessions d t).map prunedInfo)) := by
  rw [List.foldl_map]
  exact ⟨_, rfl⟩

/-- The open sessions after closing some are the others. -/
private theorem mem_listOpenSessions_closes {ids : List String} {s s' : Store}
    (h : ClosesAll ids s s') {x : SessionRow} (hx : x ∈ s'.listOpenSessions) :
    x ∈ s.listOpenSessions ∧ x.sessionId ∉ ids := by
  obtain ⟨r', hr', rfl⟩ := List.mem_map.1 hx
  rw [Table.mem_orderBy, h.sessions] at hr'
  obtain ⟨hr', hopen⟩ := hr'
  obtain ⟨r, hr, rfl⟩ := List.mem_map.1 hr'
  unfold closedAmong at hopen ⊢
  split at hopen
  · cases hopen
  next hmem =>
    rw [if_neg hmem]
    refine ⟨List.mem_map_of_mem ?_, hmem⟩
    rw [Table.mem_orderBy]
    exact ⟨hr, hopen⟩

/-- Each open session is listed once. -/
theorem nodup_listOpenSessions (s : Store) :
    (s.listOpenSessions.map SessionRow.sessionId).Nodup := by
  unfold Store.listOpenSessions
  rw [List.map_map]
  exact s.sessions.nodup_orderBy _ _

private theorem nodup_staleSessions (d : Daemon) (t : Int) :
    ((staleSessions d t).map SessionRow.sessionId).Nodup :=
  (List.Sublist.map _ List.filter_sublist).nodup (nodup_listOpenSessions d.store)

/-- Pruning closes and reports exactly the sessions `status` marks stale
at that instant, each once and none with a parked poll; it leaves the
rows of every other session and every run as they were; and pruning
again at the same instant closes nothing. -/
theorem prune_exact (d : Daemon) (k pid : Nat) (t : Int) :
    ∃ d' reported, pruneAt k t d = some (d', .pruned reported)
      ∧ reported = ((statusAt d pid t).sessions.filter SessionInfo.stale).map
        (fun x => { x with status := "closed" })
      ∧ (reported.map SessionInfo.sessionId).Nodup
      ∧ (∀ x ∈ reported, d.isParked x.sessionId = false)
      ∧ ClosesAll (reported.map SessionInfo.sessionId) d.store d'.store
      ∧ (∀ a ∉ reported.map SessionInfo.sessionId,
        d'.store.sessions.rows.filter (fun r => r.sessionId == a)
            = d.store.sessions.rows.filter (fun r => r.sessionId == a)
          ∧ d'.store.roster.rows.filter (fun r => r.sessionId == a)
            = d.store.roster.rows.filter (fun r => r.sessionId == a)
          ∧ d'.store.fires.rows.filter (fun r => r.sessionId == a)
            = d.store.fires.rows.filter (fun r => r.sessionId == a)
          ∧ d'.store.spawns.rows.filter (fun r => r.sessionId == a)
            = d.store.spawns.rows.filter (fun r => r.sessionId == a)
          ∧ d'.store.pending.rows.filter (fun r => r.sessionId == a)
            = d.store.pending.rows.filter (fun r => r.sessionId == a))
      ∧ d'.store.runs = d.store.runs
      ∧ ∃ d'', pruneAt k t d' = some (d'', .pruned [])
        ∧ d''.store = d'.store := by
  obtain ⟨log, hprune⟩ := pruneAt_eq k t d
  have hids : ((staleSessions d t).map prunedInfo).map SessionInfo.sessionId
      = (staleSessions d t).map SessionRow.sessionId := by
    rw [List.map_map]
    rfl
  have hcloses := closesAll_closeSessions
    ((staleSessions d t).map SessionRow.sessionId) d.store
  refine ⟨_, _, hprune, ?_, ?_, ?_, ?_, ?_, hcloses.runs, ?_⟩
  · -- the flagged sessions of the status, in its order
    unfold statusAt staleSessions
    rw [List.filter_map, List.map_map]
    have hflag : (SessionInfo.stale ∘ fun s : SessionRow =>
        ({ sessionId := s.sessionId
           projectRoot := s.projectRoot
           status := s.status.asStr
           lastActivity := s.lastActivity
           promptTokens := s.promptTokens
           stale := isStale d s t } : SessionInfo)) = fun s => isStale d s t :=
      rfl
    rw [hflag]
    refine List.map_congr_left fun s hs => ?_
    have hstale := (List.mem_filter.1 hs).2
    simp only [Function.comp_apply, prunedInfo, hstale]
  · rw [hids]
    exact nodup_staleSessions d t
  · intro x hx
    obtain ⟨s, hs, rfl⟩ := List.mem_map.1 hx
    have hstale := (List.mem_filter.1 hs).2
    unfold isStale at hstale
    simp only [Bool.and_eq_true, Bool.not_eq_true'] at hstale
    exact hstale.1.1
  · rw [hids]
    exact hcloses
  · rw [hids]
    exact fun a ha => hcloses.frame ha
  · -- whatever is open still was not stale before, and nothing that the
    -- heuristic reads has changed
    obtain ⟨log', hagain⟩ := pruneAt_eq k t
      { d with
        store := ((staleSessions d t).map SessionRow.sessionId).foldl
          Store.closeSession d.store
        log }
    have hnone : staleSessions
        { d with
          store := ((staleSessions d t).map SessionRow.sessionId).foldl
            Store.closeSession d.store
          log } t = [] := by
      refine List.filter_eq_nil_iff.2 fun x hx hstale => ?_
      obtain ⟨hopen, hnot⟩ := mem_listOpenSessions_closes hcloses hx
      exact hnot (List.mem_map_of_mem (List.mem_filter.2 ⟨hopen, hstale⟩))
    rw [hnone] at hagain
    exact ⟨_, hagain, rfl⟩

end Autofork
