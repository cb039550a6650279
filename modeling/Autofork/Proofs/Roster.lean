/-
Selection against discovery, over a session's whole life.

A selection discovers the forks anew, but what it evaluates are the rows
of the roster, and a row keeps the path it was queued with
(`reads_selectForks`). Rows are queued by selections only and stay while
the session is open, so that a call evaluates what it has discovered
exactly when no call has discovered the name elsewhere
(`selection_follows_iff`).
-/
import Autofork.Proofs.Discovered
import Autofork.Proofs.Select

namespace Autofork

open Lib

-- ======================================================= one session

/-- A call of `select_forks`, as request `k`, at one clock reading. -/
structure Call where
  k : Nat
  now : Int
  session : SessionRow
  cfg : Config
  moments : List ForkMoment

def Call.program (c : Call) : Handler (List SelectedFork) :=
  selectForks c.session c.cfg c.moments

/-- What happens while a session is open. -/
inductive Turn
  /-- The files change. -/
  | edit (fs : Files)
  /-- A section of the store lock, of any handler. -/
  | other (k : Nat) (now : Int) (x : Section)
  | select (c : Call)

/-- One turn. -/
def turn (userForksRoot : Path) (d : Daemon) : Turn → Daemon
  | .edit fs => { d with disk := d.disk.withFiles fs userForksRoot }
  | .other k now x =>
      { d with
        store := (x.run k now d).1
        log := (x.run k now d).2.2 ++ d.log }
  | .select c =>
      ((c.program.alone (at_ c.k c.now) d).map Prod.fst).getD d

/-- A turn in which session `a` stays open, and only selections queue
its forks. -/
def Turn.OfSession (a : String) (d : Daemon) : Turn → Prop
  | .edit _ => True
  | .other k now x => (∀ entries, x ≠ .queue a entries)
      ∧ Obs.closed a ∉ (x.run k now d).2.2
  | .select c => c.session.sessionId = a

/-- The forks a turn discovers. -/
def Turn.found (d : Daemon) : Turn → List ForkEntry
  | .select c => d.disk.discover c.session.cwd
  | _ => []

/-- The forks that the calls of a history discover. -/
def foundIn (userForksRoot : Path) : Daemon → List Turn → List ForkEntry
  | _, [] => []
  | d, x :: xs => x.found d ++ foundIn userForksRoot (turn userForksRoot d x) xs

/-- The roster entry whose file an operation reads, and the definition it
finds there. -/
def readOf : (op : Op) × op.Res → Option (RosterEntry × Option ForkDef)
  | ⟨.readFork entry, fork⟩ => some (entry, fork)
  | _ => none

/-- What a call evaluates. -/
def Call.evaluated (c : Call) (d : Daemon) :
    List (RosterEntry × Option ForkDef) :=
  (c.program.trace (at_ c.k c.now) d).filterMap readOf

/-- A call follows discovery: every fork discovered now is evaluated, and
under its name nothing but the definition at its path. -/
def Call.Follows (c : Call) (d : Daemon) : Prop :=
  ∀ e ∈ d.disk.discover c.session.cwd,
    (∃ r ∈ c.evaluated d, r.1.forkName = e.name)
      ∧ ∀ r ∈ c.evaluated d, r.1.forkName = e.name →
        r.1.forkPath = e.path ∧ r.2 = some e.parsed.def

def Turn.Follows (d : Daemon) : Turn → Prop
  | .select c => c.Follows d
  | _ => True

-- ================================================== what a call reads

private theorem go_alone {k : Nat} {t : Int} {d : Daemon} {op : Op} {d' : Daemon} {r : op.Res}
    (h : exec k op { now := t } d = some (d', r)) :
    op.go.alone (at_ k t) d = some (d', r)
      ∧ op.go.trace (at_ k t) d = [⟨op, r⟩] := by
  constructor
  · simp only [Op.go, Prog.perform, Prog.alone, at_, h]
  · simp only [Op.go, Prog.perform, Prog.trace, at_, h]

section
variable (k : Nat) (t : Int) (d : Daemon) (session : SessionRow)

/-- The check of the latch reads no file. -/
private theorem considerLatch_reads (entry : RosterEntry) (fork : ForkDef)
    (trigger : ForkRunOn) :
    ∃ sel, (considerLatch session entry fork trigger).alone (at_ k t) d
        = some (d, sel)
      ∧ ((considerLatch session entry fork trigger).trace (at_ k t) d).filterMap
        readOf = [] := by
  unfold considerLatch
  cases latchKeyFor trigger session.pauseEpoch with
  | none => exact ⟨_, rfl, rfl⟩
  | some key =>
      dsimp only
      have hop : exec k (.isLatched session.sessionId entry.forkName key)
          { now := t } d = some (d, d.store.isLatched session.sessionId
            entry.forkName key) := rfl
      obtain ⟨halone, htrace⟩ := go_alone hop
      rw [Prog.alone_bind_of halone, Prog.trace_bind_of halone, htrace]
      split
      · exact ⟨_, rfl, rfl⟩
      · exact ⟨_, rfl, rfl⟩

variable (cfg : Config) (moments : List ForkMoment)

/-- A turn of the loop reads its own entry's file. -/
private theorem considerFork_reads (entry : RosterEntry) :
    ∃ sel, (considerFork session cfg moments t entry).alone (at_ k t) d
        = some (d, sel)
      ∧ ((considerFork session cfg moments t entry).trace (at_ k t)
        d).filterMap readOf = [(entry, d.disk.forkAt entry)] := by
  unfold considerFork
  have hop : exec k (.readFork entry) { now := t } d
      = some (d, d.disk.forkAt entry) := rfl
  obtain ⟨halone, htrace⟩ := go_alone hop
  rw [Prog.alone_bind_of halone, Prog.trace_bind_of halone, htrace]
  cases hfork : d.disk.forkAt entry with
  | none => exact ⟨_, rfl, rfl⟩
  | some fork =>
      dsimp only
      cases dueBy session cfg moments t entry fork with
      | none => exact ⟨_, rfl, rfl⟩
      | some trigger =>
          dsimp only
          obtain ⟨sel, hlatch, hreads⟩ :=
            considerLatch_reads k t d session entry fork trigger
          split
          · refine ⟨sel, hlatch, ?_⟩
            rw [List.filterMap_append, hreads]
            rfl
          · have hthrottle : exec k (.tagThrottled session.projectRoot
                cfg.tagThrottles fork.tags t) { now := t } d
                  = some (d, tagThrottled d.store session.projectRoot
                    cfg.tagThrottles fork.tags t) := rfl
            obtain ⟨halone, htrace⟩ := go_alone hthrottle
            rw [Prog.alone_bind_of halone, Prog.trace_bind_of halone, htrace]
            split
            · exact ⟨_, rfl, rfl⟩
            · refine ⟨sel, hlatch, ?_⟩
              rw [List.filterMap_append, List.filterMap_append, hreads]
              rfl

private theorem considerAll_reads (roster : List RosterEntry) :
    ∃ sel, (considerAll session cfg moments t roster).alone (at_ k t) d
        = some (d, sel)
      ∧ ((considerAll session cfg moments t roster).trace (at_ k t)
        d).filterMap readOf = roster.map fun r => (r, d.disk.forkAt r) := by
  induction roster with
  | nil => exact ⟨_, rfl, rfl⟩
  | cons entry roster ih =>
      obtain ⟨x, hx, hxreads⟩ :=
        considerFork_reads k t d session cfg moments entry
      obtain ⟨rest, hrest, hreads⟩ := ih
      unfold considerAll
      rw [Prog.alone_bind_of hx, Prog.trace_bind_of hx,
        Prog.alone_bind_of hrest, Prog.trace_bind_of hrest]
      refine ⟨_, rfl, ?_⟩
      rw [List.filterMap_append, List.filterMap_append, hxreads, hreads]
      exact congrArg _ (List.append_nil _)

end

/-- A call queues what it discovers, and evaluates the roster it then
has. -/
theorem reads_selectForks (c : Call) (d : Daemon) :
    ∃ d' sel, c.program.alone (at_ c.k c.now) d = some (d', sel)
      ∧ d'.store = d.store.queueForks c.session.sessionId
        (d.disk.discover c.session.cwd) c.now
      ∧ d'.disk = d.disk
      ∧ c.evaluated d = (d'.store.rosterOf c.session.sessionId).map
        fun r => (r, d.disk.forkAt r) := by
  obtain ⟨k, now, session, cfg, moments⟩ := c
  let queued := d.store.queueForks session.sessionId
    (d.disk.discover session.cwd) now
  have hdiscover : exec k (.discover session.cwd) { now } d
      = some (d, d.disk.discover session.cwd) := rfl
  have hqueue : exec k (.write (.queue session.sessionId
      (d.disk.discover session.cwd))) { now } d
        = some ({ d with store := queued }, ()) := rfl
  have hrefresh : (refreshRoster session.sessionId session.cwd).alone
        (at_ k now) d = some ({ d with store := queued }, ())
      ∧ ((refreshRoster session.sessionId session.cwd).trace (at_ k now)
        d).filterMap readOf = [] := by
    unfold refreshRoster
    rw [Prog.alone_bind_of (go_alone hdiscover).1,
      Prog.trace_bind_of (go_alone hdiscover).1, (go_alone hdiscover).2,
      (go_alone hqueue).1, (go_alone hqueue).2]
    exact ⟨rfl, rfl⟩
  have hroster : exec k (.roster session.sessionId) { now }
      { d with store := queued } = some ({ d with store := queued },
        queued.rosterOf session.sessionId) := rfl
  have hnow : exec k .now { now } { d with store := queued }
      = some ({ d with store := queued, log := .clock k now :: d.log }, now) :=
    rfl
  obtain ⟨sel, hall, hreads⟩ := considerAll_reads k now
    { d with store := queued, log := .clock k now :: d.log } session cfg
    moments (queued.rosterOf session.sessionId)
  have halone : (selectForks session cfg moments).alone (at_ k now) d
      = some ({ d with store := queued, log := .clock k now :: d.log }, sel) := by
    unfold selectForks
    rw [Prog.alone_bind_of hrefresh.1, Prog.alone_bind_of (go_alone hroster).1,
      Prog.alone_bind_of (go_alone hnow).1]
    exact hall
  refine ⟨_, sel, halone, rfl, rfl, ?_⟩
  show ((selectForks session cfg moments).trace (at_ k now) d).filterMap
    readOf = _
  unfold selectForks
  rw [Prog.trace_bind_of hrefresh.1, Prog.trace_bind_of (go_alone hroster).1,
    Prog.trace_bind_of (go_alone hnow).1, (go_alone hroster).2,
    (go_alone hnow).2, List.filterMap_append, List.filterMap_append,
    List.filterMap_append, hrefresh.2, hreads]
  rfl

-- ==================================================== paths in the roster

/-- The session's roster has the fork at this path. -/
def Store.RosteredAt (s : Store) (a name : String) (path : Path) : Prop :=
  ∃ r ∈ s.roster.rows, r.sessionId = a ∧ r.forkName = name
    ∧ r.forkPath = path

theorem Store.RosteredAt.unique {s : Store} {a name : String}
    {path path' : Path} (h : s.RosteredAt a name path)
    (h' : s.RosteredAt a name path') : path = path' := by
  obtain ⟨r, hr, hsession, hname, rfl⟩ := h
  obtain ⟨r', hr', hsession', hname', rfl⟩ := h'
  have hkey : r.key = r'.key := by
    unfold RosterEntry.key
    rw [hsession, hname, hsession', hname']
  rw [s.roster.eq_of_key_eq hr hr' hkey]

/-- Queueing adds entries under new names only, and every entry's name is
there afterwards. -/
private theorem rosteredAt_queueForks (s : Store) (sessionId : String)
    (entries : List ForkEntry) (t : Int) (a name : String) :
    (∀ path, s.RosteredAt a name path →
        (s.queueForks sessionId entries t).RosteredAt a name path)
      ∧ (∀ path, (s.queueForks sessionId entries t).RosteredAt a name path →
        s.RosteredAt a name path
          ∨ sessionId = a ∧ ∃ e ∈ entries, e.name = name ∧ e.path = path)
      ∧ (sessionId = a → ∀ e ∈ entries, e.name = name →
        ∃ path, (s.queueForks sessionId entries t).RosteredAt a name path) := by
  induction entries generalizing s with
  | nil => exact ⟨fun _ => id, fun _ => Or.inl, fun _ e he => nomatch he⟩
  | cons e es ih =>
      obtain ⟨hkept, hfrom, hhas⟩ := ih (s.queueFork sessionId e.name e.path t)
      have hrow : ∀ r, r ∈ (s.queueFork sessionId e.name e.path t).roster.rows
          ↔ r ∈ s.roster.rows ∨ (r = { sessionId, forkName := e.name
                                       forkPath := e.path, queuedAt := t
                                       ranAt := none }
            ∧ ∀ y ∈ s.roster.rows, y.key ≠ (sessionId, e.name)) :=
        fun r => Table.mem_insertOrIgnore _
      have hone : ∀ path, s.RosteredAt a name path →
          (s.queueFork sessionId e.name e.path t).RosteredAt a name path := by
        rintro path ⟨r, hr, h⟩
        exact ⟨r, (hrow r).2 (Or.inl hr), h⟩
      refine ⟨fun path h => hkept path (hone path h), fun path h => ?_, ?_⟩
      · rcases hfrom path h with ⟨r, hr, hsession, hname, hpath⟩ | ⟨ha, e', he', h⟩
        · rcases (hrow r).1 hr with hr | ⟨rfl, -⟩
          · exact Or.inl ⟨r, hr, hsession, hname, hpath⟩
          · exact Or.inr ⟨hsession, e, List.mem_cons_self, hname, hpath⟩
        · exact Or.inr ⟨ha, e', List.mem_cons_of_mem _ he', h⟩
      · rintro ha e' he' hname
        rcases List.mem_cons.1 he' with rfl | he'
        · by_cases hthere : ∃ y ∈ s.roster.rows, y.key = (sessionId, e'.name)
          · obtain ⟨y, hy, hkey⟩ := hthere
            have hparts := Prod.mk.inj hkey
            refine ⟨y.forkPath, hkept _ (hone _ ⟨y, hy, ?_, ?_, rfl⟩)⟩
            · exact hparts.1.trans ha
            · exact hparts.2.trans hname
          · push Not at hthere
            exact ⟨e'.path, hkept _
              ⟨_, (hrow _).2 (Or.inr ⟨rfl, hthere⟩), ha, hname, rfl⟩⟩
        · exact hhas ha e' he' hname

private theorem rosteredAt_stampWake (s : Store) (session : SessionRow)
    (selected : List SelectedFork) (t : Int) (issue : Nat) (a name : String)
    (path : Path) :
    (s.stampWake session selected t issue).RosteredAt a name path
      ↔ s.RosteredAt a name path := by
  have hsame : ∀ r, (stampedRow session (selected.map SelectedFork.name) t
        r).sessionId = r.sessionId
      ∧ (stampedRow session (selected.map SelectedFork.name) t r).forkName
        = r.forkName
      ∧ (stampedRow session (selected.map SelectedFork.name) t r).forkPath
        = r.forkPath := by
    intro r
    unfold stampedRow
    split <;> exact ⟨rfl, rfl, rfl⟩
  unfold Store.RosteredAt
  rw [roster_stampWake]
  constructor
  · rintro ⟨r, hr, h⟩
    obtain ⟨r', hr', rfl⟩ := List.mem_map.1 hr
    rw [(hsame r').1, (hsame r').2.1, (hsame r').2.2] at h
    exact ⟨r', hr', h⟩
  · rintro ⟨r, hr, h⟩
    refine ⟨_, List.mem_map_of_mem hr, ?_⟩
    rw [(hsame r).1, (hsame r).2.1, (hsame r).2.2]
    exact h

/-- No other section touches the session's paths while it stays open. -/
private theorem rosteredAt_run {k : Nat} {now : Int} {d : Daemon}
    {x : Section} {a : String} (hqueue : ∀ entries, x ≠ .queue a entries)
    (hopen : Obs.closed a ∉ (x.run k now d).2.2) (name : String)
    (path : Path) :
    (x.run k now d).1.RosteredAt a name path
      ↔ d.store.RosteredAt a name path := by
  cases hcloses : x.closes with
  | true =>
      obtain ⟨ids, hs, hobs⟩ := closes_run k now d hcloses
      have ha : a ∉ ids := by
        rw [hobs] at hopen
        simpa using hopen
      rw [hs]
      unfold Store.RosteredAt
      simp only [mem_roster_closeSessions]
      constructor
      · rintro ⟨r, ⟨hr, -⟩, h⟩
        exact ⟨r, hr, h⟩
      · rintro ⟨r, hr, h⟩
        exact ⟨r, ⟨hr, h.1 ▸ ha⟩, h⟩
  | false =>
      cases x with
      | stamp session selected t => exact rosteredAt_stampWake _ _ _ _ _ _ _ _
      | queue sessionId entries =>
          obtain ⟨hkept, hfrom, -⟩ := rosteredAt_queueForks d.store sessionId
            entries now a name
          refine ⟨fun h => ?_, hkept path⟩
          rcases hfrom path h with h | ⟨rfl, -⟩
          · exact h
          · exact absurd rfl (hqueue entries)
      | _ =>
          unfold Store.RosteredAt
          rw [roster_same (by simp) (by simp) hcloses]

-- ============================================================ one turn

/-- The disk shows the forks of some files. -/
def Daemon.Sees (userForksRoot : Path) (d : Daemon) : Prop :=
  ∃ (fs : Files) (disk : Disk), d.disk = disk.withFiles fs userForksRoot

/-- What is discovered is there: its path reads as its definition, and it
alone has its name. -/
private theorem forkAt_discovered {userForksRoot : Path} {d : Daemon}
    (hd : d.Sees userForksRoot) {dir : Path} {e : ForkEntry}
    (he : e ∈ d.disk.discover dir) {r : RosterEntry}
    (hname : r.forkName = e.name) (hpath : r.forkPath = e.path) :
    d.disk.forkAt r = some e.parsed.def := by
  obtain ⟨fs, disk, hdisk⟩ := hd
  rw [hdisk] at he ⊢
  obtain ⟨f, hf, rfl⟩ := List.mem_map.1 he
  obtain ⟨-, -, hmem, -⟩ :=
    discovery_eq_reference fs (forkRoots fs dir (some userForksRoot))
  have hvalid : f ∈ (candidatesOf fs (forkRoots fs dir
      (some userForksRoot))).filterMap (validFork fs) := by
    obtain ⟨before, after, heq, -⟩ := (hmem f).1 hf
    show f ∈ List.filterMap _ _
    rw [heq]
    exact List.mem_append_right _ List.mem_cons_self
  obtain ⟨c, -, hc⟩ := List.mem_filterMap.1 hvalid
  unfold validFork at hc
  cases hread : fs.readToString c.path with
  | error err => simp [hread] at hc
  | ok content =>
      cases hparse : fs.parseForkFile c.name content with
      | fork parsed =>
          simp only [hread, hparse, Option.some.injEq] at hc
          subst hc
          unfold Disk.forkAt Disk.withFiles
          simp only at hname hpath ⊢
          rw [hname, hpath, hread]
          simp [Except.toOption, hparse]
      | notFork forkLike => simp [hread, hparse] at hc
      | invalid => simp [hread, hparse] at hc

section
variable {userForksRoot : Path} {a : String} {d : Daemon} {x : Turn}

private theorem turn_select {c : Call} {d' : Daemon}
    {sel : List SelectedFork}
    (h : c.program.alone (at_ c.k c.now) d = some (d', sel)) :
    turn userForksRoot d (.select c) = d' := by
  show ((c.program.alone (at_ c.k c.now) d).map Prod.fst).getD d = d'
  rw [h]
  rfl

private theorem sees_turn (hd : d.Sees userForksRoot) :
    (turn userForksRoot d x).Sees userForksRoot := by
  cases x with
  | edit fs => exact ⟨fs, d.disk, rfl⟩
  | other k now x => exact hd
  | select c =>
      obtain ⟨d', sel, halone, -, hdisk, -⟩ := reads_selectForks c d
      obtain ⟨fs, disk, h⟩ := hd
      refine ⟨fs, disk, ?_⟩
      rw [turn_select halone]
      exact hdisk.trans h

/-- A turn keeps the roster's paths, adds only what it discovers, and
leaves every fork it discovers in the roster. -/
private theorem rosteredAt_turn (hx : x.OfSession a d) (name : String) :
    (∀ path, d.store.RosteredAt a name path →
        (turn userForksRoot d x).store.RosteredAt a name path)
      ∧ (∀ path, (turn userForksRoot d x).store.RosteredAt a name path →
        d.store.RosteredAt a name path
          ∨ ∃ e ∈ x.found d, e.name = name ∧ e.path = path)
      ∧ (∀ e ∈ x.found d, e.name = name →
        ∃ path, (turn userForksRoot d x).store.RosteredAt a name path) := by
  cases x with
  | edit fs => exact ⟨fun _ => id, fun _ => Or.inl, fun _ he => nomatch he⟩
  | other k now x =>
      have h := rosteredAt_run hx.1 hx.2 name
      exact ⟨fun path => (h path).2, fun path hp => Or.inl ((h path).1 hp),
        fun _ he => nomatch he⟩
  | select c =>
      obtain ⟨d', sel, halone, hstore, -⟩ := reads_selectForks c d
      have ha : c.session.sessionId = a := hx
      obtain ⟨hkept, hfrom, hhas⟩ := rosteredAt_queueForks d.store
        c.session.sessionId (d.disk.discover c.session.cwd) c.now a name
      rw [turn_select halone, hstore]
      refine ⟨hkept, fun path h => ?_, hhas ha⟩
      exact (hfrom path h).imp_right And.right

/-- A call follows discovery exactly when the roster it leaves has every
fork where discovery has it. -/
private theorem follows_iff (hd : d.Sees userForksRoot)
    (hx : x.OfSession a d) :
    x.Follows d ↔ ∀ e ∈ x.found d,
      (turn userForksRoot d x).store.RosteredAt a e.name e.path := by
  cases x with
  | edit fs => exact iff_of_true trivial fun _ he => nomatch he
  | other k now x => exact iff_of_true trivial fun _ he => nomatch he
  | select c =>
      obtain ⟨d', sel, halone, -, -, hreads⟩ := reads_selectForks c d
      have ha : c.session.sessionId = a := hx
      -- what is evaluated under a name is the name's row
      have hmem : ∀ r, r ∈ c.evaluated d
          ↔ (r.1 ∈ d'.store.roster.rows ∧ r.1.sessionId = a)
            ∧ r.2 = d.disk.forkAt r.1 := by
        intro r
        rw [hreads, List.mem_map]
        unfold Store.rosterOf
        simp only [Table.mem_orderBy, beq_iff_eq, ha]
        constructor
        · rintro ⟨r, h, rfl⟩
          exact ⟨h, rfl⟩
        · rintro ⟨h, h'⟩
          exact ⟨r.1, h, by rw [← h']⟩
      rw [turn_select halone]
      refine forall₂_congr fun e he => ?_
      constructor
      · rintro ⟨⟨r, hr, hname⟩, hall⟩
        obtain ⟨⟨hrow, hsession⟩, -⟩ := (hmem r).1 hr
        exact ⟨r.1, hrow, hsession, hname, (hall r hr hname).1⟩
      · intro h
        obtain ⟨r, hr, hsession, hname, hpath⟩ := h
        refine ⟨⟨(r, d.disk.forkAt r), (hmem _).2 ⟨⟨hr, hsession⟩, rfl⟩,
          hname⟩, fun r' hr' hname' => ?_⟩
        obtain ⟨⟨hrow, hsession'⟩, hfork⟩ := (hmem r').1 hr'
        have hpath' : r'.1.forkPath = e.path :=
          Store.RosteredAt.unique ⟨r'.1, hrow, hsession', hname', rfl⟩
            ⟨r, hr, hsession, hname, hpath⟩
        refine ⟨hpath', ?_⟩
        rw [hfork]
        exact forkAt_discovered hd he hname' hpath'

end

-- ============================================================= histories

section
variable {userForksRoot : Path} {a : String}

/-- When every call follows discovery, the roster ends with every fork
where it was discovered. -/
private theorem rosteredAt_found {ts : List Turn} {d : Daemon}
    (hd : d.Sees userForksRoot)
    (hopen : Along (turn userForksRoot) (fun d x => x.OfSession a d) d ts)
    (h : Along (turn userForksRoot) (fun d x => x.Follows d) d ts) :
    ∀ e, (e ∈ foundIn userForksRoot d ts
        ∨ d.store.RosteredAt a e.name e.path) →
      (run (turn userForksRoot) d ts).store.RosteredAt a e.name e.path := by
  induction ts generalizing d with
  | nil =>
      rintro e (he | he)
      · cases he
      · exact he
  | cons x ts ih =>
      obtain ⟨hx, hopen⟩ := hopen
      obtain ⟨hfollows, h⟩ := h
      intro e he
      refine ih (sees_turn hd) hopen h e ?_
      rcases he with he | he
      · rcases List.mem_append.1 he with he | he
        · exact Or.inr ((follows_iff hd hx).1 hfollows e he)
        · exact Or.inl he
      · exact Or.inr ((rosteredAt_turn hx e.name).1 e.path he)

/-- Where no name is discovered at two paths, every call follows
discovery: `P` says which path is a name's. -/
private theorem follows_of_one_path {P : String → Path → Prop}
    (hone : ∀ name path path', P name path → P name path' → path = path')
    {ts : List Turn} {d : Daemon} (hd : d.Sees userForksRoot)
    (hopen : Along (turn userForksRoot) (fun d x => x.OfSession a d) d ts)
    (hroster : ∀ name path, d.store.RosteredAt a name path → P name path)
    (hfound : ∀ e ∈ foundIn userForksRoot d ts, P e.name e.path) :
    Along (turn userForksRoot) (fun d x => x.Follows d) d ts := by
  induction ts generalizing d with
  | nil => trivial
  | cons x ts ih =>
      obtain ⟨hx, hopen⟩ := hopen
      have hnext : ∀ name path,
          (turn userForksRoot d x).store.RosteredAt a name path →
            P name path := by
        intro name path h
        rcases (rosteredAt_turn hx name).2.1 path h with h | ⟨e, he, rfl, rfl⟩
        · exact hroster name path h
        · exact hfound e (List.mem_append_left _ he)
      refine ⟨(follows_iff hd hx).2 fun e he => ?_,
        ih (sees_turn hd) hopen hnext fun e he =>
          hfound e (List.mem_append_right _ he)⟩
      obtain ⟨path, hpath⟩ := (rosteredAt_turn hx e.name).2.2 e he rfl
      have heq : path = e.path := hone e.name path e.path
        (hnext e.name path hpath) (hfound e (List.mem_append_left _ he))
      exact heq ▸ hpath

/-- In a session that begins with no roster, calls that all follow
discovery discover each name at one path. -/
private theorem one_path_of_follows {ts : List Turn} {d : Daemon}
    (hd : d.Sees userForksRoot)
    (hopen : Along (turn userForksRoot) (fun d x => x.OfSession a d) d ts)
    (h : Along (turn userForksRoot) (fun d x => x.Follows d) d ts) :
    ∀ e ∈ foundIn userForksRoot d ts, ∀ e' ∈ foundIn userForksRoot d ts,
      e.name = e'.name → e.path = e'.path := by
  intro e he e' he' hname
  have hend := rosteredAt_found hd hopen h e (Or.inl he)
  have hend' := rosteredAt_found hd hopen h e' (Or.inl he')
  rw [hname] at hend
  exact hend.unique hend'

end

/-- Over the life of an open session, every call of `select_forks` follows
discovery exactly when no two calls discover a name at two paths. -/
theorem selection_follows_iff (userForksRoot : Path) (a : String)
    {d : Daemon} (hd : d.Sees userForksRoot)
    (hnew : ∀ r ∈ d.store.roster.rows, r.sessionId ≠ a) {ts : List Turn}
    (hopen : Along (turn userForksRoot) (fun d x => x.OfSession a d) d ts) :
    Along (turn userForksRoot) (fun d x => x.Follows d) d ts
      ↔ ∀ e ∈ foundIn userForksRoot d ts, ∀ e' ∈ foundIn userForksRoot d ts,
        e.name = e'.name → e.path = e'.path := by
  refine ⟨one_path_of_follows hd hopen, fun h => ?_⟩
  have hone : ∀ name path path',
      (∃ e ∈ foundIn userForksRoot d ts, e.name = name ∧ e.path = path) →
      (∃ e ∈ foundIn userForksRoot d ts, e.name = name ∧ e.path = path') →
        path = path' := by
    rintro name path path' ⟨e, he, hname, rfl⟩ ⟨e', he', hname', rfl⟩
    exact h e he e' he' (hname.trans hname'.symm)
  refine follows_of_one_path hone hd hopen ?_ ?_
  · rintro name path ⟨r, hr, hsession, -⟩
    exact absurd hsession (hnew r hr)
  · intro e he
    exact ⟨e, he, rfl, rfl⟩

-- ============================================================ a moved file

/-- The files of one root with one fork. -/
private def digestIn (root : Path) (fork : ForkDef) : Files where
  readDir dir := if dir = root then some ["digest.md".toUTF8.toList] else none
  isDir path := decide (path = root)
  isFile path := decide (path = joinPath root "digest.md")
  readToString path :=
    if path = joinPath root "digest.md" then .ok "" else .error "not found"
  canonicalize := some
  parseForkFile _ _ := .fork ⟨fork, "", []⟩

private def polled : Call where
  k := 1
  now := 10
  session :=
    { sessionId := "a", projectRoot := "/p", cwd := "/p"
      transcriptPath := none, status := .open, lastActivity := 0
      transcriptOffset := 0, promptTokens := none, model := none
      createdAt := 0, enableTags := none, disableTags := none
      pauseEpoch := 0, pauseStartedAt := none }
  cfg := {}
  moments := []

private def opened : Daemon where
  disk := (Disk.holding [] {} none).withFiles (digestIn "/u/forks" {}) "/u/forks"

private def started : Turn := .other 0 0 (.start (.simple .sessionStart "a") 0)

/-- A poll, a change of the files, another poll. -/
private def polls (fs : Files) : List Turn :=
  [started, .select polled, .edit fs, .select polled]

private theorem polls_open (fs : Files) :
    Along (turn "/u/forks") (fun d x => x.OfSession "a" d) opened
      (polls fs) :=
  ⟨⟨by simp, List.not_mem_nil⟩, rfl, trivial, rfl, trivial⟩

private theorem found_edited :
    (foundIn "/u/forks" opened
        (polls (digestIn "/u/forks" { overlap := true }))).map
        (fun e => (e.name, e.path))
      = [("digest", "/u/forks/digest.md"), ("digest", "/u/forks/digest.md")] := by
  decide +kernel

private theorem found_moved :
    (foundIn "/u/forks" opened
        (polls (digestIn "/p/.autofork/forks" {}))).map
        (fun e => (e.name, e.path))
      = [("digest", "/u/forks/digest.md"),
        ("digest", "/p/.autofork/forks/digest.md")] := by
  decide +kernel

/-- An edit in place is followed. -/
theorem selection_follows_iff_edited :
    Along (turn "/u/forks") (fun d x => x.Follows d) opened
      (polls (digestIn "/u/forks" { overlap := true })) := by
  refine (selection_follows_iff "/u/forks" "a" ⟨_, _, rfl⟩
    (fun _ hr => absurd hr List.not_mem_nil) (polls_open _)).2 ?_
  have hpath : ∀ e ∈ foundIn "/u/forks" opened
      (polls (digestIn "/u/forks" { overlap := true })),
        e.path = "/u/forks/digest.md" := by
    intro e he
    have hmem := List.mem_map_of_mem (f := fun e => (e.name, e.path)) he
    rw [found_edited] at hmem
    simp only [List.mem_cons, List.not_mem_nil, or_false, or_self,
      Prod.mk.injEq] at hmem
    exact hmem.2
  intro e he e' he' _
  rw [hpath e he, hpath e' he']

/-- A fork whose file is moved from the user's folder to the project's is
not. -/
theorem selection_lags_behind :
    ¬Along (turn "/u/forks") (fun d x => x.Follows d) opened
      (polls (digestIn "/p/.autofork/forks" {})) := by
  intro h
  have hone := one_path_of_follows ⟨_, _, rfl⟩ (polls_open _) h
  have hmem : ∀ p : String × Path, p ∈ [("digest", "/u/forks/digest.md"),
      ("digest", "/p/.autofork/forks/digest.md")] →
        ∃ e ∈ foundIn "/u/forks" opened
          (polls (digestIn "/p/.autofork/forks" {})),
            (e.name, e.path) = p := by
    intro p hp
    rw [← found_moved] at hp
    exact List.mem_map.1 hp
  obtain ⟨e, he, hep⟩ := hmem ("digest", "/u/forks/digest.md") (by simp)
  obtain ⟨e', he', hep'⟩ :=
    hmem ("digest", "/p/.autofork/forks/digest.md") (by simp)
  obtain ⟨hname, hpath⟩ := Prod.mk.inj hep
  obtain ⟨hname', hpath'⟩ := Prod.mk.inj hep'
  have heq := hone e he e' he' (hname.trans hname'.symm)
  rw [hpath, hpath'] at heq
  exact absurd heq (by decide)

end Autofork
