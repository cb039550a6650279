/-
The latches, over whole runs.

`latched_iff_consumed` says what the latch table means in terms of the
run: a latch is taken exactly when a wake that consumes it was issued
and the session has not been closed since. It holds in every
interleaving, because stamping writes the latch and logs the wake in
one section.

# One wake for each latch

Selection reads the latches in one lock acquisition and stamping writes
them in a later one, and stamping does not look at what it overwrites.
So the table itself does not keep two wakes from consuming one latch,
and two polls that overlap do just that (`latch_consumed_twice`).

What keeps them apart is the reading: a poll stamps only latches it has
read free since its last await (`handler_latching`). A latch read free
stays free until somebody stamps it. So if no poll stamps a latch while
another is between its reading of it and its stamping (`latchesApart`),
each latch is free when it is stamped, and consumed by one wake.
-/
import Autofork.Lib.Log
import Autofork.Lib.Typestate
import Autofork.Proofs.Walk

namespace Autofork

open Lib

-- ==================================================== what a latch means

/-- A wake under this latch was issued, and the session has not been
closed since. -/
def Consumed (a f key : String) : List Obs → Prop :=
  Since (Stamps a f key) (· = .closed a)

private theorem isLatched_congr {s s' : Store} (h : s'.fires = s.fires)
    (a f key : String) : s'.isLatched a f key = s.isLatched a f key := by
  rw [Store.isLatched, Store.isLatched, h]

private theorem isLatched_foldl_close {a f key : String}
    (stale : List SessionRow) (s : Store) :
    (stale.foldl (fun s x => s.closeSession x.sessionId) s).isLatched a f key
        = true
      ↔ s.isLatched a f key = true ∧ ∀ x ∈ stale, a ≠ x.sessionId := by
  induction stale generalizing s with
  | nil => simp
  | cons x stale ih =>
      rw [List.foldl_cons, ih, isLatched_closeSession, List.forall_mem_cons,
        and_assoc]

/-- A section other than stamping takes no latch, and gives back those
of the sessions it closes. -/
theorem isLatched_run {k : Nat} {now : Int} {d : Daemon} {x : Section}
    (hx : ∀ session selected t, x ≠ .stamp session selected t)
    (a f key : String) :
    ((x.run k now d).1.isLatched a f key = true
        ↔ d.store.isLatched a f key = true
          ∧ Obs.closed a ∉ (x.run k now d).2.2)
      ∧ ∀ o ∈ (x.run k now d).2.2, ¬Stamps a f key o := by
  have inert : ∀ {s : Store} {obs : List Obs}, s.fires = d.store.fires →
      Obs.closed a ∉ obs → (∀ o ∈ obs, ¬Stamps a f key o) →
      (s.isLatched a f key = true ↔ d.store.isLatched a f key = true
        ∧ Obs.closed a ∉ obs) ∧ ∀ o ∈ obs, ¬Stamps a f key o :=
    fun hs hc ho => ⟨by rw [isLatched_congr hs]; simp [hc], ho⟩
  have marked : ∀ {s : Store} {t : Int},
      Obs.closed a ∉ marks d.store s t
        ∧ ∀ o ∈ marks d.store s t, ¬Stamps a f key o := by
    intro s t
    refine ⟨fun hc => ?_, fun o ho => ?_⟩
    · obtain ⟨s, f, h⟩ := mem_marks hc
      cases h
    · obtain ⟨s, f, rfl⟩ := mem_marks ho
      exact id
  cases x with
  | stamp session selected t => exact absurd rfl (hx session selected t)
  | start ev t => exact inert rfl (by simp [Section.run]) (by simp [Section.run])
  | classify ev t =>
      obtain ⟨spawns, hs⟩ := classifyNotification_only d.store ev t
      refine inert ?_ marked.1 marked.2
      simp only [Section.run, hs]
  | prompt ev waking t =>
      obtain ⟨sessions, pending, hs⟩ := recordPrompt_only d.store ev waking t
      refine inert ?_ (by simp [Section.run]) (by simp [Section.run, Stamps])
      simp only [Section.run, hs]
  | stop ev t => exact inert rfl (by simp [Section.run]) (by simp [Section.run, Stamps])
  | ingest sessionId delta t =>
      obtain ⟨sessions, spawns, hs⟩ := applyDelta_only d.store sessionId delta t
      refine inert ?_ marked.1 marked.2
      simp only [Section.run, hs]
  | queue sessionId entries =>
      obtain ⟨roster, hs⟩ := queueForks_only d.store sessionId entries now
      refine inert ?_ (by simp [Section.run]) (by simp [Section.run])
      simp only [Section.run, hs]
  | release session released =>
      obtain ⟨pending, hs⟩ :=
        deleteReleased_only d.store session.sessionId released
      refine inert ?_ (by simp [Section.run]) (by simp [Section.run, Stamps])
      simp only [Section.run, hs]
  | close sessionId =>
      simp [Section.run, isLatched_closeSession, Stamps]
  | closeIfOpen sessionId =>
      simp only [Section.run]
      split
      · split
        · simp [isLatched_closeSession, Stamps]
        · simp
      · simp
  | prune t =>
      simp only [Section.run, isLatched_foldl_close]
      constructor
      · rw [List.mem_reverse, List.mem_map]
        refine and_congr_right fun _ => ⟨?_, fun h x hx he => ?_⟩
        · rintro h ⟨x, hx, he⟩
          exact h x hx (Obs.closed.inj he).symm
        · exact h ⟨x, hx, by rw [he]⟩
      · intro o ho
        rw [List.mem_reverse, List.mem_map] at ho
        obtain ⟨x, -, rfl⟩ := ho
        exact id

/-- The latch table says what was issued since the session's last
close. -/
def LatchesMatch (s : Store) (l : List Obs) : Prop :=
  ∀ a f key, s.isLatched a f key = true ↔ Consumed a f key l

theorem latchesMatch_passive (s : Store) (l : List Obs) (o : Obs)
    (ho : o.passive = true) (h : LatchesMatch s l) :
    LatchesMatch s (o :: l) := by
  intro a f key
  have hstamps : ¬Stamps a f key o := by
    intro hs
    cases o <;> simp [Obs.passive, Stamps] at ho hs
  have hclosed : o ≠ .closed a := by
    rintro rfl
    simp [Obs.passive] at ho
  rw [h a f key]
  simp [Consumed, Since, hstamps, hclosed]

theorem latchesMatch_run {k : Nat} {now : Int} {d : Daemon} (x : Section)
    (h : LatchesMatch d.store d.log) :
    LatchesMatch (x.run k now d).1 ((x.run k now d).2.2 ++ d.log) := by
  intro a f key
  by_cases hx : ∃ session selected t, x = .stamp session selected t
  · obtain ⟨session, selected, t, rfl⟩ := hx
    simp only [Section.run, List.singleton_append, Consumed, Since]
    rw [isLatched_stampWake (k := k), h a f key]
    simp only [reduceCtorEq, not_false_eq_true, true_and]
    exact or_comm
  · push Not at hx
    obtain ⟨hrun, hobs⟩ := isLatched_run hx a f key
    rw [hrun, h a f key, Consumed, since_append hobs]
    exact and_congr_right fun _ => ⟨fun hc o ho he => hc (he ▸ ho),
      fun hc ho => hc _ ho rfl⟩

theorem latchesMatch_step (w : World) (act : Act)
    (h : LatchesMatch w.daemon.store w.daemon.log) :
    LatchesMatch (w.step act).daemon.store (w.step act).daemon.log :=
  w.store_invariant (C := fun _ _ => True) latchesMatch_passive
    (fun _ _ _ x _ _ h => latchesMatch_run x h) act trivial h

theorem latchesMatch_init (disk : Disk) :
    LatchesMatch (World.init disk).daemon.store (World.init disk).daemon.log := by
  intro a f key
  simp [World.init, Store.openInMemory, Store.isLatched, Consumed, Since]

/-- In every run a latch is taken exactly when a wake that consumes it
was issued since the session was last closed. -/
theorem latched_iff_consumed (disk : Disk) (as : List Act) :
    LatchesMatch (run World.step (World.init disk) as).daemon.store
      (run World.step (World.init disk) as).daemon.log :=
  run_invariant
    (P := fun w : World => LatchesMatch w.daemon.store w.daemon.log)
    latchesMatch_step (latchesMatch_init disk) as

-- ============================================== one wake for each latch

/-- The log answers poll `k` with a wake. -/
def AnswersWake (k : Nat) : Obs → Prop
  | .answered k' (.wake _) => k' = k
  | _ => False

theorem AnswersWake.eq_answered {k : Nat} {o : Obs} (h : AnswersWake k o) :
    ∃ payload, o = .answered k (.wake payload) := by
  unfold AnswersWake at h
  split at h
  · exact ⟨_, by rw [h]⟩
  · cases h

instance (a f key : String) : DecidablePred (Stamps a f key)
  | .issued _ session selected _ => inferInstanceAs (Decidable
      (session.sessionId = a ∧ ∃ x ∈ selected, x.name = f ∧ x.latchKey = some key))
  | .stopped .. | .prompted .. | .closed .. | .clock .. | .marked .. | .configured ..
  | .registered .. | .snapshot .. | .cancelled .. | .released ..
  | .answered .. => isFalse id

instance (k : Nat) : DecidablePred (AnswersWake k)
  | .answered k' (.wake _) => inferInstanceAs (Decidable (k' = k))
  | .answered _ .ack | .answered _ .waited | .answered _ (.pruned _)
  | .stopped .. | .prompted .. | .closed .. | .clock .. | .marked .. | .configured ..
  | .registered .. | .snapshot .. | .cancelled .. | .issued ..
  | .released .. => isFalse id

/-- The poll whose wake an entry issues. -/
def Obs.issuer : Obs → Option Nat
  | .issued k .. => some k
  | _ => none

/-- Poll `k` answered a wake that contains fork `f` of session `a` under
`key`. -/
def WokeWith (log : List Obs) (a f key : String) (k : Nat) : Prop :=
  (∃ o ∈ log, AnswersWake k o)
    ∧ ∃ o ∈ log, o.issuer = some k ∧ Stamps a f key o

-- ======================================================= read, then stamp

/-- A wake of `selected` for this session consumes latch `key` of fork `f`
of session `a`. -/
abbrev Takes (a f key : String) (session : SessionRow)
    (selected : List SelectedFork) : Prop :=
  session.sessionId = a ∧ ∃ x ∈ selected, x.name = f ∧ x.latchKey = some key

/-- A handler, by whether it has read this latch free. It may stamp the
latch only then, and what it has read free it does not read taken. -/
def latching (a f key : String) : Prog.Typestate Op Op.Res Bool where
  ok m
    | .write (.stamp session selected _) =>
        Takes a f key session selected → m = true
    | _ => True
  next m
    | .isLatched a' f' key', latched =>
        m || (decide ((a', f', key') = (a, f, key)) && !latched)
    | .write (.stamp ..), _ => false
    | _, _ => m
  valid m
    | .isLatched a' f' key', latched => m = true →
        (a', f', key') = (a, f, key) → latched = false
    | _, _ => True

/-- The program reads the latch, and finds it free, before it stamps
it: it is not between the one and the other. -/
abbrev Rereads (a f key : String) (p : Handler ResponseBody) : Prop :=
  p.Typed (latching a f key) (fun _ _ => True) false

section latching

variable {a f key : String}

/-- What does not stamp may run wherever it likes. -/
private theorem Quiet.latching {α : Type} {p : Handler α} (h : Quiet p)
    (m : Bool) : p.Typed (latching a f key) (fun _ _ => True) m := by
  refine Prog.Every.typed (I := fun _ => True) trivial
    (h.mono fun op hop _ _ => ⟨?_, fun _ _ => trivial⟩)
  cases op with
  | write x => cases x <;> first | trivial | cases hop.1
  | _ => trivial

private theorem Quiet.thenLatching {α β : Type} {p : Handler α}
    (h : Quiet p) {g : α → Handler β} {Q : Bool → β → Prop} {m : Bool}
    (hg : ∀ m r, (g r).Typed (Autofork.latching a f key) Q m) :
    (p >>= g).Typed (Autofork.latching a f key) Q m :=
  (h.latching m).bind fun m r _ => hg m r

/-- A part of a selection that began in `m` has read the latches of what
it selects. -/
private def Looked (a f key : String) (session : SessionRow) (m : Bool)
    (m' : Bool) (selected : List SelectedFork) : Prop :=
  (m = true → m' = true) ∧ (Takes a f key session selected → m' = true)

private theorem considerLatch_latching (session : SessionRow)
    (entry : RosterEntry) (fork : ForkDef) (trigger : ForkRunOn) (m : Bool) :
    (considerLatch session entry fork trigger).Typed (latching a f key)
      (fun m' sel => Looked a f key session m m' sel.toList) m := by
  unfold considerLatch
  cases hkey : latchKeyFor trigger session.pauseEpoch with
  | none =>
      refine ⟨id, fun ⟨_, x, hx, _, hx'⟩ => ?_⟩
      obtain rfl := List.mem_singleton.1 hx
      cases hx'.symm.trans hkey
  | some key' =>
      refine ⟨trivial, fun latched _ => ?_⟩
      show Prog.Typed _ _ (m || _) (if latched then pure none else _)
      cases latched with
      | true => exact ⟨fun hm => by simp [hm], fun ⟨_, x, hx, _⟩ => by cases hx⟩
      | false =>
          refine ⟨fun hm => by simp [hm], fun ⟨ha, x, hx, hf, hx'⟩ => ?_⟩
          obtain rfl := List.mem_singleton.1 hx
          have hsame : key' = key := Option.some.inj (hkey.symm.trans hx')
          have hname : entry.forkName = f := hf
          simp [ha, hname, hsame]

private theorem considerFork_latching (session : SessionRow) (cfg : Config)
    (moments : List ForkMoment) (t : Int) (entry : RosterEntry) (m : Bool) :
    (considerFork session cfg moments t entry).Typed (latching a f key)
      (fun m' sel => Looked a f key session m m' sel.toList) m := by
  have hnone : Looked a f key session m m (none : Option SelectedFork).toList :=
    ⟨id, fun ⟨_, x, hx, _⟩ => by cases hx⟩
  have hread : (Op.readFork entry).go.Typed (latching a f key)
      (fun m' _ => m' = m) m := ⟨trivial, fun _ _ => rfl⟩
  refine hread.bind fun m' fork hm => ?_
  subst hm
  split
  · split
    · exact hnone
    next trigger _ =>
      split
      · exact considerLatch_latching ..
      · refine ⟨trivial, fun throttled _ => ?_⟩
        show Prog.Typed _ _ _ (if throttled then pure none else _)
        split
        · exact hnone
        · exact considerLatch_latching ..
  · exact hnone

private theorem considerAll_latching (session : SessionRow) (cfg : Config)
    (moments : List ForkMoment) (t : Int) (roster : List RosterEntry)
    (m : Bool) :
    (considerAll session cfg moments t roster).Typed (latching a f key)
      (Looked a f key session m) m := by
  induction roster generalizing m with
  | nil => exact ⟨id, fun ⟨_, x, hx, _⟩ => by cases hx⟩
  | cons entry roster ih =>
      refine (considerFork_latching ..).bind fun m₁ sel hsel =>
        (ih m₁).bind fun m₂ rest hrest => ?_
      refine ⟨fun hm => hrest.1 (hsel.1 hm), fun ⟨ha, x, hx, hkey⟩ => ?_⟩
      rcases List.mem_append.1 hx with hx | hx
      · exact hrest.1 (hsel.2 ⟨ha, x, hx, hkey⟩)
      · exact hrest.2 ⟨ha, x, hx, hkey⟩

/-- A selection has read the latches of what it selects. -/
private theorem selectForks_latching (session : SessionRow) (cfg : Config)
    (moments : List ForkMoment) (m : Bool) :
    (selectForks session cfg moments).Typed (latching a f key)
      (fun m' selected => Takes a f key session selected → m' = true) m := by
  refine ⟨trivial, fun entries _ => ⟨trivial, fun _ _ =>
    ⟨trivial, fun roster _ => ⟨trivial, fun t _ => ?_⟩⟩⟩⟩
  exact (considerAll_latching ..).mono fun _ _ h => h.2

private theorem parkForever_latching (m : Bool) :
    parkForever.Typed (latching a f key) (fun _ _ => True) m :=
  ⟨trivial, fun _ _ => trivial⟩

private theorem issueWake_latching (w : Watch) (m : Bool) :
    (issueWake w).Typed (latching a f key) (fun _ _ => True) m := by
  refine ⟨trivial, fun t _ => ?_⟩
  refine (selectForks_latching w.session w.cfg (w.moments t) m).bind
    fun m selected hread => ?_
  have hwake : (buildWake w.session selected).Typed (latching a f key)
      (fun _ _ => True) m := by
    unfold buildWake
    split
    · trivial
    · exact ⟨trivial, fun t _ => ⟨hread, fun _ _ =>
        ⟨trivial, fun _ _ => trivial⟩⟩⟩
  refine hwake.bind fun m payload _ => ?_
  cases payload with
  | some payload => trivial
  | none => exact parkForever_latching m

private theorem debounceWake_latching (w : Watch) (m : Bool) :
    (debounceWake w).Typed (latching a f key) (fun _ _ => True) m := by
  unfold debounceWake
  split
  · refine ⟨trivial, fun branch _ => ?_⟩
    cases branch with
    | timer => exact issueWake_latching w _
    | cancelled => trivial
    | shutdown => trivial
  · exact issueWake_latching w m

private theorem serveDeadlines_latching (w : Watch) (deadlines : List Nat)
    (m : Bool) :
    (serveDeadlines w deadlines).Typed (latching a f key)
      (fun _ _ => True) m := by
  induction deadlines generalizing m with
  | nil => exact parkForever_latching m
  | cons d rest ih =>
      refine ⟨trivial, fun t _ => ⟨trivial, fun branch _ => ?_⟩⟩
      cases branch with
      | timer =>
          refine (tame_dueNow w).quiet.thenLatching fun m due => ?_
          cases due with
          | true => exact debounceWake_latching w m
          | false => exact ih m
      | cancelled => trivial
      | shutdown => trivial

private theorem releaseDue_latching (session : SessionRow) (m : Bool) :
    (releaseDue session).Typed (latching a f key) (fun _ _ => True) m := by
  refine ⟨trivial, fun released _ => ?_⟩
  show Prog.Typed _ _ _ (if List.isEmpty released then pure none else _)
  split
  · trivial
  · exact ⟨trivial, fun _ _ => ⟨trivial, fun _ _ => trivial⟩⟩

private theorem parkedPoll_latching (ev : Event) (t : Int)
    (promptTokens : Option Nat) (cfg : Config) (m : Bool) :
    (parkedPoll ev t promptTokens cfg).Typed (latching a f key)
      (fun _ _ => True) m := by
  refine ⟨trivial, fun session _ => ?_⟩
  cases session with
  | none => trivial
  | some session =>
      refine (releaseDue_latching session _).bind fun m payload _ => ?_
      cases payload with
      | some payload => trivial
      | none =>
          refine (quiet_go ⟨rfl, rfl⟩).thenLatching fun m entries =>
            (tame_dueNow _).quiet.thenLatching fun m due => ?_
          cases due with
          | true => exact debounceWake_latching _ m
          | false => exact serveDeadlines_latching _ _ m

/-- A handler stamps a latch only once it has read it free. -/
theorem handler_latching (job : Job) : Rereads a f key job.handler := by
  cases job with
  | request req =>
      cases req with
      | event ev => exact (quiet_handleEvent ev).latching _
      | stopWait ev =>
          refine (quiet_go ⟨rfl, rfl⟩).thenLatching fun m _ =>
            (quiet_go ⟨rfl, rfl⟩).thenLatching fun m t =>
            (quiet_go ⟨rfl, rfl⟩).thenLatching fun m _ =>
            (tame_ingestTranscript ev).quiet.thenLatching fun m tokens =>
            (quiet_go ⟨rfl, rfl⟩).thenLatching fun m cfg =>
            (quiet_go ⟨rfl, rfl⟩).thenLatching fun m _ =>
            (quiet_go ⟨rfl, rfl⟩).thenLatching fun m _ =>
            (parkedPoll_latching ev t tokens cfg m).bind fun m body _ => ?_
          exact ⟨trivial, fun _ _ => trivial⟩
      | prune => exact quiet_handlePrune.latching _
  | reap => exact quiet_sessionReaper.latching _
  | grace sessionId gen => exact (quiet_graceClose sessionId gen).latching _

end latching

-- ============================================================ on all runs

/-- A stamping for session `a` finds no other task between its reading of
a latch that is stamped, and its stamping of it. -/
def latchesApart (a : String) (w : World) : Act → Prop
  | .move k _ => match w.about k with
      | some (.write (.stamp session selected _)) => ∀ f key,
          Takes a f key session selected → ∀ j task, j ≠ k →
          w.tasks j = some task → Rereads a f key task.prog
      | _ => True
  | _ => True

/-- What every task has read free is free. -/
def LatchesRead (a f key : String) (w : World) : Prop :=
  ∀ k task, w.tasks k = some task →
    ∃ m, (m = true → w.daemon.store.isLatched a f key = false)
      ∧ task.prog.Typed (latching a f key) (fun _ _ => True) m

private theorem latchesRead_init (a f key : String) (disk : Disk) :
    LatchesRead a f key (World.init disk) := by
  intro k task h
  cases h

/-- A stamping of this latch is about to happen. -/
private def StampsNow (a f key : String) (w : World) (act : Act) : Prop :=
  ∃ k tick session selected t, act = .move k tick
    ∧ w.about k = some (.write (.stamp session selected t))
    ∧ Takes a f key session selected

/-- Without a stamping a free latch stays free. -/
private theorem free_step {a f key : String} {w : World} {act : Act}
    (hno : ¬StampsNow a f key w act)
    (h : w.daemon.store.isLatched a f key = false) :
    (w.step act).daemon.store.isLatched a f key = false := by
  refine w.store_invariant (C := fun w act => ¬StampsNow a f key w act)
    (Q := fun s _ => s.isLatched a f key = false) (fun _ _ _ _ h => h) ?_ act
    hno h
  intro w k tick x hC hab h
  rw [← Bool.not_eq_true] at h ⊢
  by_cases hx : ∃ session selected t, x = .stamp session selected t
  · obtain ⟨session, selected, t, rfl⟩ := hx
    rw [show (Section.run k tick.now w.daemon (.stamp session selected t)).1
      = w.daemon.store.stampWake session selected t w.daemon.log.length from rfl,
      isLatched_stampWake (k := k)]
    rintro (hl | htakes)
    · exact h hl
    · exact hC ⟨k, tick, session, selected, t, rfl, hab, htakes⟩
  · push Not at hx
    rw [(isLatched_run hx a f key).1]
    exact fun hl => h hl.1

/-- One step: what is read free is free, what is stamped is no longer
relied on. -/
private theorem latchesRead_step {a f key : String} {w : World} {act : Act}
    (hC : latchesApart a w act) (h : LatchesRead a f key w) :
    LatchesRead a f key (w.step act) := by
  by_cases hnow : StampsNow a f key w act
  · obtain ⟨k, tick, session, selected, t, rfl, hab, htakes⟩ := hnow
    obtain ⟨task, g, ht, hprog⟩ := World.about_eq_some hab
    obtain ⟨m, -, hp⟩ := h k task ht
    rw [hprog] at hp
    have hstep : (w.step (.move k tick)).tasks
        = upd w.tasks k (some { task with started := true, prog := g () }) := by
      simp [World.step, World.move, ht, hprog, exec, World.resumed]
    intro j task' ht'
    rw [hstep] at ht'
    refine ⟨false, Bool.noConfusion, ?_⟩
    by_cases hj : j = k
    · subst hj
      rw [upd_same, Option.some.injEq] at ht'
      subst ht'
      exact hp.2 () trivial
    · rw [upd_other _ _ hj] at ht'
      simp only [latchesApart, hab] at hC
      exact hC f key htakes j task' hj ht'
  · have hfree := @free_step a f key w act hnow
    intro k task ht
    rcases World.step_tasks ht with hold | ⟨job, client, -, -, -, rfl⟩
      | ⟨old, op, g, tick, d, r, rfl, hold, hprog, hex, hd, rfl⟩
      | ⟨ev, started, op, g, -, -, -, rfl⟩
    · obtain ⟨m, hm, hp⟩ := h k task hold
      exact ⟨m, fun hm' => hfree (hm hm'), hp⟩
    · exact ⟨false, Bool.noConfusion, handler_latching job⟩
    · obtain ⟨m, hm, hp⟩ := h k old hold
      rw [hprog] at hp
      have hvalid : (latching a f key).valid m op r := by
        cases op with
        | isLatched a' f' key' =>
            simp only [exec, Option.some.injEq, Prod.mk.injEq] at hex
            rintro hm' heq
            cases heq
            exact hex.2 ▸ hm hm'
        | _ => trivial
      refine ⟨_, fun hnext => hfree ?_, hp.2 r hvalid⟩
      cases op with
      | isLatched a' f' key' =>
          simp only [exec, Option.some.injEq, Prod.mk.injEq] at hex
          simp only [latching, Bool.or_eq_true, Bool.and_eq_true,
            decide_eq_true_eq, Bool.not_eq_true', Prod.mk.injEq] at hnext
          rcases hnext with hm' | ⟨⟨rfl, rfl, rfl⟩, hr⟩
          · exact hm hm'
          · exact hex.2.trans hr
      | write x => cases x <;> first | exact hm hnext | cases hnext
      | _ => exact hm hnext
    · exact ⟨false, Bool.noConfusion,
        (quiet_onPollLost ev.sessionId started).latching _⟩

/-- So a latch is free when it is stamped. -/
private theorem LatchesRead.free {a f key : String} {w : World}
    (h : LatchesRead a f key w) {k : Nat} {session : SessionRow}
    {selected : List SelectedFork} {t : Int}
    (hab : w.about k = some (.write (.stamp session selected t)))
    (htakes : Takes a f key session selected) :
    w.daemon.store.isLatched a f key = false := by
  obtain ⟨task, g, ht, hprog⟩ := World.about_eq_some hab
  obtain ⟨m, hm, hp⟩ := h k task ht
  rw [hprog] at hp
  exact hm (hp.1 htakes)

/-- At most one entry of the log issues the fork under the latch, unless
the session was closed. -/
def StampedOnce (a f key : String) (l : List Obs) : Prop :=
  Obs.closed a ∉ l → AtMostOne (Stamps a f key) l

private theorem stampedOnce_append {a f key : String} (obs : List Obs)
    {l : List Obs} (hobs : ∀ o ∈ obs, ¬Stamps a f key o)
    (h : StampedOnce a f key l) : StampedOnce a f key (obs ++ l) := by
  intro hc
  rw [List.mem_append, not_or] at hc
  rw [atMostOne_append hobs]
  exact h hc.2

/-- What every run keeps. -/
structure LatchedOnce (a f key : String) (w : World) : Prop where
  matched : LatchesMatch w.daemon.store w.daemon.log
  read : LatchesRead a f key w
  once : StampedOnce a f key w.daemon.log

private theorem latchedOnce_step {a f key : String} (w : World) (act : Act)
    (hC : latchesApart a w act) (h : LatchedOnce a f key w) :
    LatchedOnce a f key (w.step act) where
  matched := latchesMatch_step w act h.matched
  read := latchesRead_step hC h.read
  once := by
    refine (w.store_invariant (C := fun w _ => LatchesRead a f key w)
      (Q := fun s l => LatchesMatch s l ∧ StampedOnce a f key l) ?_ ?_ act
      h.read ⟨h.matched, h.once⟩).2
    · intro s l o ho h
      refine ⟨latchesMatch_passive s l o ho h.1,
        stampedOnce_append [o] (fun o' ho' hs => ?_) h.2⟩
      rw [List.mem_singleton.1 ho'] at hs
      cases o <;> simp [Obs.passive, Stamps] at ho hs
    · intro w k tick x hread hab h
      refine ⟨latchesMatch_run x h.1, ?_⟩
      by_cases hx : ∃ session selected t, x = .stamp session selected t
      · obtain ⟨session, selected, t, rfl⟩ := hx
        intro hc
        simp only [Section.run, List.singleton_append, List.mem_cons,
          reduceCtorEq, false_or] at hc
        simp only [Section.run, List.singleton_append, atMostOne_cons]
        refine ⟨fun htakes o ho hs => ?_, h.2 hc⟩
        -- the latch it stamps would have to be free and consumed
        have hfree := hread.free hab htakes
        have htaken := (h.1 _ _ _).2
          (since_of_mem ho hs fun o' ho' he => hc (he ▸ ho'))
        rw [hfree] at htaken
        cases htaken
      · push Not at hx
        exact stampedOnce_append _ (isLatched_run hx a f key).2 h.2

/-- In every interleaving in which no poll stamps a latch while another
is between its reading and its stamping of it, and in which the session
is not closed, a latch is consumed by at most one answered wake. -/
theorem one_wake_per_latch {disk : Disk} {a : String} {as : List Act}
    (hapart : Along World.step (latchesApart a) (World.init disk) as)
    (hopen : Obs.closed a ∉ (World.after disk as).daemon.log)
    {f key : String} {k k' : Nat}
    (hk : WokeWith (World.after disk as).daemon.log a f key k)
    (hk' : WokeWith (World.after disk as).daemon.log a f key k') :
    k = k' := by
  have hinv := hapart.invariant (P := LatchedOnce a f key) latchedOnce_step
    ⟨latchesMatch_init disk, latchesRead_init a f key disk,
      fun _ => atMostOne_nil⟩
  obtain ⟨-, o, hmem, hby, hs⟩ := hk
  obtain ⟨-, o', hmem', hby', hs'⟩ := hk'
  have hsame : o = o' := (hinv.once hopen).eq hmem hmem' hs hs'
  rw [hsame, hby'] at hby
  exact (Option.some.inj hby).symm

-- ------------------------------------------------- polls that overlap

/-- A fork due as soon as a turn has used a token. -/
private def eager : Disk :=
  .holding [("f", { runOn := [.contextTokens 1] })] { wakeDebounceSecs := 0 }
    (some { newOffset := 1, promptTokens := some 5 })

/-- A stamping that finds every other task not yet started. -/
private def othersUnstarted (w : World) : Act → Bool
  | .move k _ => match w.about k with
      | some (.write (.stamp ..)) => (List.range w.jobs.length).all fun j =>
          j == k || (w.tasks j).all fun task => !task.started
      | _ => true
  | _ => true

/-- What has not started has the reading of its latches ahead of it. -/
private theorem latchesApart_of_unstarted {w : World} {act : Act}
    (h : othersUnstarted w act = true) (hnumbered : w.Numbered)
    (hunstarted : w.Unstarted) (a : String) : latchesApart a w act := by
  unfold latchesApart
  split
  next k tick =>
    split
    next session selected t hab =>
      intro f key _ j task hj ht
      simp only [othersUnstarted, hab, List.all_eq_true, List.mem_range,
        Bool.or_eq_true, beq_iff_eq] at h
      have hrest := (h j (hnumbered.lt ht)).resolve_left hj
      rw [ht, Option.all_some, Bool.not_eq_true'] at hrest
      rw [hunstarted j task ht hrest]
      exact handler_latching task.job
    next => trivial
  next => trivial

/-- Two polls are received; one selects, stamps and answers before the
other starts, which finds the latch taken. -/
private def firstThenSecond : List Act :=
  .stop "s" :: .stop "s" :: Act.moves 32 0 10 ++ Act.moves 40 1 10

/-- The second poll parks. -/
theorem one_wake_per_latch_in_turn :
    ((World.after eager firstThenSecond).about 1).any Op.awaits = true
      ∧ ∀ k, WokeWith (World.after eager firstThenSecond).daemon.log "s" "f"
        "context_tokens:1" k → 0 = k := by
  have hwoke : WokeWith (World.after eager firstThenSecond).daemon.log "s" "f"
      "context_tokens:1" 0 := by
    unfold WokeWith
    decide +kernel
  have hrun : Along World.step (fun w act => othersUnstarted w act = true)
      (World.init eager) firstThenSecond := by
    decide +kernel
  have hapart := hrun.keeping (P := fun w : World => w.Numbered ∧ w.Unstarted)
    (fun _ act _ h => ⟨World.numbered_step h.1 act, World.unstarted_step act h.2⟩)
    ⟨World.numbered_init eager, World.unstarted_init eager⟩
  have hopen : Obs.closed "s" ∉ (World.after eager firstThenSecond).daemon.log := by
    decide +kernel
  refine ⟨by decide +kernel, fun k hk => ?_⟩
  exact one_wake_per_latch (hapart.mono fun w act h =>
    latchesApart_of_unstarted h.1 h.2.1 h.2.2 "s") hopen hwoke hk

/-- Two polls of one session, each past its selection before the other
stamps: both are answered with the fork, under one latch. -/
theorem latch_consumed_twice :
    ¬∀ (disk : Disk) (a : String) (as : List Act) (f key : String)
      (k k' : Nat),
      Obs.closed a ∉ (run World.step (World.init disk) as).daemon.log →
      WokeWith (run World.step (World.init disk) as).daemon.log a f key k →
      WokeWith (run World.step (World.init disk) as).daemon.log a f key k' →
      k = k' := by
  intro h
  have hrun := h eager "s"
    (.stop "s" :: .stop "s" :: Act.moves 28 0 10 ++ Act.moves 28 1 10
      ++ Act.moves 4 0 10 ++ Act.moves 4 1 10) "f" "context_tokens:1" 0 1 (by decide +kernel)
    (by unfold WokeWith; decide +kernel) (by unfold WokeWith; decide +kernel)
  cases hrun

end Autofork
