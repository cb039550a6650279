/-
A held chain drains.

A wake hands out the forks that wait for nothing and holds the others
back, each with the names it waits for; `release_due` hands out a held
fork once each of those has completed since the wake.

# What carries it

Over a run in which nothing disturbs the session, the names still held
and the names handed out since are together the names the wake held
back (`Chained.split`). What waits for what goes down (the resolved
dependencies are well founded), so among the forks still held there is
one that waits for none of them. All it waits for has been handed out;
once that has completed, `release_due` lists it.

# Releases in one step

`release_due` lists and deletes in two sections. `releaseWhole` says of
a run that no other task moves while one is between the two. Then what
is deleted is what would be listed at the deletion (`Current`).
-/
import Autofork.Lib.Typestate
import Autofork.Proofs.Cycles
import Autofork.Proofs.Releases
import Autofork.Proofs.Select
import Autofork.Proofs.Slices

namespace Autofork

open Lib

-- ====================================================== releases in one step

/-- Task `k` is about to delete what it listed for session `a`. -/
def World.deleting (a : String) (w : World) (k : Nat) : Bool :=
  match w.about k with
  | some (.write (.release session _)) => session.sessionId == a
  | _ => false

/-- The action moves no task while another is inside a release for
session `a`. -/
def releaseWhole (a : String) (w : World) : Act → Bool
  | .move k _ | .lose k => (List.range w.jobs.length).all fun j =>
      j == k || !w.deleting a j
  | _ => true

/-- What a task has just listed. -/
def listing :
    Prog.Typestate Op Op.Res (Option (String × List PendingDep)) where
  ok m
    | .write (.release session released) =>
        m = some (session.sessionId, released)
    | _ => True
  next _
    | .releasable sessionId, (released : List PendingDep) =>
        some (sessionId, released)
    | _, _ => none

/-- The program deletes only what it has just listed. -/
abbrev Lists {α : Type} (p : Handler α) : Prop :=
  ∀ m, p.Typed listing (fun _ _ => True) m

private theorem lists_of_every {α : Type} {p : Handler α}
    (hp : p.Every fun op =>
      ∀ session released, op ≠ .write (.release session released)) :
    Lists p := by
  intro m
  refine Prog.Every.typed (I := fun _ => True) trivial
    (Prog.Every.mono (fun op hop m _ => ⟨?_, fun _ _ => trivial⟩) hp)
  unfold listing
  dsimp only
  split
  · exact absurd rfl (hop _ _)
  · trivial

private theorem Quiet.lists {α : Type} {p : Handler α} (hp : Quiet p) :
    Lists p := by
  refine lists_of_every (Prog.Every.mono (fun op hop session released heq => ?_)
    hp)
  rw [heq] at hop
  cases hop.1

private theorem Attends.lists {α : Type} {p : Handler α}
    (hp : Attends p) : Lists p := by
  refine lists_of_every (Prog.Every.mono (fun op hop session released heq => ?_)
    hp)
  rw [heq] at hop
  cases hop

private theorem Lists.bind {α β : Type} {p : Handler α}
    {f : α → Handler β} (hp : Lists p) (hf : ∀ a, Lists (f a)) :
    Lists (p >>= f) :=
  fun m => (hp m).bind fun m' a _ => hf a m'

private theorem lists_releaseDue (session : SessionRow) :
    Lists (releaseDue session) := by
  intro m
  refine ⟨trivial, fun released _ => ?_⟩
  show Prog.Typed _ _ (some (session.sessionId, released))
    (if List.isEmpty released then pure none else _)
  split
  · trivial
  · exact ⟨rfl, fun _ _ => ⟨trivial, fun _ _ => trivial⟩⟩

private theorem lists_handler (job : Job) : Lists job.handler := by
  have hgo : ∀ {op : Op}, op.Quiet → Lists op.go := fun h =>
    (quiet_go h).lists
  cases job with
  | request req =>
      cases req with
      | event ev => exact (quiet_handleEvent ev).lists
      | prune => exact quiet_handlePrune.lists
      | stopWait ev =>
          have hpoll : ∀ t promptTokens cfg,
              Lists (parkedPoll ev t promptTokens cfg) := by
            intro t promptTokens cfg
            refine (hgo ⟨rfl, rfl⟩).bind fun session => ?_
            cases session with
            | none => exact fun _ => trivial
            | some session =>
                refine (lists_releaseDue session).bind fun payload => ?_
                cases payload with
                | some payload => exact fun _ => trivial
                | none =>
                    exact (hgo ⟨rfl, rfl⟩).bind fun entries =>
                      (attends_awaitDue _).lists
          exact (hgo ⟨rfl, rfl⟩).bind fun _ => (hgo ⟨rfl, rfl⟩).bind fun t =>
            (hgo ⟨rfl, rfl⟩).bind fun _ =>
            (tame_ingestTranscript ev).quiet.lists.bind fun promptTokens =>
            (hgo ⟨rfl, rfl⟩).bind fun cfg => (hgo ⟨rfl, rfl⟩).bind fun _ =>
            (hgo ⟨rfl, rfl⟩).bind fun _ => (hpoll t promptTokens cfg).bind
            fun body => (hgo ⟨rfl, rfl⟩).bind fun _ _ => trivial
  | reap => exact quiet_sessionReaper.lists
  | grace sessionId gen => exact (quiet_graceClose ..).lists

namespace World

/-- Every task deletes only what it has just listed. -/
def Listing (w : World) : Prop :=
  ∀ k task, w.tasks k = some task →
    ∃ m, task.prog.Typed listing (fun _ _ => True) m

theorem listing_step (w : World) (act : Act) (h : w.Listing) :
    (w.step act).Listing := by
  intro k task ht
  rcases step_tasks ht with hold | ⟨job, client, -, -, -, rfl⟩
    | ⟨old, op, f, tick, d, r, -, hold, hprog, -, -, rfl⟩
    | ⟨ev, started, op, f, -, -, -, rfl⟩
  · exact h k task hold
  · exact ⟨none, lists_handler job none⟩
  · obtain ⟨m, hm⟩ := h k old hold
    rw [hprog] at hm
    exact ⟨_, hm.2 r trivial⟩
  · exact ⟨none, (quiet_onPollLost ..).lists none⟩

theorem listing_after (disk : Disk) (as : List Act) :
    (after disk as).Listing :=
  run_invariant (P := Listing) listing_step (fun k task h => by cases h) as

/-- What is about to be deleted for session `a` is what a listing shows
now. -/
def Current (a : String) (w : World) : Prop :=
  ∀ k session released,
    w.about k = some (.write (.release session released)) →
    session.sessionId = a → released = w.daemon.store.releasable a

/-- Nobody is inside a release where the guard lets a task move that is
not. -/
theorem current_of_whole {a : String} {w : World} {k : Nat} {tick : Tick}
    (hn : w.Numbered) (hC : releaseWhole a w (.move k tick) = true)
    (hk : w.deleting a k = false) : w.Current a := by
  intro j session released hab ha
  obtain ⟨task, f, ht, -⟩ := about_eq_some hab
  have hj : w.deleting a j = true := by
    rw [deleting, hab]
    exact beq_iff_eq.2 ha
  simp only [releaseWhole, List.all_eq_true, List.mem_range] at hC
  have := hC j (hn.lt ht)
  by_cases he : j = k
  · rw [he, hk] at hj
    cases hj
  · simp [he, hj] at this

theorem current_step {a : String} (w : World) (act : Act)
    (hn : w.Numbered) (hl : w.Listing) (hC : releaseWhole a w act = true)
    (h : w.Current a) : (w.step act).Current a := by
  intro k session released hab ha
  obtain ⟨task, f, ht, hprog⟩ := about_eq_some hab
  rcases w.step_cases act with
    ⟨j, old, op, g, tick, d, r, rfl, hold, hprog', -, hex, heq⟩
    | ⟨j, tick, old, body, rfl, hold, -, heq⟩ | ⟨disk, graceTimers, heq, hsame⟩
  · rw [heq] at ht ⊢
    by_cases hk : k = j
    · -- the task that moved has just listed
      subst hk
      simp only [resumed, upd_same, Option.some.injEq] at ht
      subst ht
      obtain ⟨m, hm⟩ := hl k old hold
      rw [hprog'] at hm
      have hnext := hm.2 r trivial
      rw [show g r = _ from hprog] at hnext
      have hok : listing.next m op r = some (session.sessionId, released) :=
        hnext.1
      cases op with
      | releasable sessionId =>
          simp only [exec, Option.some.injEq, Prod.mk.injEq] at hex
          obtain ⟨rfl, rfl⟩ := hex
          obtain ⟨hs, hr⟩ := Prod.mk.inj (Option.some.inj hok)
          rw [resumed, ← hr, hs, ha]
      | _ => cases hok
    · -- another one was inside a release
      simp only [resumed, upd_other _ _ hk] at ht
      have hdel : w.deleting a k = true := by
        rw [deleting, about_of_prog ht hprog]
        exact beq_iff_eq.2 ha
      simp only [releaseWhole, List.all_eq_true, List.mem_range] at hC
      have := hC k (hn.lt ht)
      simp [hk, hdel] at this
  · rw [heq] at ht ⊢
    by_cases hk : k = j
    · simp only [hk, upd_same] at ht
      cases ht
    · simp only [upd_other _ _ hk] at ht
      exact h k session released (about_of_prog ht hprog) ha
  · have hstore : (w.step act).daemon.store = w.daemon.store := by rw [heq]
    rw [hstore]
    rcases step_tasks ht with hold | ⟨job, client, -, -, -, rfl⟩
      | ⟨old, op, g, tick, d, r, rfl, hold, hprog', hex, -, -⟩
      | ⟨ev, started, op, g, -, -, -, rfl⟩
    · exact h k session released (about_of_prog hold hprog) ha
    · have := lists_handler job none
      rw [show job.handler = _ from hprog] at this
      cases this.1
    · rw [hsame k tick rfl] at ht
      exact h k session released (about_of_prog ht hprog) ha
    · have := (quiet_onPollLost ev.sessionId started).lists none
      rw [show onPollLost ev.sessionId started = _ from hprog] at this
      cases this.1

end World

-- ========================================================== the chain

/-- A log entry that ends a session's chain: a genuine prompt, a close
or a new wake. -/
def Disturbs (a : String) : Obs → Prop
  | .prompted _ sessionId waking _ => sessionId = a ∧ waking = true
  | .closed sessionId => sessionId = a
  | .issued _ session _ _ => session.sessionId = a
  | _ => False

instance (a : String) : DecidablePred (Disturbs a)
  | .prompted _ sessionId waking _ =>
      inferInstanceAs (Decidable (sessionId = a ∧ waking = true))
  | .closed sessionId => inferInstanceAs (Decidable (sessionId = a))
  | .issued _ session _ _ =>
      inferInstanceAs (Decidable (session.sessionId = a))
  | .stopped .. | .clock .. | .marked .. | .configured .. | .registered ..
  | .snapshot .. | .cancelled .. | .released .. | .answered .. => isFalse id

/-- The action disturbs nothing, and moves no task while another is
inside a release. -/
def onlyReleases (a : String) (w : World) (act : Act) : Prop :=
  releaseWhole a w act = true
    ∧ ∀ o ∈ newer w.daemon.log (w.step act).daemon.log, ¬Disturbs a o

instance (a : String) (w : World) (act : Act) :
    Decidable (onlyReleases a w act) := inferInstanceAs (Decidable (_ ∧ _))

/-- The forks of session `a` that are held. -/
def Store.held (s : Store) (a : String) : List String :=
  (s.pending.select fun r => r.sessionId == a).map PendingRec.forkName

/-- The forks an entry releases. -/
def Obs.handsOut (a : String) : Obs → List String
  | .released _ session deps =>
      if session.sessionId = a then deps.map PendingDep.forkName else []
  | _ => []

/-- A released fork was held, and each of its predecessors has been
marked at `t` or later. -/
def Justified (a : String) (selected : List SelectedFork) (t : Int) :
    Obs → List Obs → Prop
  | .released _ session released, l =>
      session.sessionId = a → ∀ dep ∈ released,
        ∃ sp ∈ withPreds selected, sp.2 ≠ [] ∧ dep.forkName = sp.1.name
          ∧ dep.preds = sp.2
          ∧ ∀ pred ∈ sp.2, ∃ o ∈ l, CompletesSince a pred t o
  | _, _ => True

/-- A selection whose dependencies a store can hold: the names differ,
and a list of predecessors is read back as it was. -/
structure Holdable (selected : List SelectedFork) : Prop where
  nonempty : selected ≠ []
  names : (selected.map SelectedFork.name).Nodup
  readBack : ∀ sp ∈ withPreds selected, sp.2 ≠ [] →
    splitComma (join "," sp.2) = sp.2

/-- Nothing of session `a` is held, and none of its spawns ended at `t`
or later. -/
structure Fresh (a : String) (t : Int) (s : Store) : Prop where
  pending : ∀ row ∈ s.pending.rows, row.sessionId ≠ a
  spawns : ∀ r ∈ s.spawns.rows, r.sessionId = a →
    ∀ u ∈ r.terminalAt, u < t

-- ============================================================ the start

theorem wakePreds_isEmpty {selected : List SelectedFork}
    {i : Fin selected.length} :
    (wakePreds selected i).isEmpty = (resolveDeps selected i).isEmpty :=
  List.isEmpty_map

/-- Each selected fork spawns now or is held. -/
theorem roots_held_perm (selected : List SelectedFork) :
    ((wakeRoots selected).map DueFork.name
        ++ (wakeHeld selected).map HeldFork.name).Perm
      (selected.map SelectedFork.name) := by
  have hsplit := List.filter_append_perm
    (fun sp : SelectedFork × List String => sp.2.isEmpty) (withPreds selected)
  have hnames := hsplit.map fun sp => sp.1.name
  rw [List.map_append] at hnames
  have hall : (withPreds selected).map (fun sp => sp.1.name)
      = selected.map SelectedFork.name := by
    have := congrArg (List.map SelectedFork.name) (withPreds_map_fst selected)
    rwa [List.map_map] at this
  rw [hall] at hnames
  unfold wakeRoots wakeHeld
  rw [List.map_map, List.map_map]
  exact hnames

/-- Some selected fork spawns now. -/
theorem wakeRoots_ne_nil {selected : List SelectedFork}
    (h : selected ≠ []) : wakeRoots selected ≠ [] := by
  obtain ⟨i, hi⟩ := List.exists_mem_of_ne_nil _ (roots_ne_nil h)
  rw [roots, List.mem_filter] at hi
  unfold wakeRoots
  rw [ne_eq, List.map_eq_nil_iff]
  apply List.ne_nil_of_mem (a := (selected.get i, wakePreds selected i))
  rw [List.mem_filter]
  exact ⟨List.mem_map_of_mem (List.mem_finRange i), wakePreds_isEmpty.trans hi.2⟩

/-- The names of held forks differ. -/
theorem Store.nodup_held (s : Store) (a : String) : (s.held a).Nodup := by
  have hkeys : ((s.pending.select fun r => r.sessionId == a).map
      PendingRec.key).Nodup :=
    s.pending.keyed.sublist (List.filter_sublist.map _)
  have hpair : (s.pending.select fun r => r.sessionId == a).map PendingRec.key
      = (s.held a).map fun f => (a, f) := by
    rw [held, List.map_map]
    refine List.map_congr_left fun r hr => ?_
    rw [Table.mem_select, beq_iff_eq] at hr
    rw [PendingRec.key, hr.2]
    rfl
  rw [hpair] at hkeys
  exact hkeys.of_map

/-- They are what the listing lists. -/
theorem Store.listPendingDeps_perm (s : Store) (a : String) :
    ((s.listPendingDeps a).map PendingDep.forkName).Perm (s.held a) := by
  unfold listPendingDeps held
  rw [List.map_map]
  exact (List.perm_insertionSort _ _).map _

theorem Store.mem_held {s : Store} {a f : String} :
    f ∈ s.held a ↔ ∃ row ∈ s.pending.rows,
      row.sessionId = a ∧ row.forkName = f := by
  simp only [held, List.mem_map, Table.mem_select, beq_iff_eq, and_assoc]

theorem Holdable.nodup_held {selected : List SelectedFork}
    (h : Holdable selected) :
    ((wakeHeld selected).map HeldFork.name).Nodup :=
  ((roots_held_perm selected).nodup_iff.2 h.names).of_append_right

/-- A name is one index's. -/
theorem Holdable.index_eq {selected : List SelectedFork}
    (h : Holdable selected) {i j : Fin selected.length}
    (hname : (selected.get i).name = (selected.get j).name) : i = j := by
  have hi := nameToIdx_name (S := SelectedFork) h.names i
  have hj := nameToIdx_name (S := SelectedFork) h.names j
  rw [show Selected.name (selected.get i) = Selected.name (selected.get j)
    from hname, hj] at hi
  exact (Option.some.inj hi).symm

theorem mem_wakeHeld {selected : List SelectedFork} {f : String} :
    f ∈ (wakeHeld selected).map HeldFork.name
      ↔ ∃ sp ∈ withPreds selected, sp.2 ≠ [] ∧ sp.1.name = f := by
  unfold wakeHeld
  rw [List.map_map, List.mem_map]
  simp only [List.mem_filter, Bool.not_eq_true', List.isEmpty_eq_false_iff,
    and_assoc]
  rfl

section chained

variable {a : String} {session : SessionRow} {selected : List SelectedFork}
  {t : Int}

/-- What holds of a wake's chain, given what was logged since. -/
structure Chained (a : String) (session : SessionRow)
    (selected : List SelectedFork) (t : Int) (s : Store)
    (later : List Obs) : Prop where
  settled : s.Settled
  /-- What is held is what the wake held. -/
  rows : ∀ row ∈ s.pending.rows, row.sessionId = a →
    ∃ sp ∈ withPreds selected, sp.2 ≠ []
      ∧ row.unnumbered = heldRow session t 0 sp
  /-- What has completed was marked since. -/
  marked : ∀ f, s.forkCompletedSince a f t = true
    ↔ ∃ o ∈ later, CompletesSince a f t o
  /-- A fork the wake held is held, or was handed out, and once. -/
  split : (s.held a ++ later.flatMap (Obs.handsOut a)).Perm
    ((wakeHeld selected).map HeldFork.name)
  justified : Each (Justified a selected t) later

/-- The wake itself. -/
theorem chained_stampWake {s : Store} (ha : session.sessionId = a)
    (hsel : Holdable selected) (hfresh : Fresh a t s)
    (hsettled : s.Settled) (issue : Nat) :
    Chained a session selected t (s.stampWake session selected t issue) []
    where
  settled := by
    obtain ⟨roster, fires, runs, pending, hs⟩ :=
      stampWake_only s session selected t issue
    rw [hs]
    exact hsettled
  rows row hrow hrowa := by
    rcases mem_pending_stampWake hrow with hrow | ⟨sp, hsp, hne, rfl⟩
    · exact absurd hrowa (hfresh.pending row hrow)
    · exact ⟨sp, hsp, hne, rfl⟩
  marked f := by
    rw [forkCompletedSince_stampWake]
    refine iff_of_false (fun hc => ?_) (by simp)
    obtain ⟨r, hr, hsess, -, -, u, hu, hle⟩ := forkCompletedSince_iff.1 hc
    have := hfresh.spawns r hr hsess u hu
    omega
  split := by
    rw [List.flatMap_nil, List.append_nil]
    refine (List.perm_ext_iff_of_nodup (Store.nodup_held _ a)
      hsel.nodup_held).2 fun f => ?_
    rw [Store.mem_held, mem_wakeHeld]
    constructor
    · rintro ⟨row, hrow, hrowa, rfl⟩
      rcases mem_pending_stampWake hrow with hrow | ⟨sp, hsp, hne, rfl⟩
      · exact absurd hrowa (hfresh.pending row hrow)
      · exact ⟨sp, hsp, hne, rfl⟩
    · rintro ⟨sp, hsp, hne, rfl⟩
      exact ⟨heldRow session t issue sp,
        (mem_pending_stampWake_iff hsel.names).2 (.inr ⟨sp, hsp, hne, rfl⟩),
        ha, rfl⟩
  justified := trivial

/-- Entries that hand out nothing, over a store that holds the same. -/
theorem Chained.extend {s s' : Store} {later : List Obs}
    (h : Chained a session selected t s later) (obs : List Obs)
    (hsettled : s'.Settled)
    (hrows : (s'.pending.select fun r => r.sessionId == a).map
        PendingRec.unnumbered
      = (s.pending.select fun r => r.sessionId == a).map
        PendingRec.unnumbered)
    (hmarked : ∀ f, s'.forkCompletedSince a f t = true
      ↔ s.forkCompletedSince a f t = true
        ∨ ∃ o ∈ obs, CompletesSince a f t o)
    (hobs : ∀ o ∈ obs, ∀ n f, ¬Releases a n f o) :
    Chained a session selected t s' (obs ++ later) := by
  have hout : ∀ o ∈ obs, o.handsOut a = [] := by
    intro o ho
    cases o with
    | released k session' deps =>
        unfold Obs.handsOut
        by_cases hs : session'.sessionId = a
        · show (if _ then _ else _) = _
          rw [if_pos hs, List.map_eq_nil_iff, List.eq_nil_iff_forall_not_mem]
          exact fun dep hdep => hobs _ ho dep.issue dep.forkName
            ⟨hs, dep, hdep, rfl, rfl⟩
        · exact if_neg hs
    | _ => rfl
  have hheld : s'.held a = s.held a := by
    have := congrArg (List.map PendingRec.forkName) hrows
    rwa [List.map_map, List.map_map] at this
  constructor
  · exact hsettled
  · intro row hrow hrowa
    have hmem : row.unnumbered ∈ (s.pending.select
        fun r => r.sessionId == a).map PendingRec.unnumbered := by
      rw [← hrows]
      apply List.mem_map_of_mem
      simpa using ⟨hrow, hrowa⟩
    obtain ⟨row₀, hrow₀, heq⟩ := List.mem_map.1 hmem
    rw [Table.mem_select, beq_iff_eq] at hrow₀
    rw [← heq]
    exact h.rows row₀ hrow₀.1 hrow₀.2
  · intro f
    rw [hmarked, h.marked, or_comm]
    simp only [List.mem_append, or_and_right, exists_or]
  · rw [List.flatMap_append, List.flatMap_eq_nil_iff.2 hout, hheld]
    exact h.split
  · refine h.justified.append fun o ho l => ?_
    cases o with
    | released k session' deps =>
        exact fun hs dep hdep => absurd ⟨hs, dep, hdep, rfl, rfl⟩
          (hobs _ ho dep.issue dep.forkName)
    | _ => trivial

/-- A section that disturbs nothing and releases nothing of session `a`
leaves the rows of `a`, and logs no release for it. -/
private theorem pending_run {k : Nat} {now : Int} {d : Daemon} {x : Section}
    (hrelease : ∀ session released, x = .release session released →
      session.sessionId ≠ a)
    (hobs : ∀ o ∈ (x.run k now d).2.2, ¬Disturbs a o) :
    ((x.run k now d).1.pending.select fun r => r.sessionId == a).map
        PendingRec.unnumbered
      = (d.store.pending.select fun r => r.sessionId == a).map
        PendingRec.unnumbered := by
  have same : ∀ {s : Store}, s.pending = d.store.pending →
      (s.pending.select fun r => r.sessionId == a).map PendingRec.unnumbered
        = (d.store.pending.select fun r => r.sessionId == a).map
          PendingRec.unnumbered := fun h => by rw [h]
  cases hcloses : x.closes with
  | true =>
      obtain ⟨ids, hs, hlog⟩ := closes_run k now d hcloses
      have hids : a ∉ ids := by
        intro hmem
        refine hobs (.closed a) ?_ rfl
        rw [hlog, List.mem_reverse]
        exact List.mem_map_of_mem hmem
      have hslice : ∀ (ids : List String) (s : Store), a ∉ ids →
          SameSlice a s (ids.foldl Store.closeSession s) := by
        intro ids
        induction ids with
        | nil => exact fun s _ => .refl a s
        | cons id ids ih =>
            intro s hid
            rw [List.mem_cons, not_or] at hid
            exact (sameSlice_closeSession (Ne.symm hid.1) s).trans
              (ih _ hid.2)
      rw [hs]
      exact (hslice ids d.store hids).pending.symm
  | false =>
      cases x with
      | start ev t => exact same rfl
      | stop ev t => exact same rfl
      | classify ev t =>
          obtain ⟨spawns, hs⟩ := classifyNotification_only d.store ev t
          exact same (by simp only [Section.run, hs])
      | ingest sessionId delta t =>
          obtain ⟨sessions, spawns, hs⟩ :=
            applyDelta_only d.store sessionId delta t
          exact same (by simp only [Section.run, hs])
      | queue sessionId entries =>
          obtain ⟨roster, hs⟩ := queueForks_only d.store sessionId entries now
          exact same (by simp only [Section.run, hs])
      | prompt ev waking t =>
          cases waking with
          | false => exact same rfl
          | true =>
              have hne : ev.sessionId ≠ a := fun he =>
                hobs _ (List.mem_singleton_self _) ⟨he, rfl⟩
              exact (slice_run hne rfl).pending.symm
      | stamp session selected t =>
          have hne : session.sessionId ≠ a := fun he =>
            hobs _ (List.mem_singleton_self _) he
          exact (slice_run hne rfl).pending.symm
      | release session released =>
          exact (slice_run (hrelease session released rfl) rfl).pending.symm
      | _ => cases hcloses

/-- A section that releases nothing of session `a` logs no release for
it. -/
private theorem not_releases_run {k : Nat} {now : Int} {d : Daemon}
    {x : Section}
    (hrelease : ∀ session released, x = .release session released →
      session.sessionId ≠ a) :
    ∀ o ∈ (x.run k now d).2.2, ∀ n f, ¬Releases a n f o := by
  intro o ho n f
  cases x with
  | release session released =>
      rw [List.mem_singleton.1 ho]
      exact fun hr => hrelease session released rfl hr.1
  | stamp session selected t =>
      rw [List.mem_singleton.1 ho]
      exact id
  | _ => exact (mem_pending_run (by simp) (by simp)).2 o ho a n f

/-- A release hands out what is held and has all it waits for. -/
private theorem Chained.release {d : Daemon} {later : List Obs}
    (h : Chained a session selected t d.store later)
    (hsel : Holdable selected) (k : Nat) {session' : SessionRow}
    {released : List PendingDep} (ha : session'.sessionId = a)
    (hcurrent : released = d.store.releasable a) :
    Chained a session selected t (d.store.deleteReleased a released)
      (.released k session' released :: later) := by
  obtain ⟨pending, hpending⟩ := deleteReleased_only d.store a released
  have hlisted : ∀ dep ∈ released, ∃ row ∈ d.store.pending.rows,
      row.sessionId = a ∧ row.toDep = dep := by
    intro dep hdep
    rw [hcurrent] at hdep
    exact (mem_releasable.1 hdep).1
  have hnames : (released.map PendingDep.forkName).Nodup := by
    have hlist := (d.store.listPendingDeps_perm a).nodup_iff.2
      (d.store.nodup_held a)
    rw [hcurrent]
    exact hlist.sublist (List.filter_sublist.map _)
  constructor
  · rw [hpending]
    exact h.settled
  · intro row hrow hrowa
    exact h.rows row (mem_pending_deleteReleased.1 hrow).1 hrowa
  · intro f
    have hsame : (d.store.deleteReleased a released).forkCompletedSince a f t
        = d.store.forkCompletedSince a f t := by
      rw [hpending]
      rfl
    rw [hsame, h.marked, List.exists_mem_cons_iff]
    exact (or_iff_right id).symm
  · refine List.Perm.trans ?_ h.split
    have hout : Obs.handsOut a (.released k session' released)
        = released.map PendingDep.forkName := if_pos ha
    rw [List.flatMap_cons, hout, ← List.append_assoc]
    refine List.Perm.append_right _ (List.Perm.symm ?_)
    refine (List.perm_ext_iff_of_nodup (d.store.nodup_held a) ?_).2 fun f => ?_
    · refine List.Nodup.append (Store.nodup_held _ a) hnames ?_
      intro f hheld hf
      obtain ⟨row, hrow, hrowa, rfl⟩ := Store.mem_held.1 hheld
      obtain ⟨dep, hdep, heq⟩ := List.mem_map.1 hf
      exact (mem_pending_deleteReleased.1 hrow).2 ⟨hrowa, dep, hdep, heq⟩
    · rw [List.mem_append, Store.mem_held, Store.mem_held, List.mem_map]
      simp only [mem_pending_deleteReleased]
      constructor
      · rintro ⟨row, hrow, hrowa, rfl⟩
        by_cases hdep : ∃ dep ∈ released, dep.forkName = row.forkName
        · exact .inr hdep
        · exact .inl ⟨row, ⟨hrow, fun hr => hdep hr.2⟩, hrowa, rfl⟩
      · rintro (⟨row, ⟨hrow, -⟩, hrowa, rfl⟩ | ⟨dep, hdep, rfl⟩)
        · exact ⟨row, hrow, hrowa, rfl⟩
        · obtain ⟨row, hrow, hrowa, rfl⟩ := hlisted dep hdep
          exact ⟨row, hrow, hrowa, rfl⟩
  · refine ⟨fun _ dep hdep => ?_, h.justified⟩
    rw [hcurrent] at hdep
    obtain ⟨⟨row, hrow, hrowa, rfl⟩, hall⟩ := mem_releasable.1 hdep
    obtain ⟨sp, hsp, hne, heq⟩ := h.rows row hrow hrowa
    have hname : row.forkName = sp.1.name :=
      congrArg PendingRec.forkName heq
    have hpreds : row.toDep.preds = sp.2 := by
      have : row.preds = join "," sp.2 := congrArg PendingRec.preds heq
      rw [PendingRec.toDep, this]
      exact hsel.readBack sp hsp hne
    have htime : row.toDep.createdAt = t :=
      congrArg PendingRec.createdAt heq
    refine ⟨sp, hsp, hne, hname, hpreds, fun pred hpred => ?_⟩
    rw [← h.marked, ← htime]
    exact hall pred (hpreds ▸ hpred)

/-- One step of a later run. -/
private theorem chained_step {l₁ : List Obs} (hsel : Holdable selected)
    (w : World) (act : Act) (hcurrent : w.Current a)
    (hC : ∀ o ∈ newer w.daemon.log (w.step act).daemon.log, ¬Disturbs a o)
    (h : ∃ later, w.daemon.log = later ++ l₁
      ∧ Chained a session selected t w.daemon.store later) :
    ∃ later, (w.step act).daemon.log = later ++ l₁
      ∧ Chained a session selected t (w.step act).daemon.store later := by
  refine w.store_invariant
    (C := fun w act => w.Current a
      ∧ ∀ o ∈ newer w.daemon.log (w.step act).daemon.log, ¬Disturbs a o)
    (Q := fun s l => ∃ later, l = later ++ l₁
      ∧ Chained a session selected t s later) ?_ ?_ act ⟨hcurrent, hC⟩ h
  · rintro s l o ho ⟨later, rfl, h⟩
    refine ⟨o :: later, rfl, h.extend [o] h.settled rfl (fun f => ?_) ?_⟩
    · refine (or_iff_left ?_).symm
      rintro ⟨o', ho', hsince⟩
      rw [List.mem_singleton.1 ho'] at hsince
      cases o with
      | marked b g u => cases ho
      | _ => cases hsince
    · intro o' ho'
      rw [List.mem_singleton.1 ho']
      exact passive_releases ho a
  · rintro w k tick x ⟨hcurrent, hquiet⟩ hab ⟨later, hlog, h⟩
    rw [World.step_write hab, newer_append] at hquiet
    refine ⟨(x.run k tick.now w.daemon).2.2 ++ later,
      by rw [hlog, List.append_assoc], ?_⟩
    by_cases hrelease : ∃ session released, x = .release session released
        ∧ session.sessionId = a
    · obtain ⟨session', released, rfl, ha⟩ := hrelease
      have := h.release hsel k ha (hcurrent k session' released hab ha)
      rw [← ha] at this ⊢
      exact this
    · push Not at hrelease
      refine h.extend _ (settled_run x h.settled)
        (pending_run hrelease hquiet) (fun f => ?_) (not_releases_run hrelease)
      exact completedSince_run_iff x h.settled fun hclosed =>
        hquiet _ hclosed rfl

/-- Once all that was handed out has completed, what is held and waits
for nothing held is listed. -/
theorem Chained.releasable_ne_nil {s : Store} {later : List Obs}
    (h : Chained a session selected t s later) (hsel : Holdable selected)
    (hdone : ∀ f ∈ (wakeRoots selected).map DueFork.name
        ++ later.flatMap (Obs.handsOut a),
      ∃ o ∈ later, CompletesSince a f t o)
    (hheld : s.held a ≠ []) : s.releasable a ≠ [] := by
  have hindex : ∀ f ∈ s.held a, ∃ i : Fin selected.length,
      (selected.get i).name = f := by
    intro f hf
    have hmem := h.split.subset (List.mem_append_left _ hf)
    obtain ⟨sp, hsp, -, rfl⟩ := mem_wakeHeld.1 hmem
    obtain ⟨i, -, rfl⟩ := List.mem_map.1 hsp
    exact ⟨i, rfl⟩
  obtain ⟨f, hf⟩ := List.exists_mem_of_ne_nil _ hheld
  obtain ⟨j, rfl⟩ := hindex f hf
  -- a held fork that waits for none that is held
  obtain ⟨i, hi, hmin⟩ := (resolveDeps_wellFounded selected).has_min
    {i | (selected.get i).name ∈ s.held a} ⟨j, hf⟩
  obtain ⟨row, hrow, hrowa, hname⟩ := Store.mem_held.1 hi
  obtain ⟨sp, hsp, hne, heq⟩ := h.rows row hrow hrowa
  have hsp2 : sp.2 = wakePreds selected i := by
    obtain ⟨i', -, rfl⟩ := List.mem_map.1 hsp
    have hsame : (selected.get i').name = (selected.get i).name :=
      (congrArg PendingRec.forkName heq).symm.trans hname
    rw [hsel.index_eq hsame]
  have hpreds : row.toDep.preds = wakePreds selected i := by
    have : row.preds = join "," sp.2 := congrArg PendingRec.preds heq
    rw [PendingRec.toDep, this, ← hsp2]
    exact hsel.readBack sp hsp hne
  have htime : row.toDep.createdAt = t := congrArg PendingRec.createdAt heq
  apply List.ne_nil_of_mem (a := row.toDep)
  refine mem_releasable.2 ⟨⟨row, hrow, hrowa, rfl⟩, fun pred hpred => ?_⟩
  rw [hpreds, wakePreds, List.mem_map] at hpred
  obtain ⟨d, hd, rfl⟩ := hpred
  rw [htime, h.marked]
  apply hdone
  have hselected : (selected.get d).name ∈ selected.map SelectedFork.name :=
    List.mem_map_of_mem (List.get_mem selected d)
  rcases List.mem_append.1 ((roots_held_perm selected).symm.subset hselected)
    with hroot | hwas
  · exact List.mem_append_left _ hroot
  · rcases List.mem_append.1 (h.split.symm.subset hwas) with hstill | hout
    · exact absurd hd (hmin d hstill)
    · exact List.mem_append_right _ hout

end chained

-- ======================================================= the chain drains

/-- A call of `release_due` that runs through releases what is listed. -/
theorem releaseDue_alone {d : Daemon} {session : SessionRow}
    (h : d.store.releasable session.sessionId ≠ []) (k : Nat) (now : Int) :
    ∃ d' payload, (releaseDue session).alone (at_ k now) d
        = some (d', some payload)
      ∧ d'.log = .released k session (d.store.releasable session.sessionId)
        :: d.log := by
  refine ⟨{ d with
      store := d.store.deleteReleased session.sessionId
        (d.store.releasable session.sessionId)
      log := .released k session (d.store.releasable session.sessionId)
        :: d.log
      wakeIssuedAt := upd d.wakeIssuedAt session.sessionId (some now) },
    buildReleasePayload session.sessionId (conversationId session)
      session.projectRoot
      ((d.store.releasable session.sessionId).map PendingDep.toDue), ?_, rfl⟩
  show Prog.alone (at_ k now) (if _ then _ else _) d = _
  rw [if_neg (by simpa using h)]
  rfl

/-- Whatever the selection and its `after` lists, in every reachable
state and every interleaving in which releases are one step: from a
wake into a session with nothing held and nothing completed, some fork
spawns now and each one does or is held. As long as nothing disturbs
the session, a released fork was held and all it waits for has been
marked since the wake; a held fork is still held or was released, and
that once; and when all that was handed out has completed, a release
releases something if something is held. So if then nothing is left to
release, all held forks have been released, each once. -/
theorem held_chain_drains {disk : Disk} {a : String} {bs cs : List Act}
    {k : Nat} {tick : Tick} {session : SessionRow}
    {selected : List SelectedFork} {t : Int}
    (hstamp : (World.after disk bs).about k
      = some (.write (.stamp session selected t)))
    (ha : session.sessionId = a) (hsel : Holdable selected)
    (hfresh : Fresh a t (World.after disk bs).daemon.store)
    (hwhole : releaseWhole a (World.after disk bs) (.move k tick) = true)
    (hlater : Along World.step (onlyReleases a)
      ((World.after disk bs).step (.move k tick)) cs) :
    let w₁ := (World.after disk bs).step (.move k tick)
    let w := run World.step w₁ cs
    let later := newer w₁.daemon.log w.daemon.log
    let roots := (wakeRoots selected).map DueFork.name
    let held := (wakeHeld selected).map HeldFork.name
    let out := later.flatMap (Obs.handsOut a)
    let allDone := ∀ f ∈ roots ++ out, ∃ o ∈ later, CompletesSince a f t o
    (roots ≠ [] ∧ (roots ++ held).Perm (selected.map SelectedFork.name))
      ∧ Each (Justified a selected t) later
      ∧ held.Nodup ∧ (w.daemon.store.held a ++ out).Perm held
      ∧ (allDone → w.daemon.store.held a ≠ [] →
        ∀ session', session'.sessionId = a → ∀ k' now,
          ∃ d' payload released, released ≠ []
            ∧ (releaseDue session').alone (at_ k' now) w.daemon
              = some (d', some payload)
            ∧ d'.log = .released k' session' released :: w.daemon.log)
      ∧ (allDone → w.daemon.store.releasable a = [] → out.Perm held) := by
  intro w₁ w later roots held out allDone
  have hnumbered := World.numbered_after disk bs
  have hw₁ := World.step_write hstamp tick
  have hstart : w₁.Current a ∧ w₁.Listing ∧ w₁.Numbered
      ∧ ∃ later, w₁.daemon.log = later ++ w₁.daemon.log
        ∧ Chained a session selected t w₁.daemon.store later := by
    have hcurrent : (World.after disk bs).Current a := by
      refine World.current_of_whole hnumbered hwhole ?_
      rw [World.deleting, hstamp]
    refine ⟨World.current_step _ _ hnumbered (World.listing_after disk bs)
      hwhole hcurrent, ?_, World.numbered_step hnumbered _, [], rfl, ?_⟩
    · have := World.listing_after disk (bs ++ [.move k tick])
      rwa [World.after, run_append] at this
    · rw [hw₁]
      exact chained_stampWake ha hsel hfresh
        (recorded_after disk bs).settled _
  obtain ⟨-, -, -, later', hlog, h⟩ := hlater.invariant
    (P := fun w => w.Current a ∧ w.Listing ∧ w.Numbered
      ∧ ∃ later, w.daemon.log = later ++ w₁.daemon.log
        ∧ Chained a session selected t w.daemon.store later)
    (fun w act hC h => ⟨World.current_step w act h.2.2.1 h.2.1 hC.1 h.1,
      World.listing_step w act h.2.1, World.numbered_step h.2.2.1 act,
      chained_step hsel w act h.1 hC.2 h.2.2.2⟩)
    hstart
  have hnewer : later = later' := by
    show newer w₁.daemon.log w.daemon.log = later'
    rw [hlog, newer_append]
  rw [← hnewer] at h
  refine ⟨⟨?_, roots_held_perm selected⟩, h.justified, hsel.nodup_held,
    h.split, fun hdone hheld session' hs k' now => ?_, fun hdone hnone => ?_⟩
  · rw [ne_eq, List.map_eq_nil_iff]
    exact wakeRoots_ne_nil hsel.nonempty
  · have hne := h.releasable_ne_nil hsel hdone hheld
    subst hs
    obtain ⟨d', payload, hrun, hlog⟩ := releaseDue_alone hne k' now
    exact ⟨d', payload, _, hne, hrun, hlog⟩
  · have hempty : w.daemon.store.held a = [] := by
      by_contra hheld
      exact h.releasable_ne_nil hsel hdone hheld hnone
    have := h.split
    rwa [hempty, List.nil_append] at this

-- ------------------------------------------------------------ two forks

/-- The session of `heldRun`, as its poll reads it. -/
private def heldSession : SessionRow where
  sessionId := "s"
  projectRoot := "/p"
  cwd := "/p"
  transcriptPath := some "t"
  status := .open
  lastActivity := 10
  transcriptOffset := 1
  promptTokens := some 5
  model := none
  createdAt := 10
  enableTags := none
  disableTags := none
  pauseEpoch := 0
  pauseStartedAt := some 10

/-- What it selects: `beta` is to run after `alpha`. -/
private def heldSelection : List SelectedFork :=
  [{ name := "alpha", path := "alpha", trigger := "context_tokens:1"
     overlap := false, after := [], tags := []
     latchKey := some "context_tokens:1" },
    { name := "beta", path := "beta", trigger := "context_tokens:1"
      overlap := false, after := ["alpha"], tags := []
      latchKey := some "context_tokens:1" }]

/-- What follows the stamping: `alpha` completes, a poll hands out
`beta`, `beta` completes, a poll finds nothing to release. -/
private def draining : List Act :=
  Act.moves 3 0 10 ++ .edit (chain {
      newOffset := 2
      spawns := [("u", some "alpha")]
      notifications := [⟨some "u", none, some "completed"⟩] })
    :: .stop "s" :: Act.moves 16 1 20 ++ .edit (chain {
      newOffset := 3
      spawns := [("v", some "beta")]
      notifications := [⟨some "v", none, some "completed"⟩] })
    :: .stop "s" :: Act.moves 16 2 30

/-- Two forks in turn. -/
theorem held_chain_drains_pair :
    let w₁ := World.after (chain { newOffset := 1, promptTokens := some 5 })
      (.stop "s" :: Act.moves 33 0 10)
    let w := run World.step w₁ draining
    ((newer w₁.daemon.log w.daemon.log).flatMap (Obs.handsOut "s")).Perm
      ["beta"] := by
  have hstamp : (World.after
      (chain { newOffset := 1, promptTokens := some 5 })
      (.stop "s" :: Act.moves 32 0 10)).about 0
      = some (.write (.stamp heldSession heldSelection 10)) := by
    apply about_of_stampOf
    decide +kernel
  have hlater : Along World.step (onlyReleases "s")
      ((World.after (chain { newOffset := 1, promptTokens := some 5 })
        (.stop "s" :: Act.moves 32 0 10)).step (.move 0 { now := 10 }))
      draining := by
    decide +kernel
  have hdrains := held_chain_drains hstamp rfl
    ⟨by decide, by decide, by decide +kernel⟩
    ⟨by decide +kernel, by decide +kernel⟩ (by decide +kernel) hlater
  exact hdrains.2.2.2.2.2 (by decide +kernel) (by decide +kernel)

end Autofork
