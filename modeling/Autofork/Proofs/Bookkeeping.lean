/-
The bookkeeping of the parked polls.

A poll makes a park guard once it is registered, and drops it where its
handler returns, or where the server gives it up after its connection
dropped. A handler is typed by whether it holds its guard (`guarding`),
and what it still has to do is typed by whether the guard is among those
alive (`Guarded.typed`). So each guard that is alive is held by a poll
that is not over, is dropped once, and the entry of its session counts
it.

A poll that has not been sent its cancellation is the one in the slot of
its session (`Channels`), and that one is the latest to have registered,
with no cancellation since (`Current`).
-/
import Autofork.Lib.Typestate
import Autofork.Proofs.MidTurn

namespace Autofork

open Lib

-- ================================================= what is kept of polls

/-- The slot of session `a` is taken by another poll, or emptied. -/
def Obs.replaces (a : String) : Obs → Prop
  | .registered _ b | .cancelled _ b => b = a
  | _ => False

/-- The entry of `n` park guards. -/
def parkEntry (n : Nat) : Option Nat := if n = 0 then none else some n

namespace World

/-- How many park guards of session `a` are alive. -/
def liveGuards (a : String) (w : World) : Nat :=
  w.daemon.guards.countP fun g => g.2 == a

/-- Poll `k` of session `a` is registered and waits, and has not been
sent its cancellation. -/
def uncancelled (a : String) (w : World) (k : Nat) : Prop :=
  .registered k a ∈ w.daemon.log ∧ w.waiting k = true
    ∧ w.daemon.signalled k = false

/-- The bookkeeping of session `a` is exact. -/
structure PollsExact (a : String) (w : World) : Prop where
  parked : w.daemon.parked a = parkEntry (w.liveGuards a)
  /-- Where a guard is dropped, the entry is there and does not
  underflow. -/
  drops : ∀ k, w.about k = some (.unpark a) →
    ∃ c, w.daemon.parked a = some (c + 1)
  /-- A guard that is alive is held by a poll that is not over. -/
  held : ∀ k, (k, a) ∈ w.daemon.guards →
    w.isPoll a k = true ∧ (w.tasks k).isSome = true
  /-- A poll at an await holds its guard. -/
  awaiting : ∀ k op, w.isPoll a k = true → w.about k = some op →
    op.awaits = true → (k, a) ∈ w.daemon.guards
  /-- A poll holds one guard at most. -/
  once : (w.daemon.guards.map Prod.fst).Nodup
  /-- A poll that has not been cancelled is the latest to have
  registered, and nothing has cancelled it since. -/
  latest : ∀ k, w.uncancelled a k →
    Since (· = .registered k a) (Obs.replaces a) w.daemon.log
  only : ∀ j k, w.uncancelled a j → w.uncancelled a k → j = k
  /-- A cancellation leaves none. -/
  cancels : ∀ k tick, w.about k = some (.cancelWait a) →
    ∀ j, ¬(w.step (.move k tick)).uncancelled a j

end World

-- ====================================================== holding a guard

/-- The job is a poll of session `a`. -/
def Job.polls (a : String) : Job → Prop
  | .request (.stopWait ev) => ev.sessionId = a
  | _ => False

theorem Job.polls_unique {a b : String} {job : Job} (ha : job.polls a)
    (hb : job.polls b) : a = b := by
  cases job with
  | request req =>
      cases req with
      | stopWait ev => exact ha.symm.trans hb
      | event ev => cases ha
      | prune => cases ha
  | reap => cases ha
  | grace sessionId gen => cases ha

/-- A handler, by whether it holds its guard. -/
def guarding (job : Job) : Prog.Typestate Op Op.Res Bool where
  ok holds
    | .park a => holds = false ∧ job.polls a
    | .unpark a => holds = true ∧ job.polls a
    | .select _ => holds = true
    | _ => True
  next holds
    | .park _, _ => true
    | .unpark _, _ => false
    | _, _ => holds

/-- A program that starts with the guard held or not, and ends so. -/
abbrev Guards {α : Type} (job : Job) (before after : Bool) (p : Handler α) :
    Prop :=
  p.Typed (guarding job) (fun m _ => m = after) before

/-- An operation that has nothing to do with a guard. -/
def Op.bare : Op → Bool
  | .park _ | .unpark _ | .select _ => false
  | _ => true

/-- A program of such operations. -/
abbrev Bare {α : Type} (p : Handler α) : Prop :=
  p.Every fun op => op.bare = true

theorem bare_go {op : Op} (h : op.bare = true) : Bare op.go :=
  ⟨h, fun _ => trivial⟩

theorem Sifts.bare {α : Type} {p : Handler α} (h : Sifts p) : Bare p := by
  refine Prog.Every.mono (fun op hop => ?_) h
  cases op <;> first | rfl | cases hop

theorem bare_handleEvent (ev : Event) : Bare (handleEvent ev) := by
  refine (bare_go rfl).bind fun _ => (bare_go rfl).bind fun t => ?_
  split
  · exact (bare_go rfl).bind fun _ => trivial
  · exact (sifts_classifyPrompt ev t).bare.bind fun waking =>
      (bare_go rfl).bind fun _ => (bare_go rfl).bind fun _ => trivial
  · exact (bare_go rfl).bind fun _ => (bare_go rfl).bind fun _ => trivial
  · trivial

theorem bare_closeAll (sessions : List String) : Bare (closeAll sessions) := by
  induction sessions with
  | nil => trivial
  | cons sessionId rest ih => exact (bare_go rfl).bind fun _ => ih

theorem bare_graceClose (sessionId : String) (gen : Nat) :
    Bare (graceClose sessionId gen) := by
  refine (bare_go rfl).bind fun due => ?_
  split
  · exact (bare_go rfl).bind fun _ => trivial
  · trivial

section guards

variable {job : Job}

theorem Bare.guards {α : Type} {p : Handler α} (h : Bare p) (holds : Bool) :
    Guards job holds holds p := by
  refine Prog.Every.typed (I := (· = holds)) rfl
    (h.mono fun op hop m hm => ?_)
  cases op <;> first | exact ⟨trivial, fun _ _ => hm⟩ | cases hop

/-- A parked poll holds its guard all along. -/
theorem Polls.guards {α : Type} {p : Handler α} (h : Polls p) :
    Guards job true true p := by
  refine Prog.Every.typed (I := (· = true)) rfl (h.mono fun op hop m hm => ?_)
  cases op with
  | select sleepSecs => exact ⟨hm, fun _ _ => hm⟩
  | _ => first | exact ⟨trivial, fun _ _ => hm⟩ | cases hop

private theorem guards_then {α β : Type} {before between after : Bool}
    {p : Handler α} {f : α → Handler β} (hp : Guards job before between p)
    (hf : ∀ r, Guards job between after (f r)) :
    Guards job before after (p >>= f) :=
  Prog.Typed.bind hp fun _ r hm => hm ▸ hf r

private theorem guards_park (ev : Event) :
    Guards (.request (.stopWait ev)) false true (Op.park ev.sessionId).go :=
  ⟨⟨rfl, rfl⟩, fun _ _ => rfl⟩

private theorem guards_unpark (ev : Event) :
    Guards (.request (.stopWait ev)) true false (Op.unpark ev.sessionId).go :=
  ⟨⟨rfl, rfl⟩, fun _ _ => rfl⟩

theorem guards_handleStopWait (ev : Event) :
    Guards (.request (.stopWait ev)) false false (handleStopWait ev) := by
  refine guards_then ((bare_go rfl).guards false) fun _ =>
    guards_then ((bare_go rfl).guards false) fun t =>
    guards_then ((bare_go rfl).guards false) fun _ =>
    guards_then ((sifts_ingestTranscript ev).bare.guards false) fun tokens =>
    guards_then ((bare_go rfl).guards false) fun cfg =>
    guards_then ((bare_go rfl).guards false) fun _ => ?_
  -- from here on the guard is held, up to the return
  exact guards_then (guards_park ev) fun _ =>
    guards_then (polls_parkedPoll ev t tokens cfg).guards fun body =>
    guards_then (guards_unpark ev) fun _ => rfl

theorem guards_handler (job : Job) : Guards job false false job.handler := by
  cases job with
  | request req =>
      cases req with
      | event ev => exact (bare_handleEvent ev).guards false
      | stopWait ev => exact guards_handleStopWait ev
      | prune =>
          exact guards_then ((bare_go rfl).guards false) fun t =>
            guards_then ((bare_go rfl).guards false) fun stale => rfl
  | reap => exact guards_then ((bare_go rfl).guards false) fun cutoffs =>
      (bare_closeAll cutoffs).guards false
  | grace sessionId gen => exact (bare_graceClose sessionId gen).guards false

/-- A lost poll drops the guard it holds. -/
theorem guards_onPollLost (ev : Event) (holds : Bool) :
    Guards (.request (.stopWait ev)) holds false
      (onPollLost ev.sessionId holds) := by
  refine guards_then ((bare_go rfl).guards holds) fun gen =>
    guards_then ((bare_go rfl).guards holds) fun _ =>
    guards_then ((bare_go rfl).guards holds) fun _ => ?_
  cases holds with
  | true => exact guards_then (guards_unpark ev) fun _ => rfl
  | false => rfl

end guards

-- ==================================================== guards and entries

@[simp] theorem parkGuard_new (n : Nat) :
    ParkGuard.new (parkEntry n) = parkEntry (n + 1) := by
  cases n <;> rfl

@[simp] theorem parkGuard_drop (n : Nat) :
    ParkGuard.drop (parkEntry (n + 1)) = parkEntry n := by
  cases n <;> rfl

theorem parkEntry_succ (n : Nat) : parkEntry (n + 1) = some (n + 1) := rfl

/-- Only these two touch the guards. -/
theorem exec_guards {k : Nat} {op : Op} {tick : Tick} {d d' : Daemon}
    {r : op.Res} (h : exec k op tick d = some (d', r)) :
    (∃ a, op = .park a ∧ d'.guards = (k, a) :: d.guards
        ∧ d'.parked = upd d.parked a (ParkGuard.new (d.parked a)))
      ∨ (∃ a, op = .unpark a ∧ d'.guards = d.guards.erase (k, a)
        ∧ d'.parked = upd d.parked a (ParkGuard.drop (d.parked a)))
      ∨ ((∀ a, op ≠ .park a) ∧ (∀ a, op ≠ .unpark a)
        ∧ d'.guards = d.guards ∧ d'.parked = d.parked) := by
  have hsame : ∀ {e : Daemon} {r' : op.Res}, (∀ a, op ≠ .park a) →
      (∀ a, op ≠ .unpark a) → some (e, r') = some (d', r) →
      e.guards = d.guards → e.parked = d.parked →
      (∀ a, op ≠ .park a) ∧ (∀ a, op ≠ .unpark a)
        ∧ d'.guards = d.guards ∧ d'.parked = d.parked := by
    intro e r' hpark hunpark heq hguards hparked
    obtain ⟨rfl, -⟩ := Prod.mk.inj (Option.some.inj heq)
    exact ⟨hpark, hunpark, hguards, hparked⟩
  have hsignal : ∀ j, (d.signal j).guards = d.guards
      ∧ (d.signal j).parked = d.parked := by
    intro j
    cases j <;> exact ⟨rfl, rfl⟩
  cases op with
  | park a =>
      obtain ⟨rfl, -⟩ := Prod.mk.inj (Option.some.inj h)
      exact .inl ⟨a, rfl, rfl, rfl⟩
  | unpark a =>
      obtain ⟨rfl, -⟩ := Prod.mk.inj (Option.some.inj h)
      exact .inr (.inl ⟨a, rfl, rfl, rfl⟩)
  | select sleepSecs =>
      refine .inr (.inr ?_)
      simp only [exec] at h
      split at h
      · split at h
        · exact hsame (by simp) (by simp) h rfl rfl
        · cases h
      · split at h
        · exact hsame (by simp) (by simp) h rfl rfl
        · cases h
      · exact hsame (by simp) (by simp) h rfl rfl
  | snapshot s =>
      refine .inr (.inr ?_)
      simp only [exec] at h
      split at h
      · exact hsame (by simp) (by simp) h rfl rfl
      · exact hsame (by simp) (by simp) h rfl rfl
  | takePendingClose s gen =>
      refine .inr (.inr ?_)
      simp only [exec] at h
      split at h
      · exact hsame (by simp) (by simp) h rfl rfl
      · exact hsame (by simp) (by simp) h rfl rfl
  | register s | cancelWait s =>
      exact .inr (.inr (hsame (by simp) (by simp) h (hsignal _).1 (hsignal _).2))
  | _ => exact .inr (.inr (hsame (by simp) (by simp) h rfl rfl))

namespace World

/-- Task `k` holds a guard. -/
def holds (w : World) (k : Nat) : Bool := w.daemon.guards.any fun g => g.1 == k

/-- The guards that are alive, their holders and the entries. -/
structure Guarded (w : World) : Prop where
  numbered : w.Numbered
  typed : ∀ k task, w.tasks k = some task →
    Guards task.job (w.holds k) false task.prog
  fresh : ∀ k task, w.tasks k = some task → task.started = false →
    w.holds k = false
  held : ∀ k a, (k, a) ∈ w.daemon.guards →
    ∃ task, w.tasks k = some task ∧ task.job.polls a
  once : (w.daemon.guards.map Prod.fst).Nodup
  counted : ∀ a, w.daemon.parked a = parkEntry (w.liveGuards a)

theorem guarded_init (disk : Disk) : (init disk).Guarded where
  numbered := numbered_init disk
  typed k task h := by cases h
  fresh k task h := by cases h
  held k a h := by cases h
  once := List.nodup_nil
  counted a := rfl

theorem holds_iff {w : World} {k : Nat} :
    w.holds k = true ↔ ∃ a, (k, a) ∈ w.daemon.guards := by
  simp [holds]

/-- A task has gone on, and of the guards only its own may have
changed. -/
private theorem Guarded.resumed {w : World} (h : w.Guarded) {k : Nat}
    {task : Task} {d : Daemon} {p : Handler ResponseBody}
    (ht : w.tasks k = some task) (hn : (w.resumed k task d p).Numbered)
    (hp : Guards task.job ((w.resumed k task d p).holds k) false p)
    (hothers : ∀ j, j ≠ k → (w.resumed k task d p).holds j = w.holds j)
    (hheld : ∀ j a, (j, a) ∈ d.guards →
      (j, a) ∈ w.daemon.guards ∨ j = k ∧ task.job.polls a)
    (honce : (d.guards.map Prod.fst).Nodup)
    (hcounted : ∀ a, d.parked a = parkEntry (d.guards.countP fun g => g.2 == a)) :
    (w.resumed k task d p).Guarded where
  numbered := hn
  typed j task' ht' := by
    by_cases hj : j = k
    · subst hj
      obtain rfl := Option.some.inj ((upd_same ..).symm.trans ht')
      exact hp
    · rw [hothers j hj]
      exact h.typed j task' ((upd_other _ _ hj).symm.trans ht')
  fresh j task' ht' hstarted := by
    by_cases hj : j = k
    · subst hj
      obtain rfl := Option.some.inj ((upd_same ..).symm.trans ht')
      cases hstarted
    · rw [hothers j hj]
      exact h.fresh j task' ((upd_other _ _ hj).symm.trans ht') hstarted
  held j a hg := by
    by_cases hj : j = k
    · subst hj
      refine ⟨_, upd_same .., ?_⟩
      rcases hheld j a hg with hg | ⟨-, hpoll⟩
      · obtain ⟨task', ht', hpoll⟩ := h.held j a hg
        obtain rfl := Option.some.inj (ht.symm.trans ht')
        exact hpoll
      · exact hpoll
    · rcases hheld j a hg with hg | ⟨hk, -⟩
      · obtain ⟨task', ht', hpoll⟩ := h.held j a hg
        exact ⟨task', (upd_other _ _ hj).trans ht', hpoll⟩
      · exact absurd hk hj
  once := honce
  counted := hcounted

/-- Making a guard. -/
private theorem Guarded.park {w : World} (h : w.Guarded) {k : Nat}
    {task : Task} {d : Daemon} {p : Handler ResponseBody} {a : String}
    (ht : w.tasks k = some task) (hn : (w.resumed k task d p).Numbered)
    (hholds : w.holds k = false) (hpoll : task.job.polls a)
    (hp : Guards task.job true false p)
    (hguards : d.guards = (k, a) :: w.daemon.guards)
    (hparked : d.parked
      = upd w.daemon.parked a (ParkGuard.new (w.daemon.parked a))) :
    (w.resumed k task d p).Guarded := by
  have hheldAny : ∀ j, (w.resumed k task d p).holds j
      = (k == j || w.holds j) := by
    intro j
    show d.guards.any _ = _
    rw [hguards, List.any_cons]
    rfl
  refine h.resumed ht hn ?_ ?_ ?_ ?_ ?_
  · rw [hheldAny, beq_self_eq_true, Bool.true_or]
    exact hp
  · intro j hj
    rw [hheldAny, beq_false_of_ne (Ne.symm hj), Bool.false_or]
  · intro j b hg
    rw [hguards, List.mem_cons, Prod.mk.injEq] at hg
    rcases hg with ⟨rfl, rfl⟩ | hg
    · exact .inr ⟨rfl, hpoll⟩
    · exact .inl hg
  · rw [hguards, List.map_cons, List.nodup_cons]
    refine ⟨fun hmem => ?_, h.once⟩
    obtain ⟨⟨j, b⟩, hg, rfl⟩ := List.mem_map.1 hmem
    rw [holds_iff.2 ⟨b, hg⟩] at hholds
    cases hholds
  · intro b
    rw [hparked, hguards, List.countP_cons]
    by_cases hb : b = a
    · subst hb
      rw [upd_same, h.counted, parkGuard_new]
      simp [liveGuards]
    · rw [upd_other _ _ hb, h.counted]
      simp [liveGuards, Ne.symm hb]

/-- Dropping the guard one holds. -/
private theorem Guarded.unpark {w : World} (h : w.Guarded) {k : Nat}
    {task : Task} {d : Daemon} {p : Handler ResponseBody} {a : String}
    (ht : w.tasks k = some task) (hn : (w.resumed k task d p).Numbered)
    (hmem : (k, a) ∈ w.daemon.guards) (hp : Guards task.job false false p)
    (hguards : d.guards = w.daemon.guards.erase (k, a))
    (hparked : d.parked
      = upd w.daemon.parked a (ParkGuard.drop (w.daemon.parked a))) :
    (w.resumed k task d p).Guarded := by
  have hperm := List.perm_cons_erase hmem
  rw [← hguards] at hperm
  have honce := (hperm.map Prod.fst).nodup_iff.1 h.once
  rw [List.map_cons, List.nodup_cons] at honce
  have hany : ∀ j, w.holds j
      = (k == j || (w.resumed k task d p).holds j) := by
    intro j
    have := hperm.any_eq (f := fun g => g.1 == j)
    rwa [List.any_cons] at this
  refine h.resumed ht hn ?_ ?_ ?_ honce.2 ?_
  · have hk : (w.resumed k task d p).holds k = false := by
      rw [Bool.eq_false_iff]
      intro hk
      obtain ⟨b, hg⟩ := holds_iff.1 hk
      exact honce.1 (List.mem_map.2 ⟨_, hg, rfl⟩)
    rw [hk]
    exact hp
  · intro j hj
    rw [hany, beq_false_of_ne (Ne.symm hj), Bool.false_or]
  · intro j b hg
    rw [hguards] at hg
    exact .inl (List.mem_of_mem_erase hg)
  · intro b
    have hcount := hperm.countP_eq (p := fun g => g.2 == b)
    rw [List.countP_cons] at hcount
    rw [hparked]
    by_cases hb : b = a
    · subst hb
      rw [upd_same, h.counted, liveGuards, hcount]
      simp
    · rw [upd_other _ _ hb, h.counted, liveGuards, hcount]
      simp [Ne.symm hb]

/-- What a task that holds a guard holds it for. -/
theorem Guarded.mem_of_holds {w : World} (h : w.Guarded) {k : Nat}
    {task : Task} (ht : w.tasks k = some task) {a : String}
    (hholds : w.holds k = true) (hpoll : task.job.polls a) :
    (k, a) ∈ w.daemon.guards := by
  obtain ⟨b, hg⟩ := holds_iff.1 hholds
  obtain ⟨task', ht', hpoll'⟩ := h.held k b hg
  obtain rfl := Option.some.inj (ht.symm.trans ht')
  obtain rfl : b = a := Job.polls_unique hpoll' hpoll
  exact hg

/-- A task performs its next operation. -/
private theorem Guarded.move {w : World} (h : w.Guarded) {k : Nat}
    {task : Task} {op : Op} {f : op.Res → Handler ResponseBody} {tick : Tick}
    {d : Daemon} {r : op.Res} (ht : w.tasks k = some task)
    (hprog : task.prog = .call op f)
    (hex : exec k op tick w.daemon = some (d, r))
    (hn : (w.resumed k task d (f r)).Numbered) :
    (w.resumed k task d (f r)).Guarded := by
  have hp := h.typed k task ht
  rw [hprog] at hp
  obtain ⟨hok, hnext⟩ := hp
  have hnext := hnext r trivial
  rcases exec_guards hex with ⟨a, rfl, hguards, hparked⟩
    | ⟨a, rfl, hguards, hparked⟩ | ⟨hpark, hunpark, hguards, hparked⟩
  · exact h.park ht hn hok.1 hok.2 hnext hguards hparked
  · exact h.unpark ht hn (h.mem_of_holds ht hok.1 hok.2) hnext hguards hparked
  · have hholds : ∀ j, (w.resumed k task d (f r)).holds j = w.holds j := by
      intro j
      show d.guards.any _ = _
      rw [hguards]
      rfl
    have hkeep : (guarding task.job).next (w.holds k) op r = w.holds k := by
      cases op with
      | park a => exact absurd rfl (hpark a)
      | unpark a => exact absurd rfl (hunpark a)
      | _ => rfl
    rw [hkeep] at hnext
    refine h.resumed ht hn ((hholds k).symm ▸ hnext) (fun j _ => hholds j) ?_ ?_ ?_
    · exact fun j a hg => .inl (hguards ▸ hg)
    · rw [hguards]
      exact h.once
    · rw [hparked, hguards]
      exact h.counted

/-- What has no number yet holds no guard. -/
theorem Guarded.not_holds {w : World} (h : w.Guarded) {k : Nat}
    (hk : w.jobs.length ≤ k) : w.holds k = false := by
  rw [Bool.eq_false_iff]
  intro hholds
  obtain ⟨a, hg⟩ := holds_iff.1 hholds
  obtain ⟨task, ht, -⟩ := h.held k a hg
  exact absurd (h.numbered.lt ht) (by omega)

theorem guarded_step {w : World} (h : w.Guarded) (act : Act) :
    (w.step act).Guarded := by
  have hn := numbered_step h.numbered act
  rcases w.step_cases act with
    ⟨k, task, op, f, tick, d, r, -, ht, hprog, -, hex, heq⟩
    | ⟨k, tick, task, body, -, ht, hprog, heq⟩
    | ⟨disk, graceTimers, heq, hstay⟩
  · rw [heq] at hn ⊢
    exact h.move ht hprog hex hn
  · -- who returns has dropped its guard
    have hk : w.holds k = false := by
      have hp := h.typed k task ht
      rw [hprog] at hp
      exact hp
    rw [heq] at hn ⊢
    have hold : ∀ {j task'}, upd w.tasks k none j = some task' →
        w.tasks j = some task' := by
      intro j task' hj
      by_cases hjk : j = k
      · rw [hjk, upd_same] at hj
        cases hj
      · rwa [upd_other _ _ hjk] at hj
    refine ⟨hn, fun j task' hj => h.typed j task' (hold hj),
      fun j task' hj => h.fresh j task' (hold hj), fun j a hg => ?_, h.once,
      h.counted⟩
    obtain ⟨task', ht', hpoll⟩ := h.held j a hg
    refine ⟨task', ?_, hpoll⟩
    have hjk : j ≠ k := by
      rintro rfl
      have hholds : w.holds j = true := holds_iff.2 ⟨a, hg⟩
      rw [hk] at hholds
      cases hholds
    exact (upd_other _ _ hjk).trans ht'
  · -- a task may start, or be given up
    have hguards : (w.step act).daemon.guards = w.daemon.guards := by rw [heq]
    have hholds : ∀ k, (w.step act).holds k = w.holds k := by
      intro k
      rw [holds, hguards, holds]
    have hlost : ∀ {k ev started op f},
        w.tasks k = some ⟨.request (.stopWait ev), started, true, .call op f⟩ →
        (!started || op.awaits) = true → w.holds k = started := by
      intro k ev started op f ht hlose
      cases started with
      | false => exact h.fresh k _ ht rfl
      | true =>
          have hok := (h.typed k _ ht).1
          cases op with
          | select sleepSecs => exact hok
          | _ => cases hlose
    refine ⟨hn, fun k task ht => ?_, fun k task ht hstarted => ?_,
      fun k a hg => ?_, ?_, fun a => ?_⟩
    · rw [hholds]
      rcases step_tasks ht with hold | ⟨job, client, rfl, -, -, rfl⟩
        | ⟨old, op, f, tick, d, r, hact, hold, -, -, -, rfl⟩
        | ⟨ev, started, op, f, -, hlose, hold, rfl⟩
      · exact h.typed k task hold
      · rw [h.not_holds le_rfl]
        exact guards_handler job
      · rw [hstay k tick hact] at ht
        exact h.typed k _ ht
      · rw [hlost hold hlose]
        exact guards_onPollLost ev started
    · rw [hholds]
      rcases step_tasks ht with hold | ⟨job, client, rfl, -, -, rfl⟩
        | ⟨old, op, f, tick, d, r, -, -, -, -, -, rfl⟩
        | ⟨ev, started, op, f, -, -, -, rfl⟩
      · exact h.fresh k task hold hstarted
      · exact h.not_holds le_rfl
      · cases hstarted
      · cases hstarted
    · rw [hguards] at hg
      obtain ⟨task, ht, hpoll⟩ := h.held k a hg
      rcases w.step_frame act k with hsame | ⟨tick, hact⟩
        | ⟨rfl, ev, started, op, f, hlose, hold⟩ | ⟨hk, -⟩
      · exact ⟨task, hsame.trans ht, hpoll⟩
      · exact ⟨task, by rw [hstay k tick hact, ht], hpoll⟩
      · obtain rfl := Option.some.inj (ht.symm.trans hold)
        refine ⟨⟨.request (.stopWait ev), true, false,
          onPollLost ev.sessionId started⟩, ?_, hpoll⟩
        simp only [step, losePoll, hold, if_pos hlose]
        exact upd_same ..
      · exact absurd (h.numbered.lt ht) (by omega)
    · rw [hguards]
      exact h.once
    · rw [heq]
      simp only [liveGuards, hguards]
      exact h.counted a

theorem guarded_after (disk : Disk) (as : List Act) :
    (after disk as).Guarded :=
  run_invariant (P := Guarded) (fun _ act h => guarded_step h act)
    (guarded_init disk) as

end World

-- ================================================ the slot of a session

/-- The poll in the slot of a session is the latest to have registered,
and nothing has cancelled it since. -/
def Current (w : World) : Prop :=
  ∀ a k, w.daemon.waits a = some k →
    Since (· = .registered k a) (Obs.replaces a) w.daemon.log

private theorem current_exec {k : Nat} {op : Op} {tick : Tick}
    {d d' : Daemon} {r : op.Res} (hex : exec k op tick d = some (d', r))
    (h : ∀ a j, d.waits a = some j →
      Since (· = .registered j a) (Obs.replaces a) d.log) :
    ∀ a j, d'.waits a = some j →
      Since (· = .registered j a) (Obs.replaces a) d'.log := by
  intro a j hj
  rcases exec_waits hex with ⟨s, rfl, hw, -⟩ | ⟨s, rfl, hw, -⟩
    | ⟨hregister, hcancel, hw, -⟩
  · rcases exec_entries hex with ⟨o, hdeed, hlog⟩ | ⟨hdeed, -⟩
    · obtain rfl := Option.some.inj hdeed
      rw [hw] at hj
      rw [hlog]
      by_cases ha : a = s
      · subst ha
        rw [upd_same] at hj
        exact .inl (by rw [Option.some.inj hj])
      · rw [upd_other _ _ ha] at hj
        exact .inr ⟨Ne.symm ha, h a j hj⟩
    · cases hdeed
  · rcases exec_entries hex with ⟨o, hdeed, hlog⟩ | ⟨hdeed, -⟩
    · obtain rfl := Option.some.inj hdeed
      rw [hw] at hj
      rw [hlog]
      by_cases ha : a = s
      · rw [ha, upd_same] at hj
        cases hj
      · rw [upd_other _ _ ha] at hj
        exact .inr ⟨Ne.symm ha, h a j hj⟩
    · cases hdeed
  · rw [hw] at hj
    rcases exec_entries hex with ⟨o, hdeed, hlog⟩ | ⟨-, obs, hlog, hobs⟩
    · rw [hlog]
      refine .inr ⟨fun ho => ?_, h a j hj⟩
      cases o with
      | registered i b => exact hregister b (Op.deed_registered hdeed).2
      | cancelled i b => exact hcancel b (Op.deed_cancelled hdeed).2
      | _ => exact ho
    · rw [hlog]
      refine since_grow (fun o ho hreplaces => ?_) (h a j hj)
      have haside := hobs o ho
      cases o <;> first | exact haside | exact hreplaces

theorem current_step {w : World} (act : Act) (h : Current w) :
    Current (w.step act) := by
  rcases w.step_cases act with
    ⟨k, task, op, f, tick, d, r, -, -, -, -, hex, heq⟩
    | ⟨k, tick, task, body, -, -, -, heq⟩ | ⟨disk, graceTimers, heq, -⟩
  · rw [Current, heq]
    exact current_exec hex h
  · rw [Current, heq]
    intro a j hj
    have hj := h a j hj
    show Since _ _ (if task.client then _ else _)
    split
    · exact .inr ⟨id, hj⟩
    · exact hj
  · rw [Current, heq]
    exact h

namespace World

theorem Guarded.isPoll_iff {w : World} (h : w.Guarded) {k : Nat} {task : Task}
    (ht : w.tasks k = some task) (a : String) :
    w.isPoll a k = true ↔ task.job.polls a := by
  obtain ⟨job, started, client, prog⟩ := task
  have hjob : w.jobs[k]? = some job := h.numbered k _ ht
  rw [isPoll, hjob]
  cases job with
  | request req =>
      cases req with
      | stopWait ev => exact beq_iff_eq
      | event ev => exact iff_of_false Bool.false_ne_true id
      | prune => exact iff_of_false Bool.false_ne_true id
  | reap => exact iff_of_false Bool.false_ne_true id
  | grace sessionId gen => exact iff_of_false Bool.false_ne_true id

/-- What the typestate says of the operation a task is about to. -/
theorem Guarded.about_ok {w : World} (h : w.Guarded) {k : Nat} {op : Op}
    (hab : w.about k = some op) : ∃ task, w.tasks k = some task
      ∧ (guarding task.job).ok (w.holds k) op := by
  obtain ⟨task, f, ht, hprog⟩ := about_eq_some hab
  have hp := h.typed k task ht
  rw [hprog] at hp
  exact ⟨task, ht, hp.1⟩

/-- Whoever has not been cancelled is in the slot. -/
theorem waits_of_uncancelled {w : World} (h : Channels w) {a : String}
    {k : Nat} (hk : w.uncancelled a k) : w.daemon.waits a = some k := by
  obtain ⟨hregistered, -, hsignalled⟩ := hk
  refine (h k a hregistered).resolve_left ?_
  rw [hsignalled]
  exact Bool.false_ne_true

theorem waits_cancelWait {w : World} {a : String} {k : Nat}
    (hab : w.about k = some (.cancelWait a)) (tick : Tick) :
    (w.step (.move k tick)).daemon.waits a = none := by
  obtain ⟨task, f, ht, hprog⟩ := about_eq_some hab
  simp [step, move, ht, hprog, exec, resumed]

end World

/-- In every order of arrivals, cancellations, answers, replacements and
dropped connections the bookkeeping of the polls is exact. -/
theorem polls_exact (disk : Disk) (as : List Act) (a : String) :
    (World.after disk as).PollsExact a := by
  have hguarded := World.guarded_after disk as
  have hchannels : Channels (World.after disk as) :=
    run_invariant (P := Channels) (fun _ act h => channels_step act h)
      (fun _ _ h => by cases h) as
  have hcurrent : Current (World.after disk as) :=
    run_invariant (P := Current) (fun _ act h => current_step act h)
      (fun _ _ h => by cases h) as
  constructor
  case parked => exact hguarded.counted a
  case drops =>
    intro k hab
    obtain ⟨task, ht, hholds, hpoll⟩ := hguarded.about_ok hab
    have hmem := hguarded.mem_of_holds ht hholds hpoll
    have hpos : 0 < (World.after disk as).liveGuards a :=
      List.countP_pos_iff.2 ⟨_, hmem, beq_self_eq_true a⟩
    obtain ⟨n, hn⟩ := Nat.exists_eq_succ_of_ne_zero hpos.ne'
    exact ⟨n, by rw [hguarded.counted, hn, Nat.succ_eq_add_one, parkEntry_succ]⟩
  case held =>
    intro k hg
    obtain ⟨task, ht, hpoll⟩ := hguarded.held k a hg
    exact ⟨(hguarded.isPoll_iff ht a).2 hpoll, by rw [ht]; rfl⟩
  case awaiting =>
    intro k op hpoll hab hawaits
    obtain ⟨task, ht, hok⟩ := hguarded.about_ok hab
    refine hguarded.mem_of_holds ht ?_ ((hguarded.isPoll_iff ht a).1 hpoll)
    cases op with
    | select sleepSecs => exact hok
    | _ => cases hawaits
  case once => exact hguarded.once
  case latest =>
    exact fun k hk => hcurrent a k (World.waits_of_uncancelled hchannels hk)
  case only =>
    intro j k hj hk
    have hj := World.waits_of_uncancelled hchannels hj
    rw [World.waits_of_uncancelled hchannels hk] at hj
    exact (Option.some.inj hj).symm
  case cancels =>
    intro k tick hab j hj
    have hj := World.waits_of_uncancelled (channels_step _ hchannels) hj
    rw [World.waits_cancelWait hab tick] at hj
    cases hj

end Autofork
