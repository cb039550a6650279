/-
Stamped if and only if woken.

A poll's program commits: it performs at most one operation that stamps
or releases, and answers a wake exactly when it does
(`handleStopWait_commits`). After that operation it does not await, so
neither a cancellation nor a lost connection comes between the stamps
and the answer. So a poll that is waiting, lost or through has written
nothing to the throttles, the latches and the held dependents, unless it
answered a wake.

What the one operation writes depends on what it finds. A stamping of
what is selected at the moment writes the stamps of the selected forks,
each once (`stampsExactly`). A release deletes by fork name the rows it
listed in an earlier section; it deletes just those exactly when they
are still what they were (`releasesExactly_iff`), and otherwise a row
that was not released (`wrong_row_deleted`).
-/
import Autofork.Proofs.Atomic
import Autofork.Proofs.Held
import Autofork.Proofs.Walk

namespace Autofork

open Lib

-- ======================================================== one commitment

/-- A program that wakes at most once, and says so. -/
abbrev WakesOnce {α : Type} (Y : α → Prop) (p : Handler α) : Prop :=
  p.Commits (fun op => op.wakes = true)
    (fun op => op.tame = true ∨ op.awaits = true) (fun op => op.tame = true) Y

private theorem Tame.wakesOnce {α : Type} {Y : α → Prop} {p : Handler α}
    (hp : Tame p) (hY : ∀ a, ¬Y a) : WakesOnce Y p :=
  (Prog.Every.mono (fun op h => ⟨by simp [(Op.quiet_of_tame h).1], .inl h⟩)
    hp).commits hY

/-- What comes after a tame program. -/
private theorem Tame.then {α β : Type} {Y : β → Prop} {p : Handler α}
    {f : α → Handler β} (hp : Tame p) (hf : ∀ a, WakesOnce Y (f a)) :
    WakesOnce Y (p >>= f) :=
  (hp.wakesOnce (Y := fun _ => False) fun _ => id).bind
    (fun _ h => h.elim) fun a _ => hf a

/-- What comes after an await. -/
private theorem wakesOnce_await {β : Type} {Y : β → Prop}
    {sleepSecs : Option Nat} {f : Branch → Handler β}
    (hf : ∀ branch, WakesOnce Y (f branch)) :
    WakesOnce Y ((Op.select sleepSecs).go >>= f) :=
  .inr ⟨by simp [Op.wakes], .inr rfl, hf⟩

private theorem wakesOnce_park : WakesOnce IsWake parkForever :=
  wakesOnce_await fun _ h => by
    obtain ⟨payload, h⟩ := h
    cases h

private theorem buildWake_wakesOnce (session : SessionRow)
    (selected : List SelectedFork) :
    WakesOnce (fun r => r.isSome = true) (buildWake session selected) := by
  unfold buildWake
  split
  · exact fun h => by cases h
  · refine (tame_go rfl).then fun t => .inl ⟨rfl, fun _ => ⟨?_, ?_⟩⟩
    · exact ⟨rfl, fun _ => trivial⟩
    · exact fun _ => rfl

private theorem releaseDue_wakesOnce (session : SessionRow) :
    WakesOnce (fun r => r.isSome = true) (releaseDue session) := by
  refine (tame_go rfl).then fun released => ?_
  split
  · exact fun h => by cases h
  · refine .inl ⟨rfl, fun _ => ⟨?_, ?_⟩⟩
    · exact ⟨rfl, fun _ => trivial⟩
    · exact fun _ => rfl

/-- A wake, or else more. -/
private theorem wakesOnce_or {p : Handler (Option String)}
    (hp : WakesOnce (fun r => r.isSome = true) p) {q : Handler ResponseBody}
    (hq : WakesOnce IsWake q) :
    WakesOnce IsWake (p >>= fun r => match r with
      | some payload => pure (.wake payload)
      | none => q) := by
  refine hp.bind (fun r hr => ?_) fun r hr => ?_
  · cases r with
    | none => cases hr
    | some payload => exact ⟨trivial, payload, rfl⟩
  · cases r with
    | none => exact hq
    | some payload => exact absurd rfl hr

private theorem issueWake_wakesOnce (w : Watch) :
    WakesOnce IsWake (issueWake w) :=
  (tame_go rfl).then fun _ => (tame_selectForks ..).then fun selected =>
    wakesOnce_or (buildWake_wakesOnce w.session selected) wakesOnce_park

private theorem debounceWake_wakesOnce (w : Watch) :
    WakesOnce IsWake (debounceWake w) := by
  have hwaited : ¬IsWake .waited := fun ⟨payload, h⟩ => by cases h
  unfold debounceWake
  split
  · refine wakesOnce_await fun branch => ?_
    cases branch with
    | timer => exact issueWake_wakesOnce w
    | cancelled => exact hwaited
    | shutdown => exact hwaited
  · exact issueWake_wakesOnce w

private theorem serveDeadlines_wakesOnce (w : Watch) (deadlines : List Nat) :
    WakesOnce IsWake (serveDeadlines w deadlines) := by
  have hwaited : ¬IsWake .waited := fun ⟨payload, h⟩ => by cases h
  induction deadlines with
  | nil => exact wakesOnce_park
  | cons d rest ih =>
      refine (tame_go rfl).then fun t => wakesOnce_await fun branch => ?_
      cases branch with
      | timer =>
          refine (tame_dueNow w).then fun due => ?_
          cases due with
          | true => exact debounceWake_wakesOnce w
          | false => exact ih
      | cancelled => exact hwaited
      | shutdown => exact hwaited

private theorem awaitDue_wakesOnce (w : Watch) :
    WakesOnce IsWake (awaitDue w) := by
  refine (tame_dueNow w).then fun due => ?_
  cases due with
  | true => exact debounceWake_wakesOnce w
  | false => exact serveDeadlines_wakesOnce w w.deadlines

private theorem parkedPoll_wakesOnce (ev : Event) (t : Int)
    (promptTokens : Option Nat) (cfg : Config) :
    WakesOnce IsWake (parkedPoll ev t promptTokens cfg) := by
  refine (tame_go rfl).then fun session => ?_
  cases session with
  | none => exact fun ⟨payload, h⟩ => by cases h
  | some session =>
      exact wakesOnce_or (releaseDue_wakesOnce session)
        ((tame_go rfl).then fun entries => awaitDue_wakesOnce _)

/-- A poll stamps or releases at most once, and answers a wake exactly
when it does. -/
theorem handleStopWait_commits (ev : Event) :
    WakesOnce IsWake (handleStopWait ev) := by
  refine (tame_go rfl).then fun _ => (tame_go rfl).then fun t =>
    (tame_go rfl).then fun _ => (tame_ingestTranscript ev).then fun tokens =>
    (tame_go rfl).then fun cfg => (tame_go rfl).then fun _ =>
    (tame_go rfl).then fun _ => (parkedPoll_wakesOnce ..).bind ?_ ?_
  · exact fun body hbody => ⟨⟨rfl, fun _ => trivial⟩, fun _ => hbody⟩
  · exact fun body hbody => .inr ⟨by simp [Op.wakes], .inl rfl, fun _ => hbody⟩

-- ============================================================== one poll

/-- A log entry by which poll `k` stamped or released. -/
def WokenBy (k : Nat) : Obs → Prop
  | .issued j .. | .released j .. => j = k
  | _ => False

instance (k : Nat) : DecidablePred (WokenBy k)
  | .issued j .. | .released j .. => inferInstanceAs (Decidable (j = k))
  | .stopped .. | .prompted .. | .closed .. | .clock .. | .marked .. | .configured ..
  | .registered .. | .snapshot .. | .cancelled .. | .answered .. => isFalse id

/-- An entry by which poll `k` stamped or released, or answered so. -/
def SettledBy (k : Nat) : Obs → Prop
  | .issued j .. | .released j .. | .answered j (.wake _) => j = k
  | _ => False

private theorem WokenBy.settledBy {k : Nat} {o : Obs} (h : WokenBy k o) :
    SettledBy k o := by
  cases o with
  | issued | released => exact h
  | _ => cases h

/-- One entry of the log tells of poll `k`'s stamping or release. -/
def WokenOnce (k : Nat) (l : List Obs) : Prop :=
  AtMostOne (WokenBy k) l ∧ ∃ o ∈ l, WokenBy k o

/-- How far a poll has come: it has not woken its session and may yet;
or it has, and will answer so, or has answered. A lost poll has not. -/
def PollStands (k : Nat) (l : List Obs) : Option Task → Prop
  | some task =>
      ((∀ o ∈ l, ¬SettledBy k o)
        ∧ if task.client then WakesOnce IsWake task.prog else Tame task.prog)
      ∨ (WokenOnce k l ∧ task.started = true ∧ task.client = true
        ∧ Tame task.prog ∧ task.prog.Returns IsWake)
  | none => (∀ o ∈ l, ¬SettledBy k o) ∨ (WokenOnce k l
      ∧ ∃ payload, .answered k (.wake payload) ∈ l)

private theorem atMostOne_unsettled {k : Nat} {l : List Obs}
    (hl : ∀ o ∈ l, ¬SettledBy k o) : AtMostOne (WokenBy k) l := by
  have := (atMostOne_append (P := WokenBy k) (l := []) fun o ho hw =>
    hl o ho hw.settledBy).2 atMostOne_nil
  rwa [List.append_nil] at this

private theorem WokenOnce.extend {k : Nat} {l obs : List Obs}
    (h : WokenOnce k l) (hobs : ∀ o ∈ obs, ¬SettledBy k o) :
    WokenOnce k (obs ++ l) := by
  obtain ⟨honce, o, ho, hw⟩ := h
  exact ⟨(atMostOne_append fun o ho hw => hobs o ho hw.settledBy).2 honce,
    o, List.mem_append_right _ ho, hw⟩

private theorem PollStands.extend {k : Nat} {l obs : List Obs}
    {task : Option Task} (h : PollStands k l task)
    (hobs : ∀ o ∈ obs, ¬SettledBy k o) : PollStands k (obs ++ l) task := by
  have hnone : (∀ o ∈ l, ¬SettledBy k o) → ∀ o ∈ obs ++ l, ¬SettledBy k o :=
    fun hl o ho => (List.mem_append.1 ho).elim (hobs o) (hl o)
  cases task with
  | some task =>
      rcases h with ⟨hl, hp⟩ | ⟨hl, hrest⟩
      · exact .inl ⟨hnone hl, hp⟩
      · exact .inr ⟨hl.extend hobs, hrest⟩
  | none =>
      rcases h with hl | ⟨hl, payload, ho⟩
      · exact .inl (hnone hl)
      · exact .inr ⟨hl.extend hobs, payload, List.mem_append_right _ ho⟩

/-- A poll has woken its session at most once, and before it says so. -/
private theorem PollStands.once {k : Nat} {l : List Obs} {task : Option Task}
    (h : PollStands k l task) :
    AtMostOne (WokenBy k) l
      ∧ ∀ payload, .answered k (.wake payload) ∈ l → ∃ o ∈ l, WokenBy k o := by
  have hnone : (∀ o ∈ l, ¬SettledBy k o) → AtMostOne (WokenBy k) l
      ∧ ∀ payload, .answered k (.wake payload) ∈ l → ∃ o ∈ l, WokenBy k o :=
    fun hl => ⟨atMostOne_unsettled hl, fun payload ho =>
      absurd (show SettledBy k (.answered k (.wake payload)) from rfl) (hl _ ho)⟩
  cases task with
  | some task => exact h.elim (fun h => hnone h.1) fun h => ⟨h.1.1, fun _ _ => h.1.2⟩
  | none => exact h.elim hnone fun h => ⟨h.1.1, fun _ _ => h.1.2⟩

/-- Only poll `k`'s own wakes are on record as its. -/
private theorem deed_settledBy {j k : Nat} {op : Op} {r : op.Res} {o : Obs}
    (h : op.deed j r = some o) (ho : SettledBy k o) :
    j = k ∧ op.wakes = true := by
  cases op with
  | write x => cases x <;> cases h <;> first | exact ⟨ho, rfl⟩ | cases ho
  | snapshot s => cases r <;> cases h; cases ho
  | _ => cases h <;> cases ho

private theorem aside_settledBy {k : Nat} {o : Obs} (h : o.aside) :
    ¬SettledBy k o := by
  intro ho
  cases o with
  | marked | closed => exact ho
  | _ => exact h

/-- What others do is not on record as poll `k`'s. -/
private theorem step_others {w : World} {a : Act} {k : Nat}
    (ha : ∀ tick, a ≠ .move k tick) :
    ∃ obs, (w.step a).daemon.log = obs ++ w.daemon.log
      ∧ ∀ o ∈ obs, ¬SettledBy k o := by
  rcases w.step_cases a with
    ⟨j, task, op, f, tick, d, r, rfl, -, -, -, hex, heq⟩
    | ⟨j, tick, task, body, hact, -, -, heq⟩ | ⟨disk, graceTimers, heq, -⟩
  · rw [heq]
    show ∃ obs, d.log = obs ++ w.daemon.log ∧ _
    rcases exec_entries hex with ⟨o, hdeed, hlog⟩ | ⟨-, obs, hlog, hobs⟩
    · refine ⟨[o], hlog, fun o' ho' hw => ?_⟩
      rw [List.mem_singleton.1 ho'] at hw
      exact ha tick (by rw [(deed_settledBy hdeed hw).1])
    · exact ⟨obs, hlog, fun o ho => aside_settledBy (hobs o ho)⟩
  · rw [heq]
    dsimp only
    split
    · refine ⟨[_], rfl, fun o ho hw => ?_⟩
      rw [List.mem_singleton.1 ho] at hw
      cases body with
      | wake payload => exact ha tick (by rw [hact, show j = k from hw])
      | _ => exact hw
    · exact ⟨[], rfl, by simp⟩
  · rw [heq]
    exact ⟨[], rfl, by simp⟩

/-- An operation that does not wake leaves nothing of the kind on
record. -/
private theorem unsettled_exec {k : Nat} {op : Op} {tick : Tick}
    {d d' : Daemon} {r : op.Res} (hop : op.wakes = false)
    (hex : exec k op tick d = some (d', r)) :
    ∃ obs, d'.log = obs ++ d.log ∧ ∀ o ∈ obs, ¬SettledBy k o := by
  rcases exec_entries hex with ⟨o, hdeed, hlog⟩ | ⟨-, obs, hlog, hobs⟩
  · refine ⟨[o], hlog, fun o' ho' hw => ?_⟩
    rw [List.mem_singleton.1 ho'] at hw
    rw [(deed_settledBy hdeed hw).2] at hop
    cases hop
  · exact ⟨obs, hlog, fun o ho => aside_settledBy (hobs o ho)⟩

/-- One that wakes leaves the wake. -/
private theorem woken_exec {k : Nat} {op : Op} {tick : Tick}
    {d d' : Daemon} {r : op.Res} (hop : op.wakes = true)
    (hex : exec k op tick d = some (d', r)) :
    ∃ o, d'.log = o :: d.log ∧ WokenBy k o := by
  cases op with
  | write x =>
      cases x with
      | stamp | release =>
          simp only [exec, Section.run, Option.some.injEq, Prod.mk.injEq] at hex
          rw [← hex.1]
          exact ⟨_, rfl, rfl⟩
      | _ => cases hop
  | _ => cases hop

/-- Poll `k` performs an operation. -/
private theorem PollStands.move {k : Nat} {task : Task} {op : Op}
    {f : op.Res → Handler ResponseBody} {tick : Tick} {d d' : Daemon}
    {r : op.Res} (h : PollStands k d.log (some task))
    (hprog : task.prog = .call op f)
    (hex : exec k op tick d = some (d', r)) :
    PollStands k d'.log (some { task with started := true, prog := f r }) := by
  have hgrow : op.wakes = false → (∀ o ∈ d.log, ¬SettledBy k o) →
      ∀ o ∈ d'.log, ¬SettledBy k o := by
    intro hop hl
    obtain ⟨obs, hlog, hobs⟩ := unsettled_exec hop hex
    rw [hlog]
    exact fun o ho => (List.mem_append.1 ho).elim (hobs o) (hl o)
  rcases h with ⟨hl, hp⟩ | ⟨hl, -, hclient, hp, hreturns⟩
  · cases hc : task.client with
    | false =>
        rw [hc, hprog] at hp
        exact .inl ⟨hgrow (Op.quiet_of_tame hp.1).1 hl, by
          simpa [hc] using hp.2 r⟩
    | true =>
        rw [hc, hprog] at hp
        rcases hp with ⟨hmark, hk⟩ | ⟨hmark, -, hk⟩
        · -- the one wake on record is the one just performed
          obtain ⟨o, hlog, hw⟩ := woken_exec hmark hex
          rw [hlog]
          refine .inr ⟨⟨?_, o, List.mem_cons_self, hw⟩, rfl, rfl, (hk r).1,
            (hk r).2⟩
          exact atMostOne_cons.2 ⟨fun _ o ho hw => hl o ho hw.settledBy,
            atMostOne_unsettled hl⟩
        · exact .inl ⟨hgrow (by simpa using hmark) hl, by simpa [hc] using hk r⟩
  · rw [hprog] at hp hreturns
    obtain ⟨obs, hlog, hobs⟩ := unsettled_exec (Op.quiet_of_tame hp.1).1 hex
    rw [hlog]
    exact .inr ⟨hl.extend hobs, rfl, hclient, hp.2 r, hreturns r⟩

/-- Poll `k` is through. -/
private theorem PollStands.finish {k : Nat} {task : Task} {l : List Obs}
    {body : ResponseBody} (h : PollStands k l (some task))
    (hprog : task.prog = .ret body) :
    PollStands k (if task.client then .answered k body :: l else l) none := by
  rcases h with ⟨hl, hp⟩ | ⟨⟨hl, o, ho, hw⟩, -, hclient, -, hreturns⟩
  · cases hc : task.client with
    | false =>
        rw [if_neg Bool.false_ne_true]
        exact .inl hl
    | true =>
        rw [hc, if_pos rfl, hprog] at hp
        rw [if_pos rfl]
        refine .inl (List.forall_mem_cons.2 ⟨fun hset => hp ?_, hl⟩)
        cases body with
        | wake payload => exact ⟨payload, rfl⟩
        | _ => cases hset
  · rw [hprog] at hreturns
    obtain ⟨payload, rfl⟩ : IsWake body := hreturns
    rw [if_pos hclient]
    exact .inr ⟨⟨atMostOne_cons.2 ⟨fun h => h.elim, hl⟩, o,
      List.mem_cons_of_mem _ ho, hw⟩, payload, List.mem_cons_self⟩

/-- Every number that is a poll's stands somewhere, and those to come
have nothing on record. -/
structure PollsStand (w : World) : Prop where
  numbered : w.Numbered
  stands : ∀ k ev, w.jobs[k]? = some (.request (.stopWait ev)) →
    PollStands k w.daemon.log (w.tasks k)
  ahead : ∀ k, w.jobs.length ≤ k → ∀ o ∈ w.daemon.log, ¬SettledBy k o

/-- A number that is not in use does nothing. -/
private theorem ahead_step {w : World} (hn : w.Numbered) {a : Act} {k : Nat}
    (hk : w.jobs.length ≤ k) (h : ∀ o ∈ w.daemon.log, ¬SettledBy k o) :
    ∀ o ∈ (w.step a).daemon.log, ¬SettledBy k o := by
  by_cases hmove : ∃ tick, a = .move k tick
  · obtain ⟨tick, rfl⟩ := hmove
    have hnone : w.tasks k = none := by
      cases ht : w.tasks k with
      | none => rfl
      | some task => exact absurd (hn.lt ht) (by omega)
    rw [World.step, World.move, hnone]
    exact h
  · push Not at hmove
    obtain ⟨obs, hlog, hobs⟩ := step_others (w := w) hmove
    intro o ho
    rw [hlog] at ho
    exact (List.mem_append.1 ho).elim (hobs o) (h o)

private theorem pollsStand_step (w : World) (a : Act) (h : PollsStand w) :
    PollsStand (w.step a) where
  numbered := World.numbered_step h.numbered a
  ahead k hk := by
    obtain ⟨js, hjs⟩ := w.step_jobs a
    rw [← hjs, List.length_append] at hk
    exact ahead_step h.numbered (by omega) (h.ahead k (by omega))
  stands k ev hjob := by
    by_cases hnew : w.jobs.length ≤ k
    · -- a poll just received
      have hnone := ahead_step h.numbered (a := a) hnew (h.ahead k hnew)
      cases ht : (w.step a).tasks k with
      | none => exact .inl hnone
      | some task =>
          rcases World.step_tasks ht with hold | ⟨job, client, -, hjobs, hc, rfl⟩
            | ⟨_, _, _, _, _, _, -, hold, -⟩ | ⟨_, _, _, _, -, -, hold, -⟩
          · exact absurd (h.numbered.lt hold) (by omega)
          · have hsame : job = .request (.stopWait ev) := by
              have := World.numbered_step h.numbered a k _ ht
              rw [hjob, Option.some.injEq] at this
              exact this.symm
            subst hsame
            refine .inl ⟨hnone, ?_⟩
            rw [hc _ rfl]
            exact handleStopWait_commits ev
          · exact absurd (h.numbered.lt hold) (by omega)
          · exact absurd (h.numbered.lt hold) (by omega)
    · have hold : w.jobs[k]? = some (.request (.stopWait ev)) := by
        obtain ⟨js, hjs⟩ := w.step_jobs a
        rwa [← hjs, List.getElem?_append_left (by omega)] at hjob
      have hstands := h.stands k ev hold
      by_cases hmove : ∃ tick, a = .move k tick
      · obtain ⟨tick, rfl⟩ := hmove
        rcases w.step_cases (.move k tick) with
          ⟨j, task, op, f, tick', d, r, ha, ht, hprog, -, hex, heq⟩
          | ⟨j, tick', task, body, ha, ht, hprog, heq⟩ | ⟨_, _, -, hsame⟩
        · cases ha
          rw [ht] at hstands
          rw [heq]
          simp only [World.resumed, upd_same]
          exact hstands.move hprog hex
        · cases ha
          rw [ht] at hstands
          rw [heq]
          simp only [upd_same]
          exact hstands.finish hprog
        · rw [hsame k tick rfl]
          exact hstands
      · push Not at hmove
        obtain ⟨obs, hlog, hobs⟩ := step_others (w := w) hmove
        rw [hlog]
        have hext := hstands.extend hobs
        rcases w.step_frame a k with hsame | ⟨tick, rfl⟩
          | ⟨rfl, ev, started, op, f, hlose, ht⟩ | ⟨hkn, -⟩
        · rw [hsame]
          exact hext
        · exact absurd rfl (hmove tick)
        · -- the connection drops before the poll has begun, or at an await
          rw [ht] at hext
          have hnone : ∀ o ∈ obs ++ w.daemon.log, ¬SettledBy k o := by
            rcases hext with ⟨hl, -⟩ | ⟨-, hstarted, -, htame, -⟩
            · exact hl
            · have hawaits : op.awaits = true := by
                simp only at hstarted
                simpa [hstarted] using hlose
              rw [(Op.quiet_of_tame htame.1).2] at hawaits
              cases hawaits
          simp only [World.step, World.losePoll, ht, hlose, if_true, upd_same]
          refine .inl ⟨hnone, ?_⟩
          simp only [Bool.false_eq_true, if_false]
          refine (tame_go rfl).bind fun gen => (tame_go rfl).bind fun _ =>
            (tame_go rfl).bind fun _ => ?_
          split
          · exact (tame_go rfl).bind fun _ => trivial
          · trivial
        · omega

theorem polls_stand (disk : Disk) (as : List Act) :
    PollsStand (World.after disk as) :=
  run_invariant (P := PollsStand) pollsStand_step
    ⟨World.numbered_init disk, fun k ev h => (by cases h),
      fun k _ o ho => (by cases ho)⟩ as

-- ================================================= what its steps write

/-- The throttles, the latches and the held dependents stay as they
are; a fork new on the roster has not run. -/
structure Untouched (s s' : Store) : Prop where
  runs : s'.runs = s.runs
  fires : s'.fires = s.fires
  pending : s'.pending = s.pending
  kept : ∀ r ∈ s.roster.rows, r ∈ s'.roster.rows
  unrun : ∀ r ∈ s'.roster.rows, r ∈ s.roster.rows ∨ r.ranAt = none

theorem Untouched.refl (s : Store) : Untouched s s :=
  ⟨rfl, rfl, rfl, fun _ => id, fun _ => .inl⟩

private theorem untouched_queueForks (s : Store) (sessionId : String)
    (entries : List ForkEntry) (t : Int) :
    Untouched s (s.queueForks sessionId entries t) := by
  obtain ⟨roster, hs⟩ := queueForks_only s sessionId entries t
  obtain ⟨hkept, hunrun⟩ := queueForks_rows s sessionId entries t
  exact ⟨by rw [hs], by rw [hs], by rw [hs], hkept, hunrun⟩

/-- An operation of a poll short of a wake. -/
private theorem untouched_exec {k : Nat} {op : Op} {tick : Tick}
    {d d' : Daemon} {r : op.Res} (hop : op.tame = true ∨ op.awaits = true)
    (hex : exec k op tick d = some (d', r)) : Untouched d.store d'.store := by
  rcases exec_cases hex with ⟨x, rfl, rfl⟩ | ⟨-, hs, -⟩
  · have htame : (Op.write x).tame = true := hop.elim id fun h => by cases h
    cases x with
    | stop ev t => exact ⟨rfl, rfl, rfl, fun _ => id, fun _ => .inl⟩
    | ingest sessionId delta t =>
        obtain ⟨sessions, spawns, hs⟩ :=
          applyDelta_only d.store sessionId delta t
        show Untouched d.store (applyDelta d.store sessionId delta t)
        rw [hs]
        exact ⟨rfl, rfl, rfl, fun _ => id, fun _ => .inl⟩
    | queue sessionId entries => exact untouched_queueForks ..
    | _ => cases htame
  · rw [hs]
    exact .refl _

/-- The stamps of a selection: one run and one time for each fork, its
latch, and a held row for each that waits for others of them. -/
structure StampsExactly (s s' : Store) (session : SessionRow)
    (selected : List SelectedFork) (t : Int) (issue : Nat) : Prop where
  distinct : (selected.map SelectedFork.name).Nodup
  runs : s'.runs = s.runs ++ issuedRuns session t (lastRunId s.runs) selected
  roster : s'.roster.rows = s.roster.rows.map
    (stampedRow session (selected.map SelectedFork.name) t)
  ran : ∀ x ∈ selected, ∃ r ∈ s'.roster.rows,
    r.key = (session.sessionId, x.name) ∧ r.ranAt = some t
  latched : ∀ a f key, s'.isLatched a f key = true
    ↔ s.isLatched a f key = true ∨ (session.sessionId = a
      ∧ ∃ x ∈ selected, x.name = f ∧ x.latchKey = some key)
  keyed : ∀ x ∈ selected, x.latchKey.isSome
  pending : ∀ row, row ∈ s'.pending.rows
    ↔ (row ∈ s.pending.rows ∧ ¬(row.sessionId = session.sessionId
        ∧ ∃ sp ∈ withPreds selected, sp.2 ≠ [] ∧ sp.1.name = row.forkName))
      ∨ ∃ sp ∈ withPreds selected, sp.2 ≠ [] ∧ row = heldRow session t issue sp

/-- A stamping of what is selected at the moment. -/
theorem stampsExactly (s : Store) (disk : Disk) (session : SessionRow)
    (cfg : Config) (moments : List ForkMoment) (t t' : Int) (issue : Nat) :
    StampsExactly s (s.stampWake session
        (selectFrom s disk session cfg moments t) t' issue) session
      (selectFrom s disk session cfg moments t) t' issue where
  distinct := selectFrom_nodup s disk session cfg moments t
  runs := runs_stampWake ..
  roster := roster_stampWake ..
  ran x hx := by
    obtain ⟨r, hr, hkey, -⟩ := selectFrom_entry hx
    have hstamped : stampedRow session ((selectFrom s disk session cfg moments
        t).map SelectedFork.name) t' r = { r with ranAt := some t' } := by
      rw [RosterEntry.key, Prod.mk.injEq] at hkey
      exact if_pos ⟨hkey.1, List.mem_map.2 ⟨x, hx, hkey.2.symm⟩⟩
    refine ⟨{ r with ranAt := some t' }, ?_, hkey, rfl⟩
    rw [roster_stampWake]
    exact List.mem_map.2 ⟨r, hr, hstamped⟩
  latched a f key := isLatched_stampWake (k := 0)
  keyed x hx := by
    obtain ⟨entry, hentry, hselect⟩ := List.mem_filterMap.1 hx
    cases hfork : disk.forkAt entry with
    | none => simp [selectEntry, hfork] at hselect
    | some fork =>
        obtain ⟨-, trigger, hfirst, -, rfl⟩ :=
          (selectEntry_eq_some_iff hfork).1 hselect
        rw [mkSelected, latchKeyFor_of_due hfirst.due.2]
        rfl
  pending row := mem_pending_stampWake_iff
    (selectFrom_nodup s disk session cfg moments t)

/-- The rows a release lists, and no others, go. -/
structure ReleasesExactly (s s' : Store) (sessionId : String)
    (released : List PendingDep) : Prop where
  runs : s'.runs = s.runs
  fires : s'.fires = s.fires
  roster : s'.roster = s.roster
  there : ∀ dep ∈ released, ∃ row ∈ s.pending.rows,
    row.sessionId = sessionId ∧ row.toDep = dep
  pending : ∀ row, row ∈ s'.pending.rows ↔ row ∈ s.pending.rows
    ∧ ¬(row.sessionId = sessionId ∧ row.toDep ∈ released)

/-- A release deletes just the rows it lists exactly when they are still
there, as they were listed. -/
theorem releasesExactly_iff {s : Store} {sessionId : String}
    {released : List PendingDep} :
    ReleasesExactly s (s.deleteReleased sessionId released) sessionId released
      ↔ ∀ dep ∈ released, ∃ row ∈ s.pending.rows,
        row.sessionId = sessionId ∧ row.toDep = dep := by
  refine ⟨fun h => h.there, fun hthere => ?_⟩
  obtain ⟨pending, hs⟩ := deleteReleased_only s sessionId released
  refine ⟨by rw [hs], by rw [hs], by rw [hs], hthere, fun row => ?_⟩
  rw [mem_pending_deleteReleased]
  refine and_congr_right fun hrow => not_congr (and_congr_right fun hsession => ?_)
  constructor
  · rintro ⟨dep, hdep, hname⟩
    obtain ⟨row', hrow', hsession', rfl⟩ := hthere dep hdep
    have hsame : row' = row := by
      refine s.pending.eq_of_key_eq hrow' hrow ?_
      rw [PendingRec.key, PendingRec.key, hsession, hsession']
      exact congrArg _ hname
    exact hsame ▸ hdep
  · exact fun hdep => ⟨_, hdep, rfl⟩

-- ============================================================ over runs

/-- Task `k` is not at work: it has not begun, it awaits, its connection
is lost, or it is through. -/
def Resting (k : Nat) (w : World) : Prop :=
  ∀ task, w.tasks k = some task → task.client = false
    ∨ task.started = false ∨ ∃ op, w.about k = some op ∧ op.awaits = true

/-- Task `k`'s step touches no throttle, latch or held dependent. -/
def leaves (k : Nat) (w : World) (act : Act) : Prop :=
  ∀ tick, act = .move k tick →
    Untouched w.daemon.store (w.step act).daemon.store

/-- Task `k`'s step writes the stamps of a selection that is current, or
deletes the rows it releases, or touches nothing. -/
def writesExactly (k : Nat) (w : World) (act : Act) : Prop :=
  ∀ tick, act = .move k tick → match w.about k with
    | some (.write (.stamp session selected t)) =>
        (∃ cfg moments t', selected = selectFrom w.daemon.store w.daemon.disk
          session cfg moments t') →
        StampsExactly w.daemon.store (w.step act).daemon.store session
          selected t w.daemon.log.length
    | some (.write (.release session released)) =>
        ReleasesExactly w.daemon.store (w.step act).daemon.store
          session.sessionId released
    | _ => Untouched w.daemon.store (w.step act).daemon.store

/-- What task `k` releases is still there as it was listed. -/
def stillListed (k : Nat) (w : World) (act : Act) : Prop :=
  ∀ tick, act = .move k tick → match w.about k with
    | some (.write (.release session released)) =>
        ∀ dep ∈ released, ∃ row ∈ w.daemon.store.pending.rows,
          row.sessionId = session.sessionId ∧ row.toDep = dep
    | _ => True

/-- What a poll is about to do is a wake, or leaves things alone. -/
private theorem PollsStand.untouched {w : World} (h : PollsStand w)
    {k : Nat} {ev : Event}
    (hpoll : ∀ job, w.jobs[k]? = some job → job = .request (.stopWait ev))
    (tick : Tick) (hstamp : ∀ session selected t,
      w.about k ≠ some (.write (.stamp session selected t)))
    (hrelease : ∀ session released,
      w.about k ≠ some (.write (.release session released))) :
    Untouched w.daemon.store (w.step (.move k tick)).daemon.store := by
  rcases w.step_cases (.move k tick) with
    ⟨j, task, op, f, tick', d, r, ha, ht, hprog, hab, hex, heq⟩
    | ⟨j, tick', task, body, -, -, -, heq⟩ | ⟨_, _, -, hsame⟩
  · cases ha
    rw [heq]
    refine untouched_exec ?_ hex
    have hwakes : op.wakes ≠ true := by
      intro hw
      cases op with
      | write x =>
          cases x with
          | stamp session selected t => exact hstamp _ _ _ hab
          | release session released => exact hrelease _ _ hab
          | _ => cases hw
      | _ => cases hw
    have hjob := h.numbered k task ht
    have hstands := h.stands k ev (by rw [hjob, hpoll _ hjob])
    rw [ht] at hstands
    rcases hstands with ⟨-, hp⟩ | ⟨-, -, -, hp, -⟩
    · rw [hprog] at hp
      split at hp
      · rcases hp with ⟨hmark, -⟩ | ⟨-, hmid, -⟩
        · exact absurd hmark hwakes
        · exact hmid
      · exact .inl hp.1
    · rw [hprog] at hp
      exact .inl hp.1
  · rw [heq]
    exact .refl _
  · rw [hsame k tick rfl]
    exact .refl _

/-- A poll that has not answered a wake and is not at work has woken no
one. -/
private theorem PollStands.unwoken {w : World} {k : Nat}
    (h : PollStands k w.daemon.log (w.tasks k)) (hrest : Resting k w)
    (hno : ∀ payload, .answered k (.wake payload) ∉ w.daemon.log) :
    ∀ o ∈ w.daemon.log, ¬SettledBy k o := by
  cases ht : w.tasks k with
  | none =>
      rw [ht] at h
      rcases h with hl | ⟨-, payload, ho⟩
      · exact hl
      · exact absurd ho (hno payload)
  | some task =>
      rw [ht] at h
      rcases h with ⟨hl, -⟩ | ⟨-, hstarted, hclient, htame, -⟩
      · exact hl
      · rcases hrest task ht with hc | hs | ⟨op, hab, hawaits⟩
        · rw [hclient] at hc
          cases hc
        · rw [hstarted] at hs
          cases hs
        · obtain ⟨task', f, ht', hprog⟩ := World.about_eq_some hab
          rw [ht, Option.some.injEq] at ht'
          rw [ht', hprog] at htame
          rw [(Op.quiet_of_tame htame.1).2] at hawaits
          cases hawaits

/-- Over every interleaving: a poll that waits, is lost or is through has
touched no throttle, latch or held dependent unless it answered a wake;
it stamps or releases at most once, and has when it says so; and its steps write exactly the
stamps of what they select, and delete exactly what they release, if and
only if what it releases is still there as it was listed. -/
theorem stamped_iff_woken {disk : Disk} {as : List Act} {k : Nat}
    {ev : Event} (hpoll : (World.after disk as).jobs[k]?
      = some (.request (.stopWait ev))) :
    (Resting k (World.after disk as) →
        (∀ payload, .answered k (.wake payload)
          ∉ (World.after disk as).daemon.log) →
        Along World.step (leaves k) (World.init disk) as)
      ∧ (AtMostOne (WokenBy k) (World.after disk as).daemon.log
        ∧ ∀ payload, .answered k (.wake payload)
            ∈ (World.after disk as).daemon.log →
          ∃ o ∈ (World.after disk as).daemon.log, WokenBy k o)
      ∧ (Along World.step (writesExactly k) (World.init disk) as
        ↔ Along World.step (stillListed k) (World.init disk) as) := by
  -- at every step of the run the number is the poll's, or not yet in use
  have hnumber : ∀ bs act cs, as = bs ++ act :: cs →
      ∀ job, (World.after disk bs).jobs[k]? = some job →
        job = .request (.stopWait ev) := by
    intro bs act cs has job hjob
    obtain ⟨js, hjs⟩ := World.run_jobs (World.after disk bs) (act :: cs)
    rw [World.after, ← run_append, ← has, ← World.after] at hjs
    rw [← hjs, List.getElem?_append_left (List.getElem?_eq_some_iff.1 hjob).1,
      hjob, Option.some.injEq] at hpoll
    exact hpoll
  have hlater : ∀ bs act cs, as = bs ++ act :: cs →
      ((World.after disk bs).step act).daemon.log
        <:+ (World.after disk as).daemon.log := by
    intro bs act cs has
    subst has
    show _ <:+ (run World.step (World.init disk)
      (bs ++ act :: cs)).daemon.log
    rw [run_append, run_cons]
    exact World.run_log _ cs
  have hstands := (polls_stand disk as).stands k ev hpoll
  refine ⟨fun hrest hno => ?_, hstands.once, ?_⟩
  · have hunwoken := hstands.unwoken hrest hno
    rw [along_iff]
    rintro bs act cs has tick rfl
    refine (polls_stand disk bs).untouched (hnumber bs _ cs has) tick ?_ ?_
    · intro session selected t hab
      exact hunwoken _ ((hlater bs _ cs has).subset
        (World.logged_stamp hab tick)) rfl
    · intro session released hab
      exact hunwoken _ ((hlater bs _ cs has).subset
        (World.logged_release hab tick)) rfl
  · rw [along_iff, along_iff]
    refine forall_congr' fun bs => forall_congr' fun act => forall_congr' fun cs =>
      forall_congr' fun has => forall_congr' fun tick => forall_congr' fun hact => ?_
    subst hact
    show (match (World.after disk bs).about k with
      | some (.write (.stamp session selected t)) => _
      | some (.write (.release session released)) => _
      | _ => _) ↔ _
    split
    next session selected t hab =>
      refine iff_of_true ?_ (by simp only [hab])
      rintro ⟨cfg, moments, t', rfl⟩
      rw [World.step_write hab tick]
      exact stampsExactly ..
    next session released hab =>
      simp only [hab]
      rw [World.step_write hab tick]
      exact releasesExactly_iff
    next hstamp hrelease =>
      refine iff_of_true ((polls_stand disk bs).untouched
        (hnumber bs _ cs has) tick hstamp hrelease) ?_
      split
      · exact absurd (by assumption) (hrelease _ _)
      · trivial

-- ------------------------------------------------- a poll that waits

/-- Two forks idle for a second, the second to run after the first. -/
private def idlers (delta : Delta) : Disk :=
  .holding [("alpha", { runOn := [.idle (some 1)] }),
      ("beta", { runOn := [.idle (some 1)], after := ["alpha"] })]
    { wakeDebounceSecs := 0 } (some delta)

private def Op.waits : Option Op → Bool
  | some op => op.awaits
  | none => false

private theorem Op.exists_of_waits {o : Option Op} (h : Op.waits o = true) :
    ∃ op, o = some op ∧ op.awaits = true := by
  cases o with
  | none => cases h
  | some op => exact ⟨op, rfl, h⟩

private def Job.isPoll : Option Job → Bool
  | some (.request (.stopWait _)) => true
  | _ => false

private theorem Job.exists_of_isPoll {o : Option Job}
    (h : Job.isPoll o = true) : ∃ ev, o = some (.request (.stopWait ev)) := by
  unfold Job.isPoll at h
  split at h
  · exact ⟨_, rfl⟩
  · cases h

private def Obs.wakes (k : Nat) : Obs → Bool
  | .answered j (.wake _) => j == k
  | _ => false

private theorem Obs.exists_of_wakes {k : Nat} {l : List Obs}
    (h : l.any (Obs.wakes k) = true) :
    ∃ payload, .answered k (.wake payload) ∈ l := by
  obtain ⟨o, ho, hwakes⟩ := List.any_eq_true.1 h
  unfold Obs.wakes at hwakes
  split at hwakes
  next j payload => exact ⟨payload, by rwa [beq_iff_eq.1 hwakes] at ho⟩
  next => cases hwakes

/-- What `stillListed` asks, if task `k` is next. -/
private def listedNow (k : Nat) (w : World) : Bool :=
  match w.about k with
  | some (.write (.release session released)) =>
      released.all fun dep => w.daemon.store.pending.rows.any fun row =>
        row.sessionId = session.sessionId && row.toDep = dep
  | _ => true

private theorem stillListed_of_listedNow {k : Nat} {w : World} {act : Act}
    (h : listedNow k w = true) : stillListed k w act := by
  intro tick _
  unfold listedNow at h
  split at h
  next session released _ =>
    intro dep hdep
    obtain ⟨row, hrow, hsame⟩ := List.any_eq_true.1 (List.all_eq_true.1 h dep hdep)
    rw [Bool.and_eq_true, decide_eq_true_eq, decide_eq_true_eq] at hsame
    exact ⟨row, hrow, hsame⟩
  next => trivial

/-- Poll 0 runs `alpha` and holds `beta` back, poll 1 releases it when
`alpha` has completed, and poll 2 finds nothing to do. -/
private def eachInTurn : List Act :=
  .stop "s" :: Act.moves 15 0 10 ++ Act.moves 24 0 11
    ++ [.edit (idlers {
      newOffset := 2
      spawns := [("u", some "alpha")]
      notifications := [⟨some "u", none, some "completed"⟩] })]
    ++ .stop "s" :: Act.moves 20 1 12 ++ .stop "s" :: Act.moves 40 2 12

/-- Polls that stamp and release answer a wake, and write that and no
more; the poll that waits has written nothing so far. -/
theorem stamped_iff_woken_waiting :
    let disk := idlers { newOffset := 1 }
    (∃ o ∈ (World.after disk eachInTurn).daemon.log, WokenBy 0 o)
      ∧ AtMostOne (WokenBy 1) (World.after disk eachInTurn).daemon.log
      ∧ (∃ o ∈ (World.after disk eachInTurn).daemon.log, WokenBy 1 o)
      ∧ Along World.step (writesExactly 1) (World.init disk) eachInTurn
      ∧ Along World.step (leaves 2) (World.init disk) eachInTurn := by
  intro disk
  have hpoll : ∀ k < 3, Job.isPoll (World.after disk eachInTurn).jobs[k]?
      = true := by
    decide +kernel
  have hwakes : ∀ k < 2, (World.after disk eachInTurn).daemon.log.any
      (Obs.wakes k) = true := by
    decide +kernel
  have hlisted : Along World.step (fun w _ => listedNow 1 w = true)
      (World.init disk) eachInTurn := by
    decide +kernel
  have hwaits : Op.waits ((World.after disk eachInTurn).about 2) = true := by
    decide +kernel
  have hquiet : (World.after disk eachInTurn).daemon.log.any (Obs.wakes 2)
      = false := by
    decide +kernel
  obtain ⟨ev₀, h₀⟩ := Job.exists_of_isPoll (hpoll 0 (by decide))
  obtain ⟨ev₁, h₁⟩ := Job.exists_of_isPoll (hpoll 1 (by decide))
  obtain ⟨ev₂, h₂⟩ := Job.exists_of_isPoll (hpoll 2 (by decide))
  obtain ⟨payload₀, ho₀⟩ := Obs.exists_of_wakes (hwakes 0 (by decide))
  obtain ⟨payload₁, ho₁⟩ := Obs.exists_of_wakes (hwakes 1 (by decide))
  obtain ⟨-, honce, hwrites⟩ := stamped_iff_woken h₁
  refine ⟨(stamped_iff_woken h₀).2.1.2 payload₀ ho₀, honce.1,
    honce.2 payload₁ ho₁,
    hwrites.2 (hlisted.mono fun _ _ => stillListed_of_listedNow),
    (stamped_iff_woken h₂).1 ?_ ?_⟩
  · intro task _
    exact .inr (.inr (Op.exists_of_waits hwaits))
  · intro payload ho
    have hno := List.any_eq_false.1 hquiet _ ho
    simp [Obs.wakes] at hno

-- ------------------------------------------- a row that was not listed

/-- Poll 1 has listed `beta`, which has since been dropped by a prompt
and held again by poll 3. -/
private def heldAgain : List Act :=
  .stop "s" :: Act.moves 15 0 10 ++ Act.moves 24 0 11
    ++ [.edit (idlers {
      newOffset := 2
      spawns := [("u", some "alpha")]
      notifications := [⟨some "u", none, some "completed"⟩] })]
    ++ .stop "s" :: Act.moves 12 1 12
    ++ .prompt "s" :: Act.moves 6 2 12
    ++ .stop "s" :: Act.moves 15 3 12 ++ Act.moves 24 3 13

private def Op.releasesFrom (t : Int) : Option Op → Bool
  | some (.write (.release _ released)) =>
      released.any fun dep => dep.createdAt == t
  | _ => false

/-- A poll that releases what it listed at `t` does not write exactly
that into a store whose rows were all held at another time. -/
private theorem not_writesExactly {disk : Disk} {as : List Act} {k : Nat}
    (tick : Tick) {t t' : Int} (hne : t' ≠ t)
    (hpoll : Job.isPoll (World.after disk as).jobs[k]? = true)
    (hlists : Op.releasesFrom t ((World.after disk as).about k) = true)
    (hrows : ∀ row ∈ (World.after disk as).daemon.store.pending.rows,
      row.createdAt = t') :
    ∃ disk as k ev, (World.after disk as).jobs[k]?
        = some (.request (.stopWait ev))
      ∧ ¬Along World.step (writesExactly k) (World.init disk) as := by
  obtain ⟨ev, hev⟩ := Job.exists_of_isPoll hpoll
  refine ⟨disk, as ++ [.move k tick], k, ev, ?_, fun hwrites => ?_⟩
  · rw [World.after, run_append, run_cons, run_nil]
    exact World.jobs_step _ hev _
  · have hlast := hwrites.last tick rfl
    unfold Op.releasesFrom at hlists
    split at hlists
    next session released hab =>
      rw [← World.after] at hlast
      simp only [hab] at hlast
      obtain ⟨dep, hdep, ht⟩ := List.any_eq_true.1 hlists
      obtain ⟨row, hrow, -, rfl⟩ := hlast.there dep hdep
      exact hne ((hrows row hrow).symm.trans (by simpa [PendingRec.toDep] using ht))
    next => cases hlists

/-- The rows a release deletes need not be those it listed: a row that
was held since goes with them, though its predecessor has not run. -/
theorem wrong_row_deleted :
    ¬∀ (disk : Disk) (as : List Act) (k : Nat) (ev : Event),
      (World.after disk as).jobs[k]? = some (.request (.stopWait ev)) →
      Along World.step (writesExactly k) (World.init disk) as := by
  intro h
  have hpoll : Job.isPoll (World.after (idlers { newOffset := 1 })
      heldAgain).jobs[1]? = true := by
    decide +kernel
  have hlists : Op.releasesFrom 11 ((World.after (idlers { newOffset := 1 })
      heldAgain).about 1) = true := by
    decide +kernel
  have hrows : ∀ row ∈ (World.after (idlers { newOffset := 1 })
      heldAgain).daemon.store.pending.rows, row.createdAt = 13 := by
    decide +kernel
  obtain ⟨disk, as, k, ev, hev, hnot⟩ :=
    not_writesExactly { now := 13 } (by decide) hpoll hlists hrows
  exact hnot (h disk as k ev hev)

end Autofork
