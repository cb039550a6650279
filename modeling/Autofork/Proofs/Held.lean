/-
The dependents a wake holds back, over whole runs.

A row of `pending` is named by the issuance that wrote it and its fork.
Each section that takes rows away takes them for good: issuance numbers
are positions in the log, so a row that is gone is never written again
(`Dropped`).

# Delivered once, or dropped

`release_due` lists the rows it will release in one lock acquisition
and deletes them in another, and the delete does not look at whether
the row is still there. So two polls that list the same row both
release it (`dependent_delivered_twice`), and a prompt that clears it
in between drops and releases it. `releaseIntact` asks of every delete
that the listed rows are still there; then each row appears in at most
one release, and one dropped by a prompt in none.
-/
import Autofork.Proofs.Latch

namespace Autofork

open Lib

-- ==================================================== what takes rows away

/-- A log entry that releases the row of `f` written by issuance
`issue`. -/
def Releases (a : String) (issue : Nat) (f : String) : Obs → Prop
  | .released _ session released => session.sessionId = a
      ∧ ∃ dep ∈ released, dep.issue = issue ∧ dep.forkName = f
  | _ => False

instance (a : String) (issue : Nat) (f : String) :
    DecidablePred (Releases a issue f)
  | .released _ session released => inferInstanceAs (Decidable
      (session.sessionId = a
        ∧ ∃ dep ∈ released, dep.issue = issue ∧ dep.forkName = f))
  | .stopped .. | .prompted .. | .closed .. | .clock .. | .marked .. | .configured ..
  | .registered .. | .snapshot .. | .cancelled .. | .issued ..
  | .answered .. => isFalse id

/-- A section that neither stamps nor releases writes no row, and logs
no release. -/
theorem mem_pending_run {k : Nat} {now : Int} {d : Daemon} {x : Section}
    (hstamp : ∀ session selected t, x ≠ .stamp session selected t)
    (hrelease : ∀ session released, x ≠ .release session released) :
    (∀ row ∈ (x.run k now d).1.pending.rows, row ∈ d.store.pending.rows)
      ∧ ∀ o ∈ (x.run k now d).2.2, ∀ a n f, ¬Releases a n f o := by
  have same : ∀ {s : Store} {obs : List Obs}, s.pending = d.store.pending →
      (∀ o ∈ obs, ∀ a n f, ¬Releases a n f o) →
      (∀ row ∈ s.pending.rows, row ∈ d.store.pending.rows)
        ∧ ∀ o ∈ obs, ∀ a n f, ¬Releases a n f o :=
    fun hs ho => ⟨fun row h => hs ▸ h, ho⟩
  have marked : ∀ {s : Store} {t : Int}, ∀ o ∈ marks d.store s t, ∀ a n f,
      ¬Releases a n f o := by
    intro s t o ho a n f
    obtain ⟨s, f, rfl⟩ := mem_marks ho
    exact id
  have closed : ∀ sessionId, ∀ row ∈
      (d.store.closeSession sessionId).pending.rows,
      row ∈ d.store.pending.rows := by
    intro sessionId row h
    rw [Store.closeSession, Table.mem_deleteWhere] at h
    exact h.1
  cases x with
  | stamp session selected t => exact absurd rfl (hstamp session selected t)
  | release session released => exact absurd rfl (hrelease session released)
  | start ev t => exact same rfl (by simp [Section.run])
  | classify ev t =>
      obtain ⟨spawns, hs⟩ := classifyNotification_only d.store ev t
      exact same (by simp only [Section.run, hs]) marked
  | prompt ev waking t =>
      refine ⟨fun row h => ?_, by simp [Section.run, Releases]⟩
      simp only [Section.run, recordPrompt] at h
      split at h
      · rw [Store.clearPendingDeps, Table.mem_deleteWhere] at h
        exact h.1
      · exact h
  | stop ev t => exact same rfl (by simp [Section.run, Releases])
  | ingest sessionId delta t =>
      obtain ⟨sessions, spawns, hs⟩ := applyDelta_only d.store sessionId delta t
      exact same (by simp only [Section.run, hs]) marked
  | queue sessionId entries =>
      obtain ⟨roster, hs⟩ := queueForks_only d.store sessionId entries now
      exact same (by simp only [Section.run, hs]) (by simp [Section.run])
  | close sessionId =>
      exact ⟨closed sessionId, by simp [Section.run, Releases]⟩
  | closeIfOpen sessionId =>
      simp only [Section.run]
      split
      · split
        · exact ⟨closed sessionId, by simp [Releases]⟩
        · exact same rfl (by simp)
      · exact same rfl (by simp)
  | prune t =>
      constructor
      · intro row h
        simp only [Section.run] at h
        refine List.foldlRecOn (motive := fun s : Store =>
          row ∈ s.pending.rows → row ∈ d.store.pending.rows) _ _ id
          (fun s ih x _ h => ih ?_) h
        rw [Store.closeSession, Table.mem_deleteWhere] at h
        exact h.1
      · intro o ho a n f
        simp only [Section.run, List.mem_reverse, List.mem_map] at ho
        obtain ⟨x, -, rfl⟩ := ho
        exact id

-- ============================================ delivered once, or dropped

/-- The poll whose release an entry records. -/
def Obs.releaser : Obs → Option Nat
  | .released k .. => some k
  | _ => none

/-- Poll `k` answered a release of the row of fork `f` written by
issuance `issue`. -/
def DeliveredBy (log : List Obs) (a : String) (issue : Nat) (f : String)
    (k : Nat) : Prop :=
  (∃ o ∈ log, AnswersWake k o)
    ∧ ∃ o ∈ log, o.releaser = some k ∧ Releases a issue f o

/-- The rows a release for session `a` deletes are the ones it listed,
still there. -/
def releaseIntact (a : String) (w : World) : Act → Bool
  | .move k _ => match w.about k with
      | some (.write (.release session released)) =>
          session.sessionId != a || released.all fun dep =>
            w.daemon.store.pending.rows.any fun row =>
              row.sessionId == a && row.forkName == dep.forkName
                && row.issue == dep.issue
      | _ => true
  | _ => true

/-- What has been released and what can still be are different rows. -/
structure Delivery (a : String) (s : Store) (l : List Obs) : Prop where
  /-- A row that is there is from a past issuance, and unreleased. -/
  fresh : ∀ row ∈ s.pending.rows, row.sessionId = a →
    row.issue < l.length ∧ ∀ o ∈ l, ¬Releases a row.issue row.forkName o
  /-- Releases are of rows past issuances wrote. -/
  past : ∀ o ∈ l, ∀ n f, Releases a n f o → n < l.length
  once : ∀ n f, AtMostOne (Releases a n f) l

/-- Nothing that only takes rows away disturbs deliveries. -/
private theorem Delivery.extend {a : String} {s : Store} {l : List Obs}
    (h : Delivery a s l) (s' : Store) (obs : List Obs)
    (hrows : ∀ row ∈ s'.pending.rows, row ∈ s.pending.rows)
    (hobs : ∀ o ∈ obs, ∀ a n f, ¬Releases a n f o) :
    Delivery a s' (obs ++ l) where
  fresh row hrow ha := by
    obtain ⟨hlt, hno⟩ := h.fresh row (hrows row hrow) ha
    refine ⟨by rw [List.length_append]; omega, fun o ho => ?_⟩
    rcases List.mem_append.1 ho with ho | ho
    · exact hobs o ho _ _ _
    · exact hno o ho
  past o ho n f hr := by
    rcases List.mem_append.1 ho with ho | ho
    · exact absurd hr (hobs o ho a n f)
    · rw [List.length_append]
      have := h.past o ho n f hr
      omega
  once n f := (atMostOne_append fun o ho => hobs o ho a n f).2 (h.once n f)

theorem passive_releases {o : Obs} (ho : o.passive = true)
    (a : String) (n : Nat) (f : String) : ¬Releases a n f o := by
  intro hr
  cases o <;> simp [Obs.passive, Releases] at ho hr

/-- An issuance holds back rows that carry the number of its own entry,
which no earlier release can have named. -/
private theorem Delivery.stamp {a : String} {s : Store} {l : List Obs}
    (h : Delivery a s l) (k : Nat) (session : SessionRow)
    (selected : List SelectedFork) (t : Int) :
    Delivery a (s.stampWake session selected t l.length)
      (.issued k session selected t :: l) := by
  have hold := h.extend s [.issued k session selected t]
    (fun _ => id) (by simp [Releases])
  refine ⟨fun row hrow ha => ?_, hold.past, hold.once⟩
  rcases mem_pending_stampWake hrow with hrow | ⟨sp, -, -, rfl⟩
  · exact hold.fresh row hrow ha
  · refine ⟨by simp [heldRow], fun o ho hr => ?_⟩
    rcases List.mem_cons.1 ho with rfl | ho
    · exact hr
    · have := h.past o ho _ _ hr
      simp [heldRow] at this

/-- A release of rows that are there takes them out of what can still be
released. -/
private theorem Delivery.release {a : String} {s : Store} {l : List Obs}
    (h : Delivery a s l) (k : Nat) {session : SessionRow}
    {released : List PendingDep}
    (hthere : session.sessionId = a → ∀ dep ∈ released,
      ∃ row ∈ s.pending.rows, row.sessionId = a
        ∧ row.forkName = dep.forkName ∧ row.issue = dep.issue) :
    Delivery a (s.deleteReleased session.sessionId released)
      (.released k session released :: l) := by
  have hnew : ∀ n f, Releases a n f (.released k session released) →
      n < l.length ∧ ∀ o ∈ l, ¬Releases a n f o := by
    rintro n f ⟨hs, dep, hdep, rfl, rfl⟩
    obtain ⟨row, hrow, ha, hf, hi⟩ := hthere hs dep hdep
    rw [← hf, ← hi]
    exact h.fresh row hrow ha
  refine ⟨fun row hrow ha => ?_, fun o ho n f hr => ?_, fun n f => ?_⟩
  · obtain ⟨hold, hkept⟩ := mem_pending_deleteReleased.1 hrow
    obtain ⟨hlt, hno⟩ := h.fresh row hold ha
    refine ⟨Nat.lt_succ_of_lt hlt, fun o ho hr => ?_⟩
    rcases List.mem_cons.1 ho with rfl | ho
    · obtain ⟨hs, dep, hdep, -, hf⟩ := hr
      exact hkept ⟨ha.trans hs.symm, dep, hdep, hf⟩
    · exact hno o ho hr
  · rcases List.mem_cons.1 ho with rfl | ho
    · exact Nat.lt_succ_of_lt (hnew n f hr).1
    · exact Nat.lt_succ_of_lt (h.past o ho n f hr)
  · exact atMostOne_cons.2 ⟨fun hr => (hnew n f hr).2, h.once n f⟩

theorem delivery_step {a : String} (w : World) (act : Act)
    (hC : releaseIntact a w act = true)
    (h : Delivery a w.daemon.store w.daemon.log) :
    Delivery a (w.step act).daemon.store (w.step act).daemon.log := by
  refine w.store_invariant
    (C := fun w act => releaseIntact a w act = true) ?_ ?_ act hC h
  · intro s l o ho h
    exact h.extend _ [o] (fun _ => id) fun o' ho' => by
      rw [List.mem_singleton.1 ho']
      exact passive_releases ho
  · intro w k tick x hC hab h
    cases x with
    | stamp session selected t => exact h.stamp k session selected t
    | release session released =>
        refine h.release k fun ha dep hdep => ?_
        simp only [releaseIntact, hab, ha, bne_self_eq_false, Bool.false_or,
          List.all_eq_true] at hC
        simpa [and_assoc] using hC dep hdep
    | _ =>
        exact h.extend _ _ (mem_pending_run (by simp) (by simp)).1
          (mem_pending_run (by simp) (by simp)).2

theorem delivery_init (a : String) (disk : Disk) :
    Delivery a (World.init disk).daemon.store (World.init disk).daemon.log :=
  ⟨by simp [World.init, Store.openInMemory], by simp [World.init],
    fun _ _ => atMostOne_nil⟩

/-- A row that is gone: written by a past issuance, not there, and never
released. -/
structure Dropped (a : String) (n : Nat) (f : String) (s : Store)
    (l : List Obs) : Prop where
  past : n < l.length
  absent : ∀ row ∈ s.pending.rows, row.sessionId = a → row.forkName = f →
    row.issue ≠ n
  unreleased : ∀ o ∈ l, ¬Releases a n f o

private theorem Dropped.extend {a : String} {n : Nat} {f : String}
    {s : Store} {l : List Obs} (h : Dropped a n f s l) (s' : Store)
    (obs : List Obs) (hrows : ∀ row ∈ s'.pending.rows, row ∈ s.pending.rows)
    (hobs : ∀ o ∈ obs, ¬Releases a n f o) : Dropped a n f s' (obs ++ l) where
  past := by
    rw [List.length_append]
    exact Nat.lt_of_lt_of_le h.past (Nat.le_add_left _ _)
  absent row hrow := h.absent row (hrows row hrow)
  unreleased o ho := by
    rcases List.mem_append.1 ho with ho | ho
    · exact hobs o ho
    · exact h.unreleased o ho

/-- A row that is gone stays gone, and is not released. -/
private theorem dropped_step {a : String} {n : Nat} {f : String} (w : World)
    (act : Act) (hC : releaseIntact a w act = true)
    (h : Dropped a n f w.daemon.store w.daemon.log) :
    Dropped a n f (w.step act).daemon.store (w.step act).daemon.log := by
  refine w.store_invariant
    (C := fun w act => releaseIntact a w act = true) ?_ ?_ act hC h
  · intro s l o ho h
    exact h.extend _ [o] (fun _ => id) fun o' ho' => by
      rw [List.mem_singleton.1 ho']
      exact passive_releases ho a n f
  · intro w k tick x hC hab h
    cases x with
    | stamp session selected t =>
        have hold := h.extend w.daemon.store
          [.issued k session selected t] (fun _ => id)
          (by simp [Releases])
        refine ⟨hold.past, fun row hrow ha hf => ?_, hold.unreleased⟩
        rcases mem_pending_stampWake hrow with hrow | ⟨sp, -, -, rfl⟩
        · exact h.absent row hrow ha hf
        · exact Nat.ne_of_gt h.past
    | release session released =>
        refine h.extend _ [_]
          (fun row hrow => (mem_pending_deleteReleased.1 hrow).1) ?_
        intro o ho
        rw [List.mem_singleton.1 ho]
        rintro ⟨ha, dep, hdep, hn, hf⟩
        simp only [releaseIntact, hab, ha, bne_self_eq_false, Bool.false_or,
          List.all_eq_true] at hC
        obtain ⟨row, hrow, hs, hf', hi⟩ : ∃ row ∈ w.daemon.store.pending.rows,
            row.sessionId = a ∧ row.forkName = dep.forkName
              ∧ row.issue = dep.issue := by
          simpa [and_assoc] using hC dep hdep
        exact h.absent row hrow hs (hf'.trans hf) (hi.trans hn)
    | _ =>
        exact h.extend _ _ (mem_pending_run (by simp) (by simp)).1
          fun o ho => (mem_pending_run (by simp) (by simp)).2 o ho a n f

/-- The genuine prompt of session `a` that step `act` records. -/
def promptOf (w : World) : Act → Option String
  | .move k _ => match w.about k with
      | some (.write (.prompt ev true _)) => some ev.sessionId
      | _ => none
  | _ => none

/-- A genuine prompt leaves its session no row. -/
private theorem dropped_of_prompt {a : String} {w : World} {act : Act}
    (h : Delivery a w.daemon.store w.daemon.log)
    (hp : promptOf w act = some a) {row : PendingRec}
    (hrow : row ∈ w.daemon.store.pending.rows) (ha : row.sessionId = a) :
    Dropped a row.issue row.forkName (w.step act).daemon.store
      (w.step act).daemon.log := by
  obtain ⟨hlt, hno⟩ := h.fresh row hrow ha
  unfold promptOf at hp
  split at hp
  next k tick =>
    split at hp
    next ev t hab =>
      rw [Option.some.injEq] at hp
      rw [World.step_write hab]
      refine ⟨by simp [Section.run]; omega, fun row' hrow' ha' => ?_, ?_⟩
      · simp only [Section.run, recordPrompt, if_true, Store.clearPendingDeps,
          Table.mem_deleteWhere, hp, beq_eq_false_iff_ne] at hrow'
        exact absurd ha' hrow'.2
      · intro o ho
        simp only [Section.run, List.singleton_append, List.mem_cons] at ho
        rcases ho with rfl | ho
        · exact id
        · exact hno o ho
    next => cases hp
  next => cases hp

/-- In every interleaving whose releases delete the rows they listed: a
row is delivered by at most one poll, and one that a genuine prompt
dropped by none. -/
theorem delivered_once_or_dropped {disk : Disk} {a : String}
    {as : List Act}
    (hintact : Along World.step (fun w act => releaseIntact a w act = true)
      (World.init disk) as) :
    (∀ n f k k',
        DeliveredBy (run World.step (World.init disk) as).daemon.log a n f k →
        DeliveredBy (run World.step (World.init disk) as).daemon.log a n f k' →
        k = k')
      ∧ ∀ bs act cs, as = bs ++ act :: cs →
        promptOf (run World.step (World.init disk) bs) act = some a →
        ∀ row ∈ (run World.step (World.init disk) bs).daemon.store.pending.rows,
          row.sessionId = a → ∀ k, ¬DeliveredBy
            (run World.step (World.init disk) as).daemon.log a row.issue
            row.forkName k := by
  have hinit := delivery_init a disk
  constructor
  · rintro n f k k' ⟨-, o, hmem, hby, hr⟩ ⟨-, o', hmem', hby', hr'⟩
    have honce := (hintact.invariant
      (P := fun w : World => Delivery a w.daemon.store w.daemon.log)
      delivery_step hinit).once n f
    rw [honce.eq hmem hmem' hr hr', hby'] at hby
    exact (Option.some.inj hby).symm
  · rintro bs act cs rfl hp row hrow ha k ⟨-, o, hmem, -, hr⟩
    rw [along_append] at hintact
    obtain ⟨hbs, hact, hcs⟩ := hintact
    have hdelivery := hbs.invariant
      (P := fun w : World => Delivery a w.daemon.store w.daemon.log)
      delivery_step hinit
    have hdropped := hcs.invariant
      (P := fun w : World => Dropped a row.issue row.forkName w.daemon.store
        w.daemon.log)
      dropped_step (dropped_of_prompt hdelivery hp hrow ha)
    rw [run_append, run_cons] at hmem
    exact hdropped.unreleased o hmem hr

-- ------------------------------------------------- polls that overlap

/-- Two forks due at once, the second to run after the first. -/
def chain (delta : Delta) : Disk :=
  .holding [("alpha", { runOn := [.contextTokens 1] }),
      ("beta", { runOn := [.contextTokens 1], after := ["alpha"] })]
    { wakeDebounceSecs := 0 } (some delta)

/-- `beta` is held back by poll 0, and `alpha` completes. -/
def heldRun : List Act :=
  .stop "s" :: Act.moves 36 0 10 ++ [.edit (chain {
    newOffset := 2
    spawns := [("u", some "alpha")]
    notifications := [⟨some "u", none, some "completed"⟩] })]

/-- The log of a run that starts by holding `beta` back. -/
private def heldLog (as : List Act) : List Obs :=
  (run World.step (World.init (chain { newOffset := 1, promptTokens := some 5 }))
    (heldRun ++ as)).daemon.log

/-- Polls that do not overlap: the first one after the completion
delivers the dependent, alone. -/
theorem delivered_once_in_turn :
    let as := .stop "s" :: Act.moves 16 1 20 ++ .stop "s" :: Act.moves 50 2 20
    (∃ n, DeliveredBy (heldLog as) "s" n "beta" 1)
      ∧ ∀ n f k k', DeliveredBy (heldLog as) "s" n f k →
        DeliveredBy (heldLog as) "s" n f k' → k = k' := by
  intro as
  refine ⟨⟨11, ?_⟩, (@delivered_once_or_dropped _ _ (heldRun ++ as) ?_).1⟩
  · unfold DeliveredBy
    decide +kernel
  · decide +kernel

/-- Polls that overlap: each lists the dependent before the other
deletes it, and each delivers it. -/
theorem dependent_delivered_twice :
    ¬∀ (disk : Disk) (a : String) (as : List Act) (n : Nat) (f : String)
      (k k' : Nat),
      DeliveredBy (run World.step (World.init disk) as).daemon.log a n f k →
      DeliveredBy (run World.step (World.init disk) as).daemon.log a n f k' →
      k = k' := by
  intro h
  have hrun := h (chain { newOffset := 1, promptTokens := some 5 }) "s"
    (heldRun ++ (.stop "s" :: .stop "s" :: Act.moves 12 1 20
      ++ Act.moves 12 2 20 ++ Act.moves 4 1 20 ++ Act.moves 4 2 20))
    11 "beta" 1 2 (by unfold DeliveredBy; decide +kernel)
    (by unfold DeliveredBy; decide +kernel)
  cases hrun

end Autofork
