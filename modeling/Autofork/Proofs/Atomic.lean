/-
Selection and issuance as one step.

A poll selects in many sections and stamps in a later one. Where a
statement takes the two as one step, `currentStamp` says so of a run:
what is stamped is what the decisions of `Planner` select at the store,
the files and the clock reading of the stamping itself.
-/
import Autofork.Proofs.Select
import Autofork.Proofs.Steps

namespace Autofork

open Lib

-- ============================================================= the clock

/-- A time `now` can return: it counts seconds from the epoch in an
`i64`, and gives 0 for a clock set before it. -/
def Readable (t : Int) : Prop := 0 ≤ t ∧ t < 9223372036854775808

instance (t : Int) : Decidable (Readable t) :=
  inferInstanceAs (Decidable (_ ∧ _))

/-- The difference of two such times does not overflow. -/
theorem Readable.wrap_sub {t t₀ : Int} (h : Readable t) (h₀ : Readable t₀) :
    wrapI64 (t - t₀) = t - t₀ := by
  obtain ⟨hlo, hhi⟩ := h
  obtain ⟨hlo₀, hhi₀⟩ := h₀
  exact wrapI64_of_bounds (by omega) (by omega)

/-- Whatever clock the action can ask shows such a time. -/
def Act.readable (act : Act) : Bool :=
  act.reading.all fun t => decide (Readable t)

-- ========================================================= over all runs

/-- What is stamped for session `a` is what is selected at the stamping,
at its clock reading. -/
def currentStamp (a : String) (w : World) : Act → Prop
  | .move k tick => match w.about k with
      | some (.write (.stamp session selected t)) => session.sessionId = a →
          t = tick.now ∧ ∃ cfg moments, selected
            = selectFrom w.daemon.store w.daemon.disk session cfg moments t
      | _ => True
  | _ => True

theorem currentStamp.selected {a : String} {w : World} {k : Nat}
    {tick : Tick} (h : currentStamp a w (.move k tick))
    {session : SessionRow} {selected : List SelectedFork} {t : Int}
    (hab : w.about k = some (.write (.stamp session selected t)))
    (ha : session.sessionId = a) : t = tick.now ∧ ∃ cfg moments, selected
      = selectFrom w.daemon.store w.daemon.disk session cfg moments t := by
  simp only [currentStamp, hab] at h
  exact h ha

/-- A stamping of what is selected at this configuration, over these
moments. -/
def stampsFrom (cfg : Config) (moments : List ForkMoment) (w : World) :
    Act → Bool
  | .move k tick => match w.about k with
      | some (.write (.stamp session selected t)) => t == tick.now
          && decide (selected = selectFrom w.daemon.store w.daemon.disk session
            cfg moments t)
      | _ => true
  | _ => true

theorem currentStamp_of_stampsFrom {cfg : Config} {moments : List ForkMoment}
    {w : World} {act : Act} (h : stampsFrom cfg moments w act = true)
    (a : String) : currentStamp a w act := by
  unfold currentStamp
  split
  next k tick =>
    split
    next session selected t hab =>
      simp only [stampsFrom, hab, Bool.and_eq_true, beq_iff_eq,
        decide_eq_true_eq] at h
      exact fun _ => ⟨h.1, _, _, h.2⟩
    next => trivial
  next => trivial

/-- What is selected is on the roster. -/
theorem selectFrom_entry {store : Store} {disk : Disk}
    {session : SessionRow} {cfg : Config} {moments : List ForkMoment}
    {t : Int} {x : SelectedFork}
    (hx : x ∈ selectFrom store disk session cfg moments t) :
    ∃ entry ∈ store.roster.rows, entry.key = (session.sessionId, x.name)
      ∧ selectEntry store disk session cfg moments t entry = some x := by
  obtain ⟨entry, hentry, hsel⟩ := List.mem_filterMap.1 hx
  rw [Store.rosterOf, Table.mem_orderBy, beq_iff_eq] at hentry
  refine ⟨entry, hentry.1, ?_, hsel⟩
  rw [RosterEntry.key, hentry.2, selectEntry_name hsel]

/-- What is selected has different names. -/
theorem selectFrom_nodup (store : Store) (disk : Disk)
    (session : SessionRow) (cfg : Config) (moments : List ForkMoment)
    (t : Int) :
    ((selectFrom store disk session cfg moments t).map
      SelectedFork.name).Nodup := by
  have hroster : ((store.rosterOf session.sessionId).map
      RosterEntry.forkName).Nodup := by
    have hkeys := store.roster.nodup_orderBy
      (fun r => r.sessionId == session.sessionId) fun a b =>
        decide (a.queuedAt < b.queuedAt)
          || (a.queuedAt == b.queuedAt && decide (a.forkName ≤ b.forkName))
    have hpair : (store.rosterOf session.sessionId).map RosterEntry.key
        = ((store.rosterOf session.sessionId).map RosterEntry.forkName).map
          fun f => (session.sessionId, f) := by
      rw [List.map_map]
      refine List.map_congr_left fun r hr => ?_
      rw [Store.rosterOf, Table.mem_orderBy, beq_iff_eq] at hr
      rw [RosterEntry.key, hr.2]
      rfl
    refine List.Nodup.of_map (fun f => (session.sessionId, f)) ?_
    rw [← hpair]
    exact hkeys
  have hsub : ∀ l : List RosterEntry,
      List.Sublist ((l.filterMap
        (selectEntry store disk session cfg moments t)).map SelectedFork.name)
        (l.map RosterEntry.forkName) := by
    intro l
    induction l with
    | nil => exact List.Sublist.refl _
    | cons entry l ih =>
        rw [List.filterMap_cons, List.map_cons]
        split
        next => exact ih.cons _
        next x hx =>
          rw [List.map_cons, selectEntry_name hx]
          exact ih.cons_cons _
  exact (hsub _).nodup hroster

end Autofork
