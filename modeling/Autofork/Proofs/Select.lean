/-
Which forks a selection selects.

`selectForks_alone` connects the handler's program to `selectFrom`: run
by itself, it returns what the decisions of `Planner` say of the store
it leaves. `mem_selectFrom` then says in terms of the fork's definition
when it is selected: it is admitted by the filters and throttles, and
the latch of its first match is free.

# The first match shadows the others

`matchMoments` settles on one trigger before any latch is looked at. So
a fork with another due trigger whose latch is free is selected exactly
when the latch of the first match is free (`selectForks_complete_iff`);
a context threshold that has fired and still matches keeps the idle
trigger of its fork from firing (`idle_shadowed`).
-/
import Autofork.Proofs.Sections

namespace Autofork

open Lib

-- ============================================================ run alone

/-- The daemon at one moment. -/
abbrev at_ (k : Nat) (t : Int) (op : Op) (d : Daemon) :
    Option (Daemon × op.Res) := exec k op { now := t } d

theorem alone_go {k : Nat} {t : Int} {op : Op} {d d' : Daemon}
    {r : op.Res} (h : op.go.alone (at_ k t) d = some (d', r)) :
    exec k op { now := t } d = some (d', r) := by
  rw [Op.go, Prog.perform, Prog.alone] at h
  cases hop : exec k op { now := t } d with
  | none =>
      rw [at_, hop] at h
      cases h
  | some sr =>
      rw [at_, hop] at h
      exact h

theorem alone_pure {k : Nat} {t : Int} {α : Type} {a b : α}
    {d d' : Daemon}
    (h : (pure a : Handler α).alone (at_ k t) d = some (d', b)) :
    d' = d ∧ b = a := by
  cases h
  exact ⟨rfl, rfl⟩

variable {k : Nat} {t : Int} {session : SessionRow} {cfg : Config}
  {moments : List ForkMoment} {entry : RosterEntry} {fork : ForkDef}
  {d d' : Daemon}

private theorem considerLatch_alone {trigger : ForkRunOn}
    {sel : Option SelectedFork}
    (h : (considerLatch session entry fork trigger).alone (at_ k t) d
      = some (d', sel)) :
    d'.store = d.store ∧ d'.disk = d.disk
      ∧ sel = if latchTaken d.store session entry.forkName trigger then none
        else some (mkSelected session entry fork trigger) := by
  unfold considerLatch at h
  cases hkey : latchKeyFor trigger session.pauseEpoch with
  | none =>
      rw [hkey] at h
      obtain ⟨rfl, rfl⟩ := alone_pure h
      simp [latchTaken, hkey]
  | some key =>
      rw [hkey] at h
      obtain ⟨d₁, latched, hop, h⟩ := Prog.alone_bind h
      cases alone_go hop
      simp only [latchTaken, hkey, Option.any_some]
      split at h
      next hl =>
        obtain ⟨rfl, rfl⟩ := alone_pure h
        exact ⟨rfl, rfl, by rw [if_pos hl]⟩
      next hl =>
        obtain ⟨rfl, rfl⟩ := alone_pure h
        exact ⟨rfl, rfl, by rw [if_neg hl]⟩

private theorem considerFork_alone {sel : Option SelectedFork}
    (h : (considerFork session cfg moments t entry).alone (at_ k t) d
      = some (d', sel)) :
    d'.store = d.store ∧ d'.disk = d.disk
      ∧ sel = selectEntry d.store d.disk session cfg moments t entry := by
  obtain ⟨d₁, fork, hop, h⟩ := Prog.alone_bind h
  cases alone_go hop
  unfold selectEntry
  cases hfork : d.disk.forkAt entry with
  | none =>
      rw [hfork] at h
      obtain ⟨rfl, rfl⟩ := alone_pure h
      exact ⟨rfl, rfl, rfl⟩
  | some fork =>
      rw [hfork] at h
      dsimp only at h ⊢
      cases hdue : dueBy session cfg moments t entry fork with
      | none =>
          rw [hdue] at h
          obtain ⟨rfl, rfl⟩ := alone_pure h
          exact ⟨rfl, rfl, rfl⟩
      | some trigger =>
          rw [hdue] at h
          dsimp only at h ⊢
          split at h
          next hempty =>
            -- no tags to compare: the throttle would not bite
            have hfree : tagThrottled d.store session.projectRoot
                cfg.tagThrottles fork.tags t = false := by
              unfold tagThrottled
              rcases Bool.or_eq_true_iff.1 hempty with he | he
              · rw [List.isEmpty_iff.1 he]
                rfl
              · rw [List.isEmpty_iff.1 he]
                simp
            obtain ⟨hs, hd, rfl⟩ := considerLatch_alone h
            exact ⟨hs, hd, by simp [hfree]⟩
          next =>
            obtain ⟨d₁, throttled, hop, h⟩ := Prog.alone_bind h
            cases alone_go hop
            split at h
            next hthrottled =>
              obtain ⟨rfl, rfl⟩ := alone_pure h
              exact ⟨rfl, rfl, by simp [hthrottled]⟩
            next hthrottled =>
              obtain ⟨hs, hd, rfl⟩ := considerLatch_alone h
              exact ⟨hs, hd, by simp [hthrottled]⟩

private theorem considerAll_alone {roster : List RosterEntry}
    {sel : List SelectedFork}
    (h : (considerAll session cfg moments t roster).alone (at_ k t) d
      = some (d', sel)) :
    d'.store = d.store ∧ d'.disk = d.disk ∧ sel = roster.filterMap
      (selectEntry d.store d.disk session cfg moments t) := by
  induction roster generalizing d sel with
  | nil =>
      obtain ⟨rfl, rfl⟩ := alone_pure h
      exact ⟨rfl, rfl, rfl⟩
  | cons entry roster ih =>
      obtain ⟨d₁, x, hx, h⟩ := Prog.alone_bind h
      obtain ⟨d₂, rest, hrest, h⟩ := Prog.alone_bind h
      obtain ⟨rfl, rfl⟩ := alone_pure h
      obtain ⟨hs₁, hd₁, rfl⟩ := considerFork_alone hx
      obtain ⟨hs₂, hd₂, rfl⟩ := ih hrest
      refine ⟨hs₂.trans hs₁, hd₂.trans hd₁, ?_⟩
      rw [hs₁, hd₁, List.filterMap_cons]
      cases selectEntry d.store d.disk session cfg moments t entry <;> rfl

/-- The program of a selection computes the selection. -/
theorem selectForks_alone {sel : List SelectedFork}
    (h : (selectForks session cfg moments).alone (at_ k t) d
      = some (d', sel)) :
    d'.store = d.store.queueForks session.sessionId
        (d.disk.discover session.cwd) t
      ∧ sel = selectFrom d'.store d.disk session cfg moments t := by
  obtain ⟨d₁, _, hrefresh, h⟩ := Prog.alone_bind h
  obtain ⟨d₂, entries, hop, hrefresh⟩ := Prog.alone_bind hrefresh
  cases alone_go hop
  cases alone_go hrefresh
  obtain ⟨d₃, roster, hop, h⟩ := Prog.alone_bind h
  cases alone_go hop
  obtain ⟨d₄, t', hop, h⟩ := Prog.alone_bind h
  cases alone_go hop
  obtain ⟨hs, hd, rfl⟩ := considerAll_alone h
  refine ⟨hs, ?_⟩
  rw [hs]
  rfl

-- ==================================================== what is selected

/-- The filters and the throttles let the fork through. -/
structure Admitted (store : Store) (session : SessionRow) (cfg : Config)
    (t : Int) (entry : RosterEntry) (fork : ForkDef) : Prop where
  allowed : tagsAllowed fork.tags (session.enableTags <|> cfg.enableTags)
    (session.disableTags <|> cfg.disableTags) = true
  rested : forkThrottled fork entry.ranAt t = false
  tagsRested :
    tagThrottled store session.projectRoot cfg.tagThrottles fork.tags t = false

/-- An entry is selected when it is admitted and the latch of its first
match is free. -/
theorem selectEntry_eq_some_iff {store : Store} {disk : Disk}
    (hfork : disk.forkAt entry = some fork) {x : SelectedFork} :
    selectEntry store disk session cfg moments t entry = some x
      ↔ Admitted store session cfg t entry fork ∧ ∃ trigger,
        FirstMatch fork.runOn moments cfg.defaultIdleDeadlineSecs trigger
          ∧ latchTaken store session entry.forkName trigger = false
          ∧ x = mkSelected session entry fork trigger := by
  simp only [← matchMoments_eq_some_iff, selectEntry, hfork, dueBy]
  constructor
  · intro h
    split at h
    · cases h
    next trigger hdue =>
      split at hdue
      · cases hdue
      next hallowed =>
        split at hdue
        · cases hdue
        next trigger' hmatch =>
          split at hdue
          · cases hdue
          next hrested =>
            obtain rfl := Option.some.inj hdue
            split at h
            · cases h
            next hfree =>
              rw [Bool.or_eq_true, not_or] at hfree
              simp only [Bool.not_eq_true] at hfree hrested
              exact ⟨⟨by simpa using hallowed, hrested, hfree.1⟩, trigger',
                hmatch, hfree.2, (Option.some.inj h).symm⟩
  · rintro ⟨⟨hallowed, hrested, htags⟩, trigger, hmatch, hlatch, rfl⟩
    simp only [hallowed, hrested, htags, hmatch, hlatch, Bool.not_true,
      Bool.false_eq_true, if_false, Bool.or_self]

/-- A selected fork goes by its entry's name. -/
theorem selectEntry_name {store : Store} {disk : Disk} {x : SelectedFork}
    (h : selectEntry store disk session cfg moments t entry = some x) :
    x.name = entry.forkName := by
  cases hfork : disk.forkAt entry with
  | none => simp [selectEntry, hfork] at h
  | some fork =>
      obtain ⟨-, trigger, -, -, rfl⟩ := (selectEntry_eq_some_iff hfork).1 h
      rfl

/-- A roster has one entry for each fork. -/
theorem roster_unique {store : Store} {a : String} {e e' : RosterEntry}
    (h : e ∈ store.rosterOf a) (h' : e' ∈ store.rosterOf a)
    (hname : e.forkName = e'.forkName) : e = e' := by
  simp only [Store.rosterOf, Table.mem_orderBy, beq_iff_eq] at h h'
  refine store.roster.eq_of_key_eq h.1 h'.1 ?_
  rw [RosterEntry.key, RosterEntry.key, h.2, h'.2, hname]

/-- A rostered fork is selected when its entry is. -/
theorem mem_selectFrom {store : Store} {disk : Disk}
    (hentry : entry ∈ store.rosterOf session.sessionId)
    (hfork : disk.forkAt entry = some fork) :
    (∃ x ∈ selectFrom store disk session cfg moments t,
        x.name = entry.forkName)
      ↔ Admitted store session cfg t entry fork ∧ ∃ trigger,
        FirstMatch fork.runOn moments cfg.defaultIdleDeadlineSecs trigger
          ∧ latchTaken store session entry.forkName trigger = false := by
  constructor
  · rintro ⟨x, hx, hname⟩
    obtain ⟨e, he, hx⟩ := List.mem_filterMap.1 hx
    have hsame : e = entry := by
      refine roster_unique he hentry ?_
      rw [← hname]
      exact (selectEntry_name hx).symm
    subst hsame
    obtain ⟨hadm, trigger, hfirst, hfree, -⟩ :=
      (selectEntry_eq_some_iff hfork).1 hx
    exact ⟨hadm, trigger, hfirst, hfree⟩
  · rintro ⟨hadm, trigger, hfirst, hfree⟩
    refine ⟨mkSelected session entry fork trigger, ?_, rfl⟩
    refine List.mem_filterMap.2 ⟨entry, hentry, ?_⟩
    exact (selectEntry_eq_some_iff hfork).2 ⟨hadm, trigger, hfirst, hfree, rfl⟩

-- ====================================== the first match shadows the rest

/-- Queueing touches the roster only. -/
private theorem queueForks_reads (store : Store) (session : SessionRow)
    (cfg : Config) (t : Int) (entry : RosterEntry) (fork : ForkDef)
    (sessionId : String) (entries : List ForkEntry) (t₀ : Int) :
    (∀ forkName trigger, latchTaken (store.queueForks sessionId entries t₀)
        session forkName trigger = latchTaken store session forkName trigger)
      ∧ (Admitted (store.queueForks sessionId entries t₀) session cfg t entry
          fork ↔ Admitted store session cfg t entry fork) := by
  obtain ⟨roster, hs⟩ := queueForks_only store sessionId entries t₀
  rw [hs]
  exact ⟨fun _ _ => rfl, fun h => ⟨h.1, h.2, h.3⟩, fun h => ⟨h.1, h.2, h.3⟩⟩

/-- What a selection selects, in terms of the store it finds. -/
theorem selectForks_selects {sel : List SelectedFork}
    (hrun : (selectForks session cfg moments).alone (at_ k t) d
      = some (d', sel))
    (hentry : entry ∈ d'.store.rosterOf session.sessionId)
    (hfork : d.disk.forkAt entry = some fork) :
    (∃ x ∈ sel, x.name = entry.forkName)
      ↔ Admitted d.store session cfg t entry fork ∧ ∃ trigger,
        FirstMatch fork.runOn moments cfg.defaultIdleDeadlineSecs trigger
          ∧ latchTaken d.store session entry.forkName trigger = false := by
  obtain ⟨hs, rfl⟩ := selectForks_alone hrun
  rw [mem_selectFrom hentry hfork, hs]
  obtain ⟨hlatch, hadmitted⟩ := queueForks_reads d.store session cfg t entry
    fork session.sessionId (d.disk.discover session.cwd) t
  simp only [hlatch, hadmitted]

/-- For a rostered fork that the filters and throttles admit: to be
selected whenever some due trigger has a free latch is the same as that
then the first match has one. -/
theorem selectForks_complete_iff {sel : List SelectedFork}
    (hrun : (selectForks session cfg moments).alone (at_ k t) d
      = some (d', sel))
    (hentry : entry ∈ d'.store.rosterOf session.sessionId)
    (hfork : d.disk.forkAt entry = some fork)
    (hadm : Admitted d.store session cfg t entry fork) :
    ((∃ trigger ∈ fork.runOn,
        Due moments cfg.defaultIdleDeadlineSecs trigger
          ∧ latchTaken d.store session entry.forkName trigger = false) →
      ∃ x ∈ sel, x.name = entry.forkName)
      ↔ ((∃ trigger ∈ fork.runOn,
          Due moments cfg.defaultIdleDeadlineSecs trigger
            ∧ latchTaken d.store session entry.forkName trigger = false) →
        ∃ trigger,
          FirstMatch fork.runOn moments cfg.defaultIdleDeadlineSecs trigger
            ∧ latchTaken d.store session entry.forkName trigger = false) := by
  refine imp_congr_right fun _ => ?_
  rw [selectForks_selects hrun hentry hfork]
  simp only [hadm, true_and]

/-- A fork due at five tokens, and again after a minute of idling. -/
private def twice : ForkDef where
  runOn := [.contextTokens 5, .idle (some 60)]

/-- The daemon after its first poll was answered with the fork, at its
context threshold. -/
private def fired : Daemon :=
  (run World.step
    (World.init (.holding [("f", twice)] { wakeDebounceSecs := 0 }
      (some { newOffset := 1, promptTokens := some 5 })))
    (.stop "s" :: Act.moves 33 0 10)).daemon

/-- The session as a second poll would find it. -/
private def again : SessionRow :=
  (fired.store.getSession "s").get (by decide +kernel)

/-- Its roster entry for the fork. -/
private def rostered : RosterEntry where
  sessionId := "s"
  forkName := "f"
  forkPath := "f"
  queuedAt := 10
  ranAt := some 10

/-- What a second poll selects, a minute later. -/
private theorem fired_selects (moments : List ForkMoment)
    (h : ((selectForks again {} moments).alone (at_ 1 70) fired).isSome) :
    ∃ d' sel, (selectForks again {} moments).alone (at_ 1 70) fired
        = some (d', sel)
      ∧ rostered ∈ d'.store.rosterOf again.sessionId
      ∧ sel = selectFrom (fired.store.queueForks again.sessionId
        (fired.disk.discover again.cwd) 70) fired.disk again {} moments 70 := by
  obtain ⟨⟨d', sel⟩, hrun⟩ := Option.isSome_iff_exists.1 h
  obtain ⟨hs, hsel⟩ := selectForks_alone hrun
  refine ⟨d', sel, hrun, ?_, hs ▸ hsel⟩
  rw [hs]
  decide +kernel

private theorem fired_admits : Admitted fired.store again {} 70 rostered twice :=
  ⟨by decide +kernel, by decide +kernel, by decide +kernel⟩

private theorem fired_idle_due {moments : List ForkMoment}
    (h : .idle 60 ∈ moments) : ∃ trigger ∈ twice.runOn, Due moments
      ({} : Config).defaultIdleDeadlineSecs trigger
        ∧ latchTaken fired.store again rostered.forkName trigger = false :=
  ⟨.idle (some 60), by simp [twice], ⟨_, h, by decide⟩, by decide +kernel⟩

/-- While the gauge does not show the threshold, the idle trigger comes
first, and the fork is selected. -/
theorem selectForks_complete_idle :
    ∃ d' sel, (selectForks again {} [.idle 60]).alone (at_ 1 70) fired
        = some (d', sel)
      ∧ ∃ x ∈ sel, x.name = "f" := by
  obtain ⟨d', sel, hrun, hentry, -⟩ :=
    fired_selects [.idle 60] (by decide +kernel)
  have hfirst : FirstMatch twice.runOn [.idle 60] 600 (.idle (some 60)) :=
    matchMoments_eq_some_iff.1 (by decide)
  exact ⟨d', sel, hrun, (selectForks_complete_iff hrun hentry
    (by decide +kernel) fired_admits).2
      (fun _ => ⟨_, hfirst, by decide +kernel⟩) (fired_idle_due (by simp))⟩

/-- The threshold still matches and its latch is taken, so the idle
trigger, whose latch is free, does not fire. -/
theorem idle_shadowed :
    ¬∀ (k : Nat) (t : Int) (d d' : Daemon) (session : SessionRow)
      (cfg : Config) (moments : List ForkMoment) (sel : List SelectedFork)
      (entry : RosterEntry) (fork : ForkDef),
      (selectForks session cfg moments).alone (at_ k t) d = some (d', sel) →
      entry ∈ d'.store.rosterOf session.sessionId →
      d.disk.forkAt entry = some fork →
      Admitted d.store session cfg t entry fork →
      (∃ trigger ∈ fork.runOn,
        Due moments cfg.defaultIdleDeadlineSecs trigger
          ∧ latchTaken d.store session entry.forkName trigger = false) →
      ∃ x ∈ sel, x.name = entry.forkName := by
  intro h
  obtain ⟨d', sel, hrun, hentry, hsel⟩ := fired_selects
    [.context 5 (some 200000), .idle 60] (by decide +kernel)
  obtain ⟨x, hx, -⟩ := h 1 70 fired d' again {} _ sel rostered twice hrun hentry
    (by decide +kernel) fired_admits (fired_idle_due (by simp))
  have hnone : selectFrom (fired.store.queueForks again.sessionId
      (fired.disk.discover again.cwd) 70) fired.disk again {}
      [.context 5 (some 200000), .idle 60] 70 = [] := by decide +kernel
  rw [hsel, hnone] at hx
  cases hx

end Autofork
