/-
The throttle of a fork, over whole runs.

A roster row remembers when its fork was last issued (`RanMatch`): every
issuance stamps the rows of the forks it selects, nothing else writes
the time, and a row goes only with its session. So whatever comes
between, two issuances of a fork are as far apart as its throttle says
at the second one (`throttled_apart`).

The test counts a clock that has gone back as no time at all, which
keeps a fork from running early as long as its throttle is positive. A
definition that has been read from a file has no other
(`throttle_pos_of_parsed`).
-/
import Autofork.ForkFile
import Autofork.Proofs.Atomic

namespace Autofork

open Lib

variable {a : String}

-- ===================================================== the last issuance

/-- A log entry that issues fork `f` of session `a` at `t`. -/
def IssuesAt (a f : String) (t : Int) : Obs → Prop
  | .issued _ session selected t' => session.sessionId = a
      ∧ (∃ x ∈ selected, x.name = f) ∧ t' = t
  | _ => False

theorem IssuesAt.issues {f : String} {t : Int} {o : Obs}
    (h : IssuesAt a f t o) : Issues a f o := by
  cases o with
  | issued k session selected t' => exact ⟨h.1, h.2.1⟩
  | _ => cases h

instance (a f : String) (t : Int) : DecidablePred (IssuesAt a f t)
  | .issued _ session selected t' => inferInstanceAs (Decidable
      (session.sessionId = a ∧ (∃ x ∈ selected, x.name = f) ∧ t' = t))
  | .stopped .. | .prompted .. | .closed .. | .clock .. | .marked .. | .configured ..
  | .registered .. | .snapshot .. | .cancelled .. | .released ..
  | .answered .. => isFalse id

/-- Fork `f` was issued at `t`, and since then neither issued again nor
its session closed. -/
def LastIssued (a f : String) (t : Int) (l : List Obs) : Prop :=
  ∃ newer o older, l = newer ++ o :: older ∧ IssuesAt a f t o
    ∧ ∀ o' ∈ newer, ¬(Issues a f o' ∨ o' = .closed a)

instance (a f : String) (t : Int) (l : List Obs) :
    Decidable (LastIssued a f t l) := decidable_of_iff _ since_iff

/-- What issues no fork leaves the last issuances as they are. -/
private theorem lastIssued_append {f : String} {t : Int} {l : List Obs}
    (obs : List Obs) (hobs : ∀ o ∈ obs, ¬Issues a f o) (h : LastIssued a f t (obs ++ l)) :
    LastIssued a f t l ∧ Obs.closed a ∉ obs := by
  have hsince := (since_append (fun o ho hat => hobs o ho hat.issues)).1
    (since_iff.2 h)
  exact ⟨since_iff.1 hsince.1, fun hc => hsince.2 _ hc (.inr rfl)⟩

-- ============================================================= the roster

/-- A fork that was issued has a row, which says when it was last. -/
def RanMatch (a : String) (s : Store) (l : List Obs) : Prop :=
  ∀ f t, LastIssued a f t l → Readable t
    ∧ ∃ r ∈ s.roster.rows, r.key = (a, f) ∧ r.ranAt = some t

private theorem ranMatch_stamp {s : Store} {l : List Obs}
    (h : RanMatch a s l) (k : Nat) {session : SessionRow}
    {selected : List SelectedFork} {t : Int}
    (hclock : Readable t)
    (hrostered : session.sessionId = a → ∀ x ∈ selected,
      ∃ r ∈ s.roster.rows, r.key = (a, x.name)) :
    RanMatch a (s.stampWake session selected t l.length)
      (.issued k session selected t :: l) := by
  intro f t' hlast
  rw [roster_stampWake]
  by_cases hissues : Issues a f (.issued k session selected t)
  · -- the rows of the forks it selects say so
    obtain ⟨ha, x, hx, rfl⟩ := hissues
    have htime : t' = t := by
      rcases since_iff.2 hlast with hat | ⟨hno, -⟩
      · exact hat.2.2.symm
      · exact absurd (.inl ⟨ha, x, hx, rfl⟩) hno
    subst htime
    obtain ⟨r, hr, hkey⟩ := hrostered ha x hx
    rw [RosterEntry.key, Prod.mk.injEq] at hkey
    refine ⟨hclock, _, List.mem_map_of_mem hr, ?_, ?_⟩ <;>
      rw [stampedRow, if_pos ⟨hkey.1.trans ha.symm,
        List.mem_map.2 ⟨x, hx, hkey.2.symm⟩⟩]
    rw [RosterEntry.key, Prod.mk.injEq]
    exact hkey
  · -- the others stay
    have hold : LastIssued a f t' l :=
      (lastIssued_append [_] (by simpa using hissues) hlast).1
    obtain ⟨hread, r, hr, hkey, hran⟩ := h f t' hold
    refine ⟨hread, r, List.mem_map.2 ⟨r, hr, ?_⟩, hkey, hran⟩
    rw [RosterEntry.key, Prod.mk.injEq] at hkey
    refine if_neg fun hsel => hissues ?_
    obtain ⟨x, hx, hname⟩ := List.mem_map.1 hsel.2
    exact ⟨hsel.1.symm.trans hkey.1, x, hx, hname.trans hkey.2⟩

private theorem ranMatch_step (w : World) (act : Act)
    (hC : currentStamp a w act ∧ act.readable = true)
    (h : RanMatch a w.daemon.store w.daemon.log) :
    RanMatch a (w.step act).daemon.store (w.step act).daemon.log := by
  refine w.store_invariant
    (C := fun w act => currentStamp a w act ∧ act.readable = true)
    (Q := RanMatch a) ?_ ?_ act hC h
  · intro s l o ho h f t hlast
    refine h f t (lastIssued_append [o] (fun o' ho' hi => ?_) hlast).1
    rw [List.mem_singleton.1 ho'] at hi
    cases o <;> simp [Obs.passive, Issues] at ho hi
  · intro w k tick x hC hab h
    by_cases hx : ∃ session selected t, x = .stamp session selected t
    · obtain ⟨session, selected, t, rfl⟩ := hx
      by_cases ha : session.sessionId = a
      · obtain ⟨rfl, cfg, moments, hsel⟩ := hC.1.selected hab ha
        refine ranMatch_stamp h k ?_ fun _ x hx => ?_
        · simpa [Act.readable, Act.reading] using hC.2
        · rw [hsel] at hx
          obtain ⟨r, hr, hkey, -⟩ := selectFrom_entry hx
          exact ⟨r, hr, ha ▸ hkey⟩
      · -- a wake of another session
        intro f t' hlast
        have hno : ∀ o ∈ [Obs.issued k session selected t],
            ¬Issues a f o := by
          intro o ho hi
          rw [List.mem_singleton.1 ho] at hi
          exact ha hi.1
        obtain ⟨hread, r, hr, hkey, hran⟩ :=
          h f t' (lastIssued_append _ hno hlast).1
        refine ⟨hread, r, ?_, hkey, hran⟩
        show r ∈ (w.daemon.store.stampWake session selected t _).roster.rows
        rw [roster_stampWake]
        refine List.mem_map.2 ⟨r, hr, if_neg fun hs => ha ?_⟩
        rw [RosterEntry.key, Prod.mk.injEq] at hkey
        exact hs.1.symm.trans hkey.1
    · push Not at hx
      intro f t hlast
      have hno : ∀ o ∈ (x.run k tick.now w.daemon).2.2, ¬Issues a f o := by
        intro o ho hi
        cases o with
        | issued j session selected t => exact hx _ _ _ (issued_of_run ho)
        | _ => exact hi
      obtain ⟨hold, hopen⟩ := lastIssued_append _ hno hlast
      obtain ⟨hread, r, hr, hkey, hran⟩ := h f t hold
      have ha : r.sessionId = a := congrArg Prod.fst hkey
      exact ⟨hread, r, roster_run hx r hr (ha ▸ hopen), hkey, hran⟩

/-- What a disk on which fork files are read as they are yields. -/
theorem throttle_pos_of_forkAt {disk : Disk} {serde : SerdeYaml}
    (hparser : disk.parseForkFile = parseForkFile serde) {entry : RosterEntry}
    {fork : ForkDef} (hfork : disk.forkAt entry = some fork) {throttle : Nat}
    (hthrottle : fork.throttleSecs = some throttle) : 0 < throttle := by
  unfold Disk.forkAt at hfork
  rw [hparser] at hfork
  split at hfork
  next => cases hfork
  next =>
    split at hfork
    next parsed hparsed =>
      rw [← Option.some.inj hfork] at hthrottle
      exact throttle_pos_of_parsed hparsed hthrottle
    next => cases hfork

/-- In every run with selection and issuance as one step, whatever the
clock does between steps: a fork issued again, under a definition with a
throttle, is issued as long after its last issuance as the throttle
says. -/
theorem throttled_apart {disk : Disk} {serde : SerdeYaml} {as : List Act}
    {k : Nat} {tick : Tick} {session : SessionRow}
    {selected : List SelectedFork}
    {x : SelectedFork} {entry : RosterEntry} {fork : ForkDef}
    {throttle : Nat} {t t₁ : Int}
    (hC : Along World.step (fun w act => currentStamp a w act
      ∧ act.readable = true) (World.init disk) (as ++ [.move k tick]))
    (hab : (World.after disk as).about k
      = some (.write (.stamp session selected t)))
    (ha : session.sessionId = a) (hx : x ∈ selected)
    (hentry : entry ∈ (World.after disk as).daemon.store.rosterOf a)
    (hname : entry.forkName = x.name)
    (hparser : (World.after disk as).daemon.disk.parseForkFile
      = parseForkFile serde)
    (hfork : (World.after disk as).daemon.disk.forkAt entry = some fork)
    (hthrottle : fork.throttleSecs = some throttle)
    (hlt : throttle < 9223372036854775808)
    (hlast : LastIssued a x.name t₁ (World.after disk as).daemon.log) :
    t₁ + throttle ≤ t := by
  have hpos := throttle_pos_of_forkAt hparser hfork hthrottle
  obtain ⟨hC, hnext, -⟩ := (along_append _ _ _).1 hC
  obtain ⟨hread₁, r, hr, hkey, hran⟩ :=
    hC.invariant (P := fun w : World => RanMatch a w.daemon.store w.daemon.log)
      ranMatch_step (fun f t h => (since_iff.2 h).elim) x.name t₁ hlast
  obtain ⟨rfl, cfg, moments, hsel⟩ := hnext.1.selected hab ha
  have hread : Readable tick.now := by
    simpa [Act.readable, Act.reading] using hnext.2
  -- the entry it was selected from is the row that remembers
  rw [hsel] at hx
  obtain ⟨entry', hentry', hkey', hselect⟩ := selectFrom_entry hx
  rw [Store.rosterOf, Table.mem_orderBy, beq_iff_eq] at hentry
  have hkey₀ : entry.key = (a, x.name) := by
    rw [RosterEntry.key, hentry.2, hname]
  have hsame : entry' = entry :=
    Table.eq_of_key_eq _ hentry' hentry.1 (by rw [hkey', hkey₀, ha])
  have hrow : r = entry :=
    Table.eq_of_key_eq _ hr hentry.1 (hkey.trans hkey₀.symm)
  subst hsame hrow
  -- it was past its throttle
  have hrested := ((selectEntry_eq_some_iff hfork).1 hselect).1.rested
  unfold forkThrottled at hrested
  rw [hthrottle, hran] at hrested
  simp only [decide_eq_false_iff_not, not_lt] at hrested
  rw [asI64_of_lt hlt, hread.wrap_sub hread₁] at hrested
  omega

-- ------------------------------------------------------- two pauses

/-- YAML that reads as the frontmatter of a fork due after a minute of
idling, with a throttle of half a minute. -/
private def restingYaml : SerdeYaml where
  value _ := none
  rawFork _ := some
    { fork := some (.bool true)
      runOn := some [.mapping [(.string "idle", .string "1m")]]
      throttle := some (.string "30s") }

/-- One file with that frontmatter. -/
private def resting : Disk :=
  { Disk.holding
      [("f", { runOn := [.idle (some 60)], throttleSecs := some 30 })]
      { wakeDebounceSecs := 0 } none with
    readToString := fun _ => some "---\nfork: true\n---\n"
    parseForkFile := parseForkFile restingYaml }

/-- The fork issued a minute after a Stop at 100, then a genuine prompt
and a Stop at 300, up to where its next issuance is stamped. -/
private def twoPauses : List Act :=
  .stop "s" :: Act.moves 13 0 100 ++ Act.moves 20 0 160
    ++ .prompt "s" :: Act.moves 6 1 300
    ++ .stop "s" :: Act.moves 13 2 300 ++ Act.moves 16 2 360

/-- Issued at 160 and again at 360. -/
theorem throttled_apart_in_turn :
    ∃ p ∈ stampOf (World.after resting twoPauses) 2,
      (160 : Int) + (30 : Nat) ≤ p.2.2 := by
  have hstamp : ∃ p ∈ stampOf (World.after resting twoPauses) 2,
      p.1.sessionId = "s" ∧ ∃ x ∈ p.2.1,
        ∃ entry ∈ (World.after resting twoPauses).daemon.store.rosterOf "s",
        entry.forkName = x.name ∧ ∃ fork ∈ (World.after resting
          twoPauses).daemon.disk.forkAt entry,
          fork.throttleSecs = some 30
        ∧ LastIssued "s" x.name 160
          (World.after resting twoPauses).daemon.log := by
    decide +kernel
  obtain ⟨⟨session, selected, t⟩, hp, ha, x, hx, entry, hentry, hname,
    fork, hfork, hthrottle, hlast⟩ := hstamp
  have hcurrent : Along World.step (fun w act => stampsFrom
        { wakeDebounceSecs := 0 } [.idle 60] w act = true
        ∧ act.readable = true) (World.init resting)
      (twoPauses ++ [.move 2 { now := 360 }]) := by
    decide +kernel
  have hdisk : Along World.step
      (fun w _ => w.daemon.disk = (World.init resting).daemon.disk)
      (World.init resting) (twoPauses ++ [.move 2 { now := 360 }]) := by
    apply World.along_disk
    simp [twoPauses, Act.moves, Act.stop, Act.prompt]
  have hparser : (World.after resting twoPauses).daemon.disk.parseForkFile
      = parseForkFile restingYaml := by
    rw [((along_append _ _ _).1 hdisk).2.1]
    rfl
  exact ⟨_, hp, throttled_apart (hcurrent.mono fun _ _ hw =>
      ⟨currentStamp_of_stampsFrom hw.1 "s", hw.2⟩) (about_of_stampOf hp) ha hx
    hentry hname hparser hfork hthrottle (by decide) hlast⟩

end Autofork
