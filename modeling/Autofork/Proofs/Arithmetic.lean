/-
The scheduler's arithmetic, against the integers.

Durations are any `u64` a file can hold; the decisions cast them to
`i64`, and add, subtract and double without checks. With clock values
below 2⁴⁰ only the durations can go wrong, and each decision has its own
bound below which it is exact. Past its bound a decision is wrong except
where the wrapped value happens to fall on the same side
(`scheduling_exact_iff`).
-/
import Autofork.Daemon
import Autofork.Proofs.Tags

namespace Autofork

open Lib

-- ================================================================ waits

/-- How long a poll sleeps for the deadline `d`, at clock reading `t`. -/
def waitSecs (baseline : Int) (d : Nat) (t : Int) : Nat :=
  (max (wrapI64 (wrapI64 (baseline + asI64 d) - t)) 0).toNat

/-- A poll that serves a deadline reads the clock and sleeps so long. -/
theorem serveDeadlines_waits (w : Watch) (d : Nat) (rest : List Nat) :
    ∃ k : Int → Branch → Handler ResponseBody,
      serveDeadlines w (d :: rest) = .call .now fun t =>
        .call (.select (some (waitSecs w.baseline d t))) (k t) :=
  ⟨_, rfl⟩

-- ============================================================ decisions

/-- A clock value: a time within some 34,000 years of the epoch. -/
def Clock (t : Int) : Prop := 0 ≤ t ∧ t < 2 ^ 40

/-- What the scheduler decides on: a poll's deadlines, a fork with the
time it last ran, its tags against the runs of the project, and a
session. -/
structure Scheduling where
  now : Int
  baseline : Int
  deadlines : List Nat
  fork : ForkDef
  ranAt : Option Int
  daemon : Daemon
  projectRoot : Path
  tagThrottles : List (String × Nat)
  session : SessionRow
  now_clock : Clock now
  baseline_clock : Clock baseline
  deadlines_u64 : ∀ d ∈ deadlines, d ≤ u64Max
  throttle_u64 : ∀ throttle, fork.throttleSecs = some throttle → throttle ≤ u64Max
  ranAt_clock : ∀ t, ranAt = some t → Clock t
  started_clock : ∀ r ∈ daemon.store.runs, Clock r.startedAt
  windows_u64 : ∀ tag window, tagThrottles.lookup tag = some window →
    window ≤ u64Max
  lastActivity_clock : Clock session.lastActivity
  deadline_u64 : (daemon.disk.cfgFor (some session.projectRoot)).defaultIdleDeadlineSecs
    ≤ u64Max

namespace Scheduling

variable (s : Scheduling)

/-- The default deadline of the session's project. -/
def deadline : Nat :=
  (s.daemon.disk.cfgFor (some s.session.projectRoot)).defaultIdleDeadlineSecs

/-- A tag of the fork with a window, and when it was last issued. -/
def Windowed (tag : String) (window : Nat) (last : Int) : Prop :=
  tag ∈ s.fork.tags ∧ s.tagThrottles.lookup tag = some window
    ∧ s.daemon.store.lastRunForTags s.projectRoot [tag] = some last

/-- The decisions are those of unbounded integers. -/
structure Exact : Prop where
  elapsed : ∀ promptTokens maxTokens, ∀ d ∈ s.deadlines,
    .idle d ∈ elapsedMoments promptTokens maxTokens s.baseline s.deadlines s.now
      ↔ s.baseline + d ≤ s.now
  reached : ∀ d ∈ s.deadlines,
    s.baseline + d ≤ s.now + waitSecs s.baseline d s.now
  throttled : forkThrottled s.fork s.ranAt s.now = true
    ↔ ∃ throttle ranAt, s.fork.throttleSecs = some throttle
      ∧ s.ranAt = some ranAt ∧ max (s.now - ranAt) 0 < throttle
  tagThrottled : tagThrottled s.daemon.store s.projectRoot s.tagThrottles
      s.fork.tags s.now = true
    ↔ ∃ tag window last, s.Windowed tag window last
      ∧ max (s.now - last) 0 < window
  stale : isStale s.daemon s.session s.now = true →
    2 * (s.deadline : Int) < s.now - s.session.lastActivity

/-- The durations are small enough, or wrap to the same side. -/
structure Fits : Prop where
  elapsed : ∀ d ∈ s.deadlines,
    s.baseline + d < 2 ^ 63 ∨ 2 ^ 64 + s.now < s.baseline + d
  reached : ∀ d ∈ s.deadlines, s.baseline + d - s.now < 2 ^ 63
  throttled : ∀ throttle, s.fork.throttleSecs = some throttle →
    s.ranAt ≠ none → throttle < 2 ^ 63
  /-- A window too large does no harm where another tag throttles. -/
  tagThrottled : (∃ tag window last, s.Windowed tag window last
      ∧ 2 ^ 63 ≤ window) →
    ∃ tag window last, s.Windowed tag window last ∧ window < 2 ^ 63
      ∧ max (s.now - last) 0 < window
  stale : s.daemon.isParked s.session.sessionId = false → 2 ^ 62 ≤ s.deadline →
    s.now - s.session.lastActivity
      ≤ 2 * (s.deadline : Int) - (if s.deadline < 3 * 2 ^ 62 then 2 ^ 64 else 2 ^ 65)

-- ====================================================== one at a time

variable {s}

private theorem mem_elapsed_iff {promptTokens : Option Nat}
    {maxTokens d : Nat} {base upTo : Int} {deadlines : List Nat}
    (hd : d ∈ deadlines) :
    .idle d ∈ elapsedMoments promptTokens maxTokens base deadlines upTo
      ↔ wrapI64 (base + asI64 d) ≤ upTo := by
  unfold elapsedMoments
  rw [List.mem_append]
  constructor
  · rintro (h | h)
    · cases promptTokens with
      | none => cases h
      | some pt => cases List.mem_singleton.1 h
    · obtain ⟨e, he, heq⟩ := List.mem_map.1 h
      cases heq
      simpa using (List.mem_filter.1 he).2
  · exact fun h => Or.inr
      (List.mem_map_of_mem (List.mem_filter.2 ⟨hd, by simpa using h⟩))

private theorem elapsed_exact_iff {base now : Int} {d : Nat}
    (hbase : Clock base) (hnow : Clock now) (hd : d ≤ u64Max) :
    (wrapI64 (base + asI64 d) ≤ now ↔ base + d ≤ now)
      ↔ base + d < 2 ^ 63 ∨ 2 ^ 64 + now < base + d := by
  unfold Clock u64Max at *
  simp only [asI64, wrapI64, Int.bmod_def]
  omega

private theorem reached_exact_iff {base now : Int} {d : Nat}
    (hbase : Clock base) (hnow : Clock now) (hd : d ≤ u64Max) :
    base + d ≤ now + waitSecs base d now ↔ base + d - now < 2 ^ 63 := by
  unfold Clock u64Max at *
  simp only [waitSecs, asI64, wrapI64, Int.bmod_def]
  omega

/-- A throttle against the integers: past the `i64` range it is lost. -/
private theorem lt_asI64_iff {now ran : Int} {throttle : Nat}
    (hnow : Clock now) (hran : Clock ran) (hthrottle : throttle ≤ u64Max) :
    max (wrapI64 (now - ran)) 0 < asI64 throttle
      ↔ throttle < 2 ^ 63 ∧ max (now - ran) 0 < throttle := by
  unfold Clock u64Max at *
  simp only [asI64, wrapI64, Int.bmod_def]
  omega

private theorem lt_of_large {now ran : Int} {throttle : Nat}
    (hnow : Clock now) (hran : Clock ran) (h : 2 ^ 63 ≤ throttle) :
    max (now - ran) 0 < throttle := by
  unfold Clock at *
  omega

private theorem stale_exact_iff {now lastActivity : Int} {deadline : Nat}
    (hnow : Clock now) (hlast : Clock lastActivity) (hd : deadline ≤ u64Max) :
    (wrapI64 (2 * asI64 deadline) < wrapI64 (now - lastActivity) →
        2 * (deadline : Int) < now - lastActivity)
      ↔ (2 ^ 62 ≤ deadline → now - lastActivity
        ≤ 2 * (deadline : Int) - (if deadline < 3 * 2 ^ 62 then 2 ^ 64 else 2 ^ 65)) := by
  unfold Clock u64Max at *
  simp only [asI64, wrapI64, Int.bmod_def]
  omega

private theorem last_clock {tag : String} {window : Nat} {last : Int}
    (h : s.Windowed tag window last) : Clock last := by
  obtain ⟨⟨r, hr, -, rfl⟩, -⟩ := lastRunForTags_eq_some_iff.1 h.2.2
  exact s.started_clock r hr

private theorem throttled_exact_iff :
    (forkThrottled s.fork s.ranAt s.now = true
        ↔ ∃ throttle ranAt, s.fork.throttleSecs = some throttle
          ∧ s.ranAt = some ranAt ∧ max (s.now - ranAt) 0 < throttle)
      ↔ ∀ throttle, s.fork.throttleSecs = some throttle →
        s.ranAt ≠ none → throttle < 2 ^ 63 := by
  unfold forkThrottled
  cases hthrottle : s.fork.throttleSecs with
  | none => simp
  | some throttle =>
      cases hran : s.ranAt with
      | none => simp
      | some ran =>
          have hu64 := s.throttle_u64 throttle hthrottle
          have hclock := s.ranAt_clock ran hran
          have hiff := lt_asI64_iff s.now_clock hclock hu64
          have hlarge : 2 ^ 63 ≤ throttle →
              max (s.now - ran) 0 < throttle :=
            lt_of_large s.now_clock hclock
          rw [decide_eq_true_eq, hiff]
          constructor
          · rintro h _ ⟨⟩ -
            by_contra hge
            exact hge (h.2 ⟨throttle, ran, rfl, rfl, hlarge (by omega)⟩).1
          · intro h
            have hlt := h throttle rfl (by simp)
            constructor
            · exact fun h => ⟨throttle, ran, rfl, rfl, h.2⟩
            · rintro ⟨_, _, ⟨⟩, ⟨⟩, h⟩
              exact ⟨hlt, h⟩

private theorem tagThrottled_iff :
    Autofork.tagThrottled s.daemon.store s.projectRoot s.tagThrottles
        s.fork.tags s.now = true
      ↔ ∃ tag window last, s.Windowed tag window last ∧ window < 2 ^ 63
        ∧ max (s.now - last) 0 < window := by
  unfold Autofork.tagThrottled Windowed
  rw [List.any_eq_true]
  constructor
  · rintro ⟨tag, htag, h⟩
    cases hwindow : s.tagThrottles.lookup tag with
    | none => simp [hwindow] at h
    | some window =>
        simp only [hwindow, Option.any_eq_true, decide_eq_true_eq] at h
        obtain ⟨last, hlast, hlt⟩ := h
        refine ⟨tag, window, last, ⟨htag, hwindow, hlast⟩, ?_⟩
        exact (lt_asI64_iff s.now_clock (last_clock ⟨htag, hwindow, hlast⟩)
          (s.windows_u64 tag window hwindow)).1 hlt
  · rintro ⟨tag, window, last, ⟨htag, hwindow, hlast⟩, hlt⟩
    refine ⟨tag, htag, ?_⟩
    simp only [hwindow, Option.any_eq_true, decide_eq_true_eq]
    exact ⟨last, hlast, (lt_asI64_iff s.now_clock
      (last_clock ⟨htag, hwindow, hlast⟩)
      (s.windows_u64 tag window hwindow)).2 hlt⟩

private theorem tagThrottled_exact_iff :
    (Autofork.tagThrottled s.daemon.store s.projectRoot s.tagThrottles
          s.fork.tags s.now = true
        ↔ ∃ tag window last, s.Windowed tag window last
          ∧ max (s.now - last) 0 < window)
      ↔ ((∃ tag window last, s.Windowed tag window last ∧ 2 ^ 63 ≤ window) →
        ∃ tag window last, s.Windowed tag window last ∧ window < 2 ^ 63
          ∧ max (s.now - last) 0 < window) := by
  rw [tagThrottled_iff]
  constructor
  · rintro hexact ⟨tag, window, last, hw, hlarge⟩
    exact hexact.2 ⟨tag, window, last, hw,
      lt_of_large s.now_clock (last_clock hw) hlarge⟩
  · intro hmasked
    constructor
    · rintro ⟨tag, window, last, hw, -, hlt⟩
      exact ⟨tag, window, last, hw, hlt⟩
    · rintro ⟨tag, window, last, hw, hlt⟩
      by_cases hsmall : window < 2 ^ 63
      · exact ⟨tag, window, last, hw, hsmall, hlt⟩
      · exact hmasked ⟨tag, window, last, hw, by omega⟩

private theorem isStale_exact_iff :
    (isStale s.daemon s.session s.now = true →
        2 * (s.deadline : Int) < s.now - s.session.lastActivity)
      ↔ (s.daemon.isParked s.session.sessionId = false → 2 ^ 62 ≤ s.deadline →
        s.now - s.session.lastActivity ≤ 2 * (s.deadline : Int)
          - (if s.deadline < 3 * 2 ^ 62 then 2 ^ 64 else 2 ^ 65)) := by
  have hiff := stale_exact_iff s.now_clock s.lastActivity_clock s.deadline_u64
  unfold isStale deadline
  simp only [Bool.and_eq_true, Bool.not_eq_true', decide_eq_true_eq, and_imp]
  constructor
  · intro h hparked hlarge
    exact hiff.1 (fun hlt => h hparked (by omega) hlt) hlarge
  · intro h hparked hpos hlt
    exact hiff.2 (fun hlarge => h hparked hlarge) hlt

variable (s)

/-- The scheduler's decisions are exact when the durations fit, and only
then. -/
theorem scheduling_exact_iff : s.Exact ↔ s.Fits := by
  constructor
  · intro h
    exact
      { elapsed := fun d hd =>
          (elapsed_exact_iff s.baseline_clock s.now_clock
            (s.deadlines_u64 d hd)).1
            ((mem_elapsed_iff hd).symm.trans (h.elapsed none 0 d hd))
        reached := fun d hd =>
          (reached_exact_iff s.baseline_clock s.now_clock
            (s.deadlines_u64 d hd)).1 (h.reached d hd)
        throttled := throttled_exact_iff.1 h.throttled
        tagThrottled := tagThrottled_exact_iff.1 h.tagThrottled
        stale := isStale_exact_iff.1 h.stale }
  · intro h
    exact
      { elapsed := fun promptTokens maxTokens d hd =>
          (mem_elapsed_iff hd).trans
            ((elapsed_exact_iff s.baseline_clock s.now_clock
              (s.deadlines_u64 d hd)).2 (h.elapsed d hd))
        reached := fun d hd =>
          (reached_exact_iff s.baseline_clock s.now_clock
            (s.deadlines_u64 d hd)).2 (h.reached d hd)
        throttled := throttled_exact_iff.2 h.throttled
        tagThrottled := tagThrottled_exact_iff.2 h.tagThrottled
        stale := isStale_exact_iff.2 h.stale }

/-- A deadline of 2⁶³ seconds, on the instant the pause begins. -/
private def longest : Scheduling where
  now := 1000
  baseline := 1000
  deadlines := [2 ^ 63]
  fork := {}
  ranAt := none
  daemon := { disk := Disk.holding [] {} none }
  projectRoot := "/p"
  tagThrottles := []
  session :=
    { sessionId := "s"
      projectRoot := "/p"
      cwd := "/p"
      transcriptPath := none
      status := .open
      lastActivity := 1000
      transcriptOffset := 0
      promptTokens := none
      model := none
      createdAt := 1000
      enableTags := none
      disableTags := none
      pauseEpoch := 0
      pauseStartedAt := some 1000 }
  now_clock := by unfold Clock; decide
  baseline_clock := by unfold Clock; decide
  deadlines_u64 := by decide
  throttle_u64 := by simp
  ranAt_clock := by simp
  started_clock := by simp [Store.openInMemory]
  windows_u64 := by simp
  lastActivity_clock := by unfold Clock; decide
  deadline_u64 := by decide

/-- The longest deadline has elapsed at once. -/
theorem scheduling_wraps :
    longest.deadlines = [9223372036854775808]
      ∧ elapsedMoments none 200000 longest.baseline longest.deadlines
        longest.now = [.idle 9223372036854775808]
      ∧ ¬longest.Exact := by
  have helapsed : elapsedMoments none 200000 longest.baseline longest.deadlines
      longest.now = [.idle 9223372036854775808] := by decide
  refine ⟨rfl, helapsed, fun h => ?_⟩
  have hpast := (h.elapsed none 200000 (2 ^ 63) (by decide)).1 (by
    rw [helapsed]
    decide)
  revert hpast
  decide

end Scheduling
end Autofork
