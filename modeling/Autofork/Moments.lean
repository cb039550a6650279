/-
Fork moments and trigger matching: the context window a session is
judged against, the moments that have elapsed, the trigger a fork is
matched by, and the idle deadlines a set of forks needs served.

`matchMoments` walks moments outer, triggers inner, and stops at the
first hit; `FirstMatch` says that in terms of the two lists alone.
-/
import Mathlib.Data.List.Nodup
import Mathlib.Data.List.Sort
import Autofork.Frontmatter
import Autofork.Lib.Machine
import Autofork.Lib.Text

namespace Autofork

open Lib

/-- The window assumed when the model's real one is unknown. -/
def defaultContextWindow : Nat := 200000

/-- The window of models marked `[1m]`. -/
def contextWindow1m : Nat := 1000000

/-- The context window of a session, from its model id and its gauge:
a gauge over the assumed window bumps it. -/
def resolveContextWindow (model : Option String)
    (promptTokens : Option Nat) : Nat :=
  let window := match model with
    | some m =>
        if contains m "[1m]" || contains m "fable" || contains m "mythos" then
          contextWindow1m
        else defaultContextWindow
    | none => defaultContextWindow
  match promptTokens with
  | some pt => if pt > window then max contextWindow1m pt else window
  | none => window

/-- An event at which rostered forks may fire. -/
inductive ForkMoment
  /-- The session has been idle for exactly this deadline. -/
  | idle (deadlineSecs : Nat)
  /-- The end-of-turn gauge, and the window if known. -/
  | context (promptTokens : Nat) (maxTokens : Option Nat)
  deriving DecidableEq, Repr

/-- Whether a moment hits a trigger; an idle trigger without a deadline
of its own takes the default. -/
def ForkMoment.hits (defaultIdleSecs : Nat) : ForkMoment → ForkRunOn → Bool
  | .idle deadlineSecs, .idle afterSecs =>
      let effective := afterSecs.getD defaultIdleSecs
      effective > 0 && effective == deadlineSecs
  | .context promptTokens _, .contextTokens n => promptTokens ≥ n
  | .context promptTokens maxTokens, .contextUsedPct p =>
      maxTokens.any fun max => satMul promptTokens 100 ≥ satMul max p
  | .context promptTokens maxTokens, .contextLeft n =>
      maxTokens.any fun max => max - promptTokens ≤ n
  | _, _ => false

/-- The first trigger of `fork` matched by any of `moments`. -/
def matchMoments (fork : ForkDef) (moments : List ForkMoment)
    (defaultIdleSecs : Nat) : Option ForkRunOn :=
  moments.findSome? fun moment => fork.runOn.find? (moment.hits defaultIdleSecs)

/-- One trigger's turn in `idleDeadlines`. -/
def pushDeadline (defaultIdleSecs : Nat) (out : List Nat) :
    ForkRunOn → List Nat
  | .idle afterSecs =>
      let d := afterSecs.getD defaultIdleSecs
      if d > 0 && !out.contains d then out ++ [d] else out
  | _ => out

/-- The distinct idle deadlines the forks need served, ascending. -/
def idleDeadlines (forks : List ForkDef) (defaultIdleSecs : Nat) :
    List Nat :=
  (forks.foldl (fun out fork => fork.runOn.foldl (pushDeadline defaultIdleSecs) out)
    []).insertionSort (· ≤ ·)

/-- Every moment that has elapsed by `upTo`: the gauge, when known, and
each deadline whose fire time has passed. -/
def elapsedMoments (promptTokens : Option Nat) (maxTokens : Nat)
    (base : Int) (deadlines : List Nat) (upTo : Int) : List ForkMoment :=
  (match promptTokens with
    | some pt => [.context pt (some maxTokens)]
    | none => [])
  ++ (deadlines.filter fun d => wrapI64 (base + asI64 d) ≤ upTo).map .idle

-- ======================================================== the first match

/-- `t` is hit by the first moment that hits any trigger of the list,
and is the first trigger it hits. -/
def FirstMatch (runOn : List ForkRunOn) (moments : List ForkMoment)
    (defaultIdleSecs : Nat) (t : ForkRunOn) : Prop :=
  ∃ ms₁ m ms₂, moments = ms₁ ++ m :: ms₂
    ∧ (∀ m' ∈ ms₁, ∀ t' ∈ runOn, m'.hits defaultIdleSecs t' = false)
    ∧ ∃ ts₁ ts₂, runOn = ts₁ ++ t :: ts₂
      ∧ (∀ t' ∈ ts₁, m.hits defaultIdleSecs t' = false)
      ∧ m.hits defaultIdleSecs t = true

/-- Some moment of the list hits the trigger. -/
def Due (moments : List ForkMoment) (defaultIdleSecs : Nat)
    (t : ForkRunOn) : Prop :=
  ∃ m ∈ moments, m.hits defaultIdleSecs t = true

/-- `matchMoments` returns the first match. -/
theorem matchMoments_eq_some_iff {fork : ForkDef}
    {moments : List ForkMoment} {defaultIdleSecs : Nat} {t : ForkRunOn} :
    matchMoments fork moments defaultIdleSecs = some t
      ↔ FirstMatch fork.runOn moments defaultIdleSecs t := by
  unfold matchMoments FirstMatch
  rw [List.findSome?_eq_some_iff]
  constructor
  · rintro ⟨ms₁, m, ms₂, hms, hfind, hpre⟩
    obtain ⟨hhit, ts₁, ts₂, hts, hno⟩ := List.find?_eq_some_iff_append.1 hfind
    refine ⟨ms₁, m, ms₂, hms, fun m' hm' t' ht' => ?_, ts₁, ts₂, hts,
      fun t' ht' => by simpa using hno t' ht', hhit⟩
    simpa using List.find?_eq_none.1 (hpre m' hm') t' ht'
  · rintro ⟨ms₁, m, ms₂, hms, hpre, ts₁, ts₂, hts, hno, hhit⟩
    refine ⟨ms₁, m, ms₂, hms, ?_, fun m' hm' => ?_⟩
    · exact List.find?_eq_some_iff_append.2
        ⟨hhit, ts₁, ts₂, hts, fun t' ht' => by simpa using hno t' ht'⟩
    · exact List.find?_eq_none.2 fun t' ht' => by
        simpa using hpre m' hm' t' ht'

/-- Some trigger is due exactly when there is a first match. -/
theorem exists_due_iff {fork : ForkDef} {moments : List ForkMoment}
    {defaultIdleSecs : Nat} :
    (∃ t ∈ fork.runOn, Due moments defaultIdleSecs t)
      ↔ (matchMoments fork moments defaultIdleSecs).isSome := by
  unfold matchMoments Due
  rw [List.findSome?_isSome_iff]
  constructor
  · rintro ⟨t, ht, m, hm, hhit⟩
    exact ⟨m, hm, List.find?_isSome.2 ⟨t, ht, hhit⟩⟩
  · rintro ⟨m, hm, h⟩
    obtain ⟨t, ht, hhit⟩ := List.find?_isSome.1 h
    exact ⟨t, ht, m, hm, hhit⟩

/-- The first match is a trigger of the fork, and is due. -/
theorem FirstMatch.due {runOn : List ForkRunOn} {moments : List ForkMoment}
    {defaultIdleSecs : Nat} {t : ForkRunOn}
    (h : FirstMatch runOn moments defaultIdleSecs t) :
    t ∈ runOn ∧ Due moments defaultIdleSecs t := by
  obtain ⟨ms₁, m, ms₂, rfl, -, ts₁, ts₂, rfl, -, hhit⟩ := h
  exact ⟨by simp, m, by simp, hhit⟩

-- ================================================== what has elapsed

/-- A trigger that is due is one of the supported forms. -/
theorem Due.supported {moments : List ForkMoment} {defaultIdleSecs : Nat}
    {t : ForkRunOn} (h : Due moments defaultIdleSecs t) :
    (∃ a, t = .idle a) ∨ (∃ n, t = .contextTokens n)
      ∨ (∃ p, t = .contextUsedPct p) ∨ ∃ n, t = .contextLeft n := by
  obtain ⟨m, -, hhit⟩ := h
  cases t <;> cases m <;> simp_all [ForkMoment.hits]

/-- An idle trigger is due over the elapsed moments only if its effective
deadline is one of those served, and has passed since the baseline. -/
theorem elapsed_idle_due {promptTokens : Option Nat} {maxTokens : Nat}
    {base upTo : Int} {deadlines : List Nat} {defaultIdleSecs : Nat}
    {a : Option Nat}
    (h : Due (elapsedMoments promptTokens maxTokens base deadlines upTo)
      defaultIdleSecs (.idle a)) :
    a.getD defaultIdleSecs ∈ deadlines
      ∧ wrapI64 (base + asI64 (a.getD defaultIdleSecs)) ≤ upTo := by
  obtain ⟨m, hm, hhit⟩ := h
  rcases List.mem_append.1 hm with hm | hm
  · cases promptTokens with
    | none => simp at hm
    | some pt =>
        rw [List.mem_singleton.1 hm] at hhit
        simp [ForkMoment.hits] at hhit
  · obtain ⟨d, hd, rfl⟩ := List.mem_map.1 hm
    simp only [ForkMoment.hits, Bool.and_eq_true, beq_iff_eq] at hhit
    rw [hhit.2]
    simpa using List.mem_filter.1 hd

-- ================================================ deadlines collected

private theorem pushDeadline_idle (defaultIdleSecs : Nat) (out : List Nat)
    (a : Option Nat) :
    pushDeadline defaultIdleSecs out (.idle a)
      = if 0 < a.getD defaultIdleSecs ∧ a.getD defaultIdleSecs ∉ out then
          out ++ [a.getD defaultIdleSecs]
        else out := by
  simp [pushDeadline]

/-- Collecting adds the positive deadline of each idle trigger. -/
private theorem mem_foldl_pushDeadline {defaultIdleSecs d : Nat}
    (runOn : List ForkRunOn) (out : List Nat) :
    d ∈ runOn.foldl (pushDeadline defaultIdleSecs) out
      ↔ d ∈ out
        ∨ 0 < d ∧ ∃ a, .idle a ∈ runOn ∧ a.getD defaultIdleSecs = d := by
  induction runOn generalizing out with
  | nil => simp
  | cons trigger runOn ih =>
      have hpush : d ∈ pushDeadline defaultIdleSecs out trigger
          ↔ d ∈ out ∨ 0 < d ∧ ∃ a, trigger = .idle a
            ∧ a.getD defaultIdleSecs = d := by
        cases trigger with
        | idle a =>
            rw [pushDeadline_idle]
            split
            · rw [List.mem_append, List.mem_singleton]
              grind
            · grind
        | _ => simp [pushDeadline]
      rw [List.foldl_cons, ih, hpush]
      simp only [List.mem_cons, eq_comm (a := trigger)]
      grind

/-- Each once. -/
private theorem nodup_foldl_pushDeadline (defaultIdleSecs : Nat)
    (runOn : List ForkRunOn) {out : List Nat} (hout : out.Nodup) :
    (runOn.foldl (pushDeadline defaultIdleSecs) out).Nodup := by
  induction runOn generalizing out with
  | nil => exact hout
  | cons trigger runOn ih =>
      refine ih ?_
      cases trigger with
      | idle a =>
          rw [pushDeadline_idle]
          split
          next h =>
            rw [← List.concat_eq_append]
            exact hout.concat h.2
          next => exact hout
      | _ => exact hout

/-- The deadlines to serve are the positive ones of the idle triggers. -/
theorem mem_idleDeadlines_iff {forks : List ForkDef}
    {defaultIdleSecs d : Nat} :
    d ∈ idleDeadlines forks defaultIdleSecs
      ↔ 0 < d ∧ ∃ fork ∈ forks, ∃ a, .idle a ∈ fork.runOn
        ∧ a.getD defaultIdleSecs = d := by
  rw [idleDeadlines, List.mem_insertionSort, ← List.foldl_flatMap,
    mem_foldl_pushDeadline]
  simp only [List.not_mem_nil, false_or, List.mem_flatMap]
  grind

/-- They are distinct, and ascending. -/
theorem idleDeadlines_pairwise (forks : List ForkDef)
    (defaultIdleSecs : Nat) :
    (idleDeadlines forks defaultIdleSecs).Pairwise (· < ·) := by
  rw [idleDeadlines, ← List.foldl_flatMap]
  have hnodup : (((forks.flatMap ForkDef.runOn).foldl
      (pushDeadline defaultIdleSecs) []).insertionSort (· ≤ ·)).Nodup :=
    (List.perm_insertionSort (· ≤ ·) _).nodup_iff.2
      (nodup_foldl_pushDeadline defaultIdleSecs _ List.nodup_nil)
  exact (List.pairwise_insertionSort (· ≤ ·) _).imp₂
    (fun a b hle hne => Nat.lt_of_le_of_ne hle hne) hnodup
end Autofork
