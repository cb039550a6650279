/-
Context thresholds, against the window resolved for the same gauge.

`context_used` compares two products, and each saturates by itself. A
gauge is never over the window it is judged against
(`resolveContextWindow_bounds`), and the products can only saturate past the
largest tier, where gauge and window are one number: saturation never
changes an answer (`satMul_le_satMul_iff`).
-/
import Mathlib.Algebra.Order.Field.Basic
import Mathlib.Data.List.Find
import Mathlib.Data.Rat.Cast.Order
import Mathlib.Tactic.NormNum
import Autofork.Moments

namespace Autofork

open Lib

-- ============================================================= window

/-- A window is a tier, unless the gauge passed it: then it is the
largest tier, or the gauge. -/
theorem resolveContextWindow_eq (model : Option String) (pt : Nat) :
    ∃ tier, (tier = defaultContextWindow ∨ tier = contextWindow1m)
      ∧ resolveContextWindow model (some pt)
        = if pt > tier then max contextWindow1m pt else tier := by
  cases model with
  | none => exact ⟨_, Or.inl rfl, rfl⟩
  | some m =>
      by_cases hm : (contains m "[1m]" || contains m "fable"
          || contains m "mythos") = true
      · exact ⟨_, Or.inr rfl, by simp only [resolveContextWindow, if_pos hm]⟩
      · exact ⟨_, Or.inl rfl, by simp only [resolveContextWindow, if_neg hm]⟩

/-- The gauge is within the window, which is never empty, and which only
the gauge itself makes larger than the largest tier. -/
theorem resolveContextWindow_bounds (model : Option String) (pt : Nat) :
    pt ≤ resolveContextWindow model (some pt)
      ∧ 0 < resolveContextWindow model (some pt)
      ∧ resolveContextWindow model (some pt) ≤ max contextWindow1m pt := by
  obtain ⟨tier, htier, hwindow⟩ := resolveContextWindow_eq model pt
  unfold contextWindow1m defaultContextWindow at *
  rw [hwindow]
  split
  · omega
  · omega

-- ========================================================= saturation

/-- Saturation keeps the order of products that fit, and of a number's
own multiples. -/
theorem satMul_le_satMul_iff {pt window p : Nat} (hp : p ≤ 100)
    (hle : pt ≤ window) (hmax : window ≤ max contextWindow1m pt) :
    satMul window p ≤ satMul pt 100 ↔ window * p ≤ pt * 100 := by
  unfold satMul u64Max
  unfold contextWindow1m at hmax
  by_cases htier : pt ≤ 1000000
  · -- neither product comes near the limit
    have hwin : window * p ≤ 1000000 * 100 :=
      Nat.mul_le_mul (by omega) hp
    omega
  · -- the window is the gauge
    obtain rfl : window = pt := by omega
    have hmul : window * p ≤ window * 100 := Nat.mul_le_mul_left _ hp
    omega

-- ========================================================= thresholds

/-- What a context trigger asks of a gauge and a window, in exact
arithmetic. -/
def Reached (promptTokens window : Nat) : ForkRunOn → Prop
  | .contextTokens n => n ≤ promptTokens
  | .contextUsedPct p => (p : ℚ) / 100 ≤ (promptTokens : ℚ) / window
  | .contextLeft n => (window : ℤ) - promptTokens ≤ n
  | _ => False

instance (promptTokens window : Nat) : DecidablePred (Reached promptTokens window)
  | .contextTokens n => inferInstanceAs (Decidable (n ≤ promptTokens))
  | .contextUsedPct p =>
      inferInstanceAs (Decidable ((p : ℚ) / 100 ≤ (promptTokens : ℚ) / window))
  | .contextLeft n =>
      inferInstanceAs (Decidable ((window : ℤ) - promptTokens ≤ n))
  | .idle _ | .compact | .sessionStart | .sessionEnd | .manualStop | .boot =>
      inferInstanceAs (Decidable False)

/-- The share used reaches a percentage when the products compare so. -/
theorem reached_usedPct_iff {pt window p : Nat} (hpos : 0 < window) :
    Reached pt window (.contextUsedPct p) ↔ window * p ≤ pt * 100 := by
  have hq : (0 : ℚ) < window := by exact_mod_cast hpos
  show (p : ℚ) / 100 ≤ (pt : ℚ) / window ↔ _
  rw [div_le_div_iff₀ (by norm_num) hq, mul_comm (p : ℚ)]
  exact_mod_cast Iff.rfl

section
variable (model : Option String) (pt defaultIdleSecs : Nat) {window : Nat}
  (hwindow : window = resolveContextWindow model (some pt))
include hwindow

/-- A context moment hits exactly the triggers it has reached. -/
theorem hits_context_iff {t : ForkRunOn}
    (ht : ∀ p, t = .contextUsedPct p → p ≤ 100) :
    (ForkMoment.context pt (some window)).hits defaultIdleSecs t = true
      ↔ Reached pt window t := by
  obtain ⟨hle, hpos, hmax⟩ := resolveContextWindow_bounds model pt
  rw [← hwindow] at hle hpos hmax
  cases t with
  | contextTokens n => simp [ForkMoment.hits, Reached]
  | contextUsedPct p =>
      rw [reached_usedPct_iff hpos, ← satMul_le_satMul_iff (ht p rfl) hle hmax]
      simp [ForkMoment.hits]
  | contextLeft n =>
      simp only [ForkMoment.hits, Option.any_some, decide_eq_true_eq, Reached]
      omega
  | _ => simp [ForkMoment.hits, Reached]

/-- One moment is matched by the first trigger it has reached. -/
theorem matchMoments_context {fork : ForkDef}
    (hfork : ∀ p, .contextUsedPct p ∈ fork.runOn → p ≤ 100) :
    matchMoments fork [.context pt (some window)] defaultIdleSecs
      = fork.runOn.find? fun t => Reached pt window t := by
  have hfind : fork.runOn.find?
        ((ForkMoment.context pt (some window)).hits defaultIdleSecs)
      = fork.runOn.find? fun t => Reached pt window t := by
    refine List.find?_congr fun t ht => ?_
    rw [Bool.eq_iff_iff, decide_eq_true_eq]
    exact hits_context_iff model pt defaultIdleSecs hwindow fun p hp =>
      hfork p (hp ▸ ht)
  unfold matchMoments
  rw [List.findSome?_cons, List.findSome?_nil, hfind]
  cases fork.runOn.find? fun t => decide (Reached pt window t) with
  | none => rfl
  | some t => rfl

/-- A fork with one trigger is matched when the trigger is reached. -/
theorem matchMoments_context_single (fork : ForkDef) {t : ForkRunOn}
    (ht : ∀ p, t = .contextUsedPct p → p ≤ 100) :
    matchMoments { fork with runOn := [t] } [.context pt (some window)]
        defaultIdleSecs = some t
      ↔ Reached pt window t := by
  rw [matchMoments_context model pt defaultIdleSecs hwindow fun p hp =>
    ht p (List.mem_singleton.1 hp).symm]
  by_cases h : Reached pt window t
  · simp [h]
  · simp [h]

end

/-- Matching at a gauge is exact: against the window resolved for it, a
fork is matched by its first trigger reached in exact arithmetic, and a
percentage once reached has every smaller one reached. -/
theorem context_thresholds_exact (model : Option String)
    (pt defaultIdleSecs : Nat) {window : Nat}
    (hwindow : window = resolveContextWindow model (some pt))
    (fork : ForkDef)
    (hfork : ∀ p, .contextUsedPct p ∈ fork.runOn → 1 ≤ p ∧ p ≤ 100) :
    pt ≤ window
      ∧ matchMoments fork [.context pt (some window)] defaultIdleSecs
        = (fork.runOn.find? fun t => Reached pt window t)
      ∧ (∀ p, 1 ≤ p → p ≤ 100 →
        (matchMoments { fork with runOn := [.contextUsedPct p] }
            [.context pt (some window)] defaultIdleSecs
              = some (.contextUsedPct p)
          ↔ (p : ℚ) / 100 ≤ (pt : ℚ) / window))
      ∧ (∀ n, matchMoments { fork with runOn := [.contextLeft n] }
            [.context pt (some window)] defaultIdleSecs
              = some (.contextLeft n)
          ↔ (window : ℤ) - pt ≤ n)
      ∧ (∀ n, matchMoments { fork with runOn := [.contextTokens n] }
            [.context pt (some window)] defaultIdleSecs
              = some (.contextTokens n)
          ↔ n ≤ pt)
      ∧ (∀ p ≤ 100, satMul window p ≤ satMul pt 100
          ↔ window * p ≤ pt * 100)
      ∧ ∀ p q, 1 ≤ q → q ≤ p → p ≤ 100 →
        matchMoments { fork with runOn := [.contextUsedPct p] }
            [.context pt (some window)] defaultIdleSecs
              = some (.contextUsedPct p) →
        matchMoments { fork with runOn := [.contextUsedPct q] }
            [.context pt (some window)] defaultIdleSecs
              = some (.contextUsedPct q) := by
  obtain ⟨hle, hpos, hmax⟩ := resolveContextWindow_bounds model pt
  rw [← hwindow] at hle hpos hmax
  have hpct : ∀ p ≤ 100,
      matchMoments { fork with runOn := [.contextUsedPct p] }
          [.context pt (some window)] defaultIdleSecs = some (.contextUsedPct p)
        ↔ Reached pt window (.contextUsedPct p) := fun p hp =>
    matchMoments_context_single model pt defaultIdleSecs hwindow fork
      fun p' hp' => by cases hp'; exact hp
  refine ⟨hle, ?_, fun p _ hp => hpct p hp, fun n => ?_, fun n => ?_,
    fun p hp => satMul_le_satMul_iff hp hle hmax, ?_⟩
  · exact matchMoments_context model pt defaultIdleSecs hwindow
      fun p hp => (hfork p hp).2
  · exact matchMoments_context_single model pt defaultIdleSecs hwindow fork
      (t := .contextLeft n) (by simp)
  · exact matchMoments_context_single model pt defaultIdleSecs hwindow fork
      (t := .contextTokens n) (by simp)
  · intro p q _ hqp hp h
    rw [hpct p hp, reached_usedPct_iff hpos] at h
    rw [hpct q (by omega), reached_usedPct_iff hpos]
    exact Nat.le_trans (Nat.mul_le_mul_left window hqp) h

/-- A gauge past both tiers is its own window, and every percentage is
reached, though both products saturate. -/
theorem context_thresholds_exact_saturated :
    matchMoments { runOn := [.contextUsedPct 100] }
        [.context u64Max (some u64Max)] 600 = some (.contextUsedPct 100)
      ∧ satMul u64Max 100 = u64Max :=
  have hwindow : u64Max = resolveContextWindow none (some u64Max) := by decide
  have h := context_thresholds_exact none u64Max 600 hwindow
    { runOn := [.contextUsedPct 100] } (by simp)
  ⟨(h.2.2.1 100 (by omega) (by omega)).2 (by norm_num [u64Max]), by decide⟩

end Autofork
