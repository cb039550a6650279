/-
Idle forks come due exactly when their deadlines have passed.

Three functions have to agree: the deadlines are collected over all
forks, the elapsed ones are kept, and a fork is matched by equality with
one of them. Without a gauge a fork is matched when one of its own idle
deadlines has passed (`matchMoments_idle_iff`), by a trigger whose
deadline is the smallest of those (`matchMoments_idle_smallest`), and
which forks are matched changes only at a fire time
(`idle_due_exact`).
-/
import Autofork.Proofs.Debounce

namespace Autofork

open Lib

/-- The fork has an idle trigger of the positive deadline `d`. -/
def IdlesFor (fork : ForkDef) (defaultIdleSecs d : Nat) : Prop :=
  0 < d ∧ ∃ a, .idle a ∈ fork.runOn ∧ a.getD defaultIdleSecs = d

-- ====================================================== what has elapsed

section
variable {forks : List ForkDef} {defaultIdleSecs maxTokens : Nat}
  {base : Int} (hbrief : BriefDeadlines forks defaultIdleSecs)
  (hbase : -9223372036854775808 ≤ base ∧ base ≤ 4611686018427387904)
include hbrief hbase

/-- Without a gauge, what has elapsed are the collected deadlines that
have passed, in their order. -/
theorem elapsedMoments_eq (upTo : Int) :
    elapsedMoments none maxTokens base
        (idleDeadlines forks defaultIdleSecs) upTo
      = ((idleDeadlines forks defaultIdleSecs).filter fun d : Nat =>
          base + d ≤ upTo).map .idle := by
  unfold elapsedMoments
  rw [List.nil_append]
  congr 1
  refine List.filter_congr fun d hd => ?_
  obtain ⟨fork, hfork, a, ha, rfl⟩ := mem_idleDeadlines hd
  have hlt := hbrief fork hfork a ha
  rw [asI64_of_lt (by omega), wrapI64_of_bounds (by omega) (by omega)]

-- ============================================================ matching

/-- A fork of the list is matched when one of its deadlines has
passed. -/
theorem matchMoments_idle_iff {fork : ForkDef} (hfork : fork ∈ forks)
    (upTo : Int) :
    (matchMoments fork (elapsedMoments none maxTokens base
        (idleDeadlines forks defaultIdleSecs) upTo) defaultIdleSecs).isSome
      ↔ ∃ d, IdlesFor fork defaultIdleSecs d ∧ base + d ≤ upTo := by
  rw [← exists_due_iff, elapsedMoments_eq hbrief hbase]
  unfold Due IdlesFor
  constructor
  · rintro ⟨t, ht, m, hm, hhit⟩
    obtain ⟨d, hd, rfl⟩ := List.mem_map.1 hm
    obtain ⟨hd, hpast⟩ := List.mem_filter.1 hd
    cases t with
    | idle a =>
        simp only [ForkMoment.hits, Bool.and_eq_true, decide_eq_true_eq,
          beq_iff_eq] at hhit
        exact ⟨d, ⟨hhit.2 ▸ hhit.1, a, ht, hhit.2⟩, by simpa using hpast⟩
    | _ => cases hhit
  · rintro ⟨d, ⟨hpos, a, ha, rfl⟩, hpast⟩
    have hd : a.getD defaultIdleSecs ∈ idleDeadlines forks defaultIdleSecs :=
      mem_idleDeadlines_iff.2 ⟨hpos, fork, hfork, a, ha, rfl⟩
    refine ⟨.idle a, ha, .idle (a.getD defaultIdleSecs), ?_, ?_⟩
    · exact List.mem_map_of_mem (List.mem_filter.2 ⟨hd, by simpa using hpast⟩)
    · simp [ForkMoment.hits, hpos]

/-- The trigger it is matched by has the smallest deadline of those that
have passed: the moments come in ascending order. -/
theorem matchMoments_idle_smallest {fork : ForkDef} (hfork : fork ∈ forks)
    {upTo : Int} {t : ForkRunOn}
    (hmatch : matchMoments fork (elapsedMoments none maxTokens base
      (idleDeadlines forks defaultIdleSecs) upTo) defaultIdleSecs = some t) :
    ∃ a, t = .idle a ∧ t ∈ fork.runOn ∧ 0 < a.getD defaultIdleSecs
      ∧ base + a.getD defaultIdleSecs ≤ upTo
      ∧ ∀ d, IdlesFor fork defaultIdleSecs d → base + d ≤ upTo →
        a.getD defaultIdleSecs ≤ d := by
  rw [elapsedMoments_eq hbrief hbase, matchMoments_eq_some_iff] at hmatch
  obtain ⟨ms₁, m, ms₂, hms, hpre, ts₁, ts₂, hts, -, hhit⟩ := hmatch
  have ht : t ∈ fork.runOn := by rw [hts]; simp
  have hm : m ∈ ms₁ ++ m :: ms₂ := by simp
  rw [← hms] at hm
  obtain ⟨e, he, rfl⟩ := List.mem_map.1 hm
  have hpast := (List.mem_filter.1 he).2
  cases t with
  | idle a =>
      simp only [ForkMoment.hits, Bool.and_eq_true, decide_eq_true_eq,
        beq_iff_eq] at hhit
      obtain ⟨hpos, rfl⟩ := hhit
      refine ⟨a, rfl, ht, hpos, by simpa using hpast, ?_⟩
      rintro d ⟨hdpos, a', ha', rfl⟩ hdpast
      by_contra hlt
      -- the smaller deadline's moment would come before, and hit
      have hd : a'.getD defaultIdleSecs ∈ idleDeadlines forks defaultIdleSecs :=
        mem_idleDeadlines_iff.2 ⟨hdpos, fork, hfork, a', ha', rfl⟩
      have hmem : ForkMoment.idle (a'.getD defaultIdleSecs)
          ∈ ms₁ ++ .idle (a.getD defaultIdleSecs) :: ms₂ := by
        rw [← hms]
        exact List.mem_map_of_mem
          (List.mem_filter.2 ⟨hd, by simpa using hdpast⟩)
      have hsorted := ((idleDeadlines_pairwise forks defaultIdleSecs).filter
        fun d : Nat => base + d ≤ upTo).map
          ForkMoment.idle (S := fun x y => ∀ m n, x = .idle m → y = .idle n →
            m < n) fun m n hlt m' n' hm hn => by cases hm; cases hn; exact hlt
      rw [hms] at hsorted
      rcases List.mem_append.1 hmem with hmem | hmem
      · have hno := hpre _ hmem _ ha'
        simp [ForkMoment.hits, hdpos] at hno
      · rcases List.mem_cons.1 hmem with heq | hmem
        · have := ForkMoment.idle.inj heq
          omega
        · have hafter := (List.pairwise_cons.1
            (List.pairwise_append.1 hsorted).2.1).1 _ hmem _ _ rfl rfl
          omega
  | _ => cases hhit

end

-- ========================================================== exactness

/-- Idle due-ness is exact: a fork is matched when one of its deadlines
has passed, by a trigger of the smallest such deadline, and between two
consecutive fire times the same forks are matched. -/
theorem idle_due_exact (forks : List ForkDef)
    (defaultIdleSecs maxTokens : Nat) (base : Int)
    (hbrief : BriefDeadlines forks defaultIdleSecs)
    (hbase : -9223372036854775808 ≤ base ∧ base ≤ 4611686018427387904) :
    let matched (fork : ForkDef) (upTo : Int) : Option ForkRunOn :=
      matchMoments fork (elapsedMoments none maxTokens base
        (idleDeadlines forks defaultIdleSecs) upTo) defaultIdleSecs
    (∀ fork ∈ forks, ∀ upTo,
      ((matched fork upTo).isSome
        ↔ ∃ d, IdlesFor fork defaultIdleSecs d ∧ base + d ≤ upTo)
      ∧ ∀ t, matched fork upTo = some t →
        ∃ a, t = .idle a ∧ t ∈ fork.runOn ∧ 0 < a.getD defaultIdleSecs
          ∧ base + a.getD defaultIdleSecs ≤ upTo
          ∧ ∀ d, IdlesFor fork defaultIdleSecs d → base + d ≤ upTo →
            a.getD defaultIdleSecs ≤ d)
    ∧ ∀ ds₁ (d d' : Nat) ds₂,
      idleDeadlines forks defaultIdleSecs = ds₁ ++ d :: d' :: ds₂ →
      ∀ u v, base + d ≤ u → u < base + d' → base + d ≤ v → v < base + d' →
        ∀ fork ∈ forks,
          ((matched fork u).isSome ↔ (matched fork v).isSome) := by
  intro matched
  refine ⟨fun fork hfork upTo =>
    ⟨matchMoments_idle_iff hbrief hbase hfork upTo, fun t ht =>
      matchMoments_idle_smallest hbrief hbase hfork ht⟩, ?_⟩
  intro ds₁ d d' ds₂ hds u v hdu hud hdv hvd fork hfork
  -- a deadline of the fork is collected, so it is not between the two
  have hgap : ∀ e, IdlesFor fork defaultIdleSecs e → e ≤ d ∨ d' ≤ e := by
    rintro e ⟨hpos, a, ha, rfl⟩
    have hmem : a.getD defaultIdleSecs ∈ ds₁ ++ d :: d' :: ds₂ := by
      rw [← hds]
      exact mem_idleDeadlines_iff.2 ⟨hpos, fork, hfork, a, ha, rfl⟩
    have hsorted := idleDeadlines_pairwise forks defaultIdleSecs
    rw [hds] at hsorted
    obtain ⟨-, hrest, hbefore⟩ := List.pairwise_append.1 hsorted
    obtain ⟨-, hrest⟩ := List.pairwise_cons.1 hrest
    rcases List.mem_append.1 hmem with hmem | hmem
    · have := hbefore _ hmem d (by simp)
      omega
    · rcases List.mem_cons.1 hmem with rfl | hmem
      · omega
      · rcases List.mem_cons.1 hmem with rfl | hmem
        · omega
        · have := (List.pairwise_cons.1 hrest).1 _ hmem
          omega
  show (matchMoments _ _ _).isSome ↔ (matchMoments _ _ _).isSome
  rw [matchMoments_idle_iff hbrief hbase hfork,
    matchMoments_idle_iff hbrief hbase hfork]
  constructor
  · rintro ⟨e, he, hpast⟩
    have := hgap e he
    exact ⟨e, he, by omega⟩
  · rintro ⟨e, he, hpast⟩
    have := hgap e he
    exact ⟨e, he, by omega⟩

/-- A fork with a deadline of its own and the default one is matched by
its own, whatever the order it lists them in. -/
theorem idle_due_exact_two :
    matchMoments { runOn := [.idle none, .idle (some 60)] }
        (elapsedMoments none 200000 1000
          (idleDeadlines [{ runOn := [.idle none, .idle (some 60)] }] 600) 2000)
        600 = some (.idle (some 60))
      ∧ ∀ d, IdlesFor { runOn := [.idle none, .idle (some 60)] } 600 d →
        (1000 : Int) + d ≤ 2000 → 60 ≤ d := by
  have hbrief : BriefDeadlines [{ runOn := [.idle none, .idle (some 60)] }]
      600 := by
    intro fork hfork a ha
    obtain rfl := List.mem_singleton.1 hfork
    rcases List.mem_cons.1 ha with ha | ha
    · cases ha
      decide
    · cases List.mem_singleton.1 ha
      decide
  have hmatch : matchMoments { runOn := [.idle none, .idle (some 60)] }
      (elapsedMoments none 200000 1000
        (idleDeadlines [{ runOn := [.idle none, .idle (some 60)] }] 600) 2000)
      600 = some (.idle (some 60)) := by decide
  obtain ⟨a, ha, -, -, -, hleast⟩ := ((idle_due_exact
    [{ runOn := [.idle none, .idle (some 60)] }] 600 200000 1000 hbrief
    (by decide)).1 _ (List.mem_singleton_self _) 2000).2 _ hmatch
  cases ha
  exact ⟨hmatch, hleast⟩

end Autofork
