/-
What resolving the dependencies of a selection leaves of them.

The result is a subgraph of what the selected forks declare, and all of
it when that has no cycle (`resolveDeps_acyclic`). Otherwise the cuts
fall on the first fork, in the order of the selection, that does not
run; and a fork that only waits for a cycle does not run either. So a
fork on no cycle keeps all its dependencies except where it stands
before the forks of a cycle it leads to and all the forks on the way
there (`off_cycle_keeps_iff`); where it does, it loses one
(`hanger_loses_dependency`).
-/
import Autofork.Planner

namespace Autofork

open Lib

section graph

variable {S : Type} [Selected S]

-- ====================================================== what is declared

theorem name_of_nameToIdx {selected : List S} {a : String}
    {i : Fin selected.length} (h : nameToIdx selected a = some i) :
    Selected.name (selected.get i) = a := by
  have := List.find?_some h
  simpa using this

/-- When names are distinct, a name collects to the fork that has it. -/
theorem nameToIdx_name {selected : List S}
    (hnames : (selected.map Selected.name).Nodup) (j : Fin selected.length) :
    nameToIdx selected (Selected.name (selected.get j)) = some j := by
  cases h : nameToIdx selected (Selected.name (selected.get j)) with
  | none =>
      have hno := List.find?_eq_none.1 h j (by simp)
      simp at hno
  | some i =>
      have hsame := name_of_nameToIdx h
      have helem : selected.get i = selected.get j :=
        List.inj_on_of_nodup_map hnames (List.get_mem _ _) (List.get_mem _ _)
          hsame
      have hselected : selected.Nodup := hnames.of_map _
      rw [List.nodup_iff_injective_get.1 hselected helem]

/-- A name list without repeats collects to indices without repeats. -/
theorem nodup_filterMap_nameToIdx (selected : List S) {names : List String}
    (h : names.Nodup) : (names.filterMap (nameToIdx selected)).Nodup := by
  refine h.filterMap fun a b i ha hb => ?_
  rw [← name_of_nameToIdx ha, ← name_of_nameToIdx hb]

/-- Collapsing repeats in a row drops no value. -/
private theorem mem_destutter {α : Type} [DecidableEq α] {l : List α} {x : α} :
    x ∈ l.destutter (· ≠ ·) ↔ x ∈ l := by
  have hfrom : ∀ (l : List α) (a : α),
      x ∈ l.destutter' (· ≠ ·) a ↔ x = a ∨ x ∈ l := by
    intro l
    induction l with
    | nil => simp
    | cons b l ih =>
        intro a
        by_cases hab : a = b
        · rw [List.destutter'_cons_neg _ (by simpa using hab), ih]
          simp [hab]
        · rw [List.destutter'_cons_pos _ hab, List.mem_cons, ih]
          simp
  cases l with
  | nil => simp
  | cons a l => rw [List.destutter_cons', hfrom, List.mem_cons]

/-- Fork `i` names another selected fork, `j`, in its `after` list. -/
def Declares (selected : List S) (i j : Fin selected.length) : Prop :=
  j ≠ i ∧ Selected.name (selected.get j) ∈ Selected.after (selected.get i)

instance (selected : List S) (i j : Fin selected.length) :
    Decidable (Declares selected i j) := inferInstanceAs (Decidable (_ ∧ _))

theorem mem_declaredDeps {selected : List S}
    (hnames : (selected.map Selected.name).Nodup)
    {i j : Fin selected.length} :
    j ∈ declaredDeps selected i ↔ Declares selected i j := by
  rw [declaredDeps, mem_destutter, List.mem_filter, List.mem_filterMap,
    decide_eq_true_eq, Declares, and_comm]
  refine and_congr_right fun _ => ⟨fun ⟨a, ha, hj⟩ => ?_, fun h => ?_⟩
  · rwa [name_of_nameToIdx hj]
  · exact ⟨_, h, nameToIdx_name hnames j⟩

/-- What a fork's `after` list collects to, itself aside. -/
def resolvedAfter (selected : List S) (i : Fin selected.length) :
    List (Fin selected.length) :=
  ((Selected.after (selected.get i)).filterMap (nameToIdx selected)).filter
    fun d => d ≠ i

theorem declaredDeps_eq {selected : List S} {i : Fin selected.length}
    (h : (Selected.after (selected.get i)).Nodup) :
    declaredDeps selected i = resolvedAfter selected i := by
  have hnodup := (nodup_filterMap_nameToIdx selected h).filter
    fun d => decide (d ≠ i)
  exact List.destutter_of_isChain _ _ hnodup.isChain

-- ==================================================== what is resolved

theorem resolveDeps_sublist (selected : List S) (i : Fin selected.length) :
    (resolveDeps selected i).Sublist (declaredDeps selected i) :=
  Peel.breakCycles_sublist _ _ i

theorem declaredDeps_sublist (selected : List S) (i : Fin selected.length) :
    (declaredDeps selected i).Sublist (resolvedAfter selected i) :=
  List.destutter_sublist _ _

/-- The dependencies that are left: on a fork further up, or on one that
leads to no cycle of forks from this one on. -/
theorem mem_resolveDeps (selected : List S) {i d : Fin selected.length} :
    d ∈ resolveDeps selected i ↔ d ∈ declaredDeps selected i
      ∧ (d < i ∨ Peel.Grounded (declaredDeps selected) i d) :=
  Peel.mem_breakCycles (List.pairwise_lt_finRange _) List.mem_finRange
    (Nat.lt_succ_self _)

/-- A non-empty well-founded graph has a root. -/
theorem roots_ne_nil {selected : List S} (h : selected ≠ []) :
    roots (resolveDeps selected) ≠ [] := by
  have hpos : 0 < selected.length := List.length_pos_of_ne_nil h
  obtain ⟨i, -, hmin⟩ := (resolveDeps_wellFounded selected).has_min Set.univ
    ⟨⟨0, hpos⟩, trivial⟩
  refine List.ne_nil_of_mem (a := i) (List.mem_filter.2 ⟨List.mem_finRange i, ?_⟩)
  rw [List.isEmpty_iff, List.eq_nil_iff_forall_not_mem]
  exact fun d hd => hmin d trivial hd

/-- The selected forks' declared dependencies have no cycle. -/
def Acyclic (selected : List S) : Prop :=
  ∀ i, ¬Relation.TransGen (fun d i => d ∈ declaredDeps selected i) i i

/-- Whatever the names and the `after` lists: both loops end, for more
fuel changes nothing; each fork keeps a subsequence of what its `after`
list resolves to; everything peels, so some fork is a root; and without
a cycle each fork keeps all that it declares. -/
theorem resolveDeps_acyclic (selected : List S) :
    (∀ fuel, Peel.edges (declaredDeps selected) (List.finRange _) < fuel →
        Peel.breakCycles (List.finRange _) fuel (declaredDeps selected)
          = resolveDeps selected)
      ∧ (∀ (deps : Fin selected.length → List (Fin selected.length)) fuel,
        selected.length < fuel →
        Peel.peelFrom deps (List.finRange _) fuel (fun _ => false)
          = Peel.peel deps (List.finRange _))
      ∧ (∀ i, i ∉ resolveDeps selected i
        ∧ (resolveDeps selected i).Sublist
          ((Selected.after (selected.get i)).filterMap (nameToIdx selected)))
      ∧ (∀ i, Peel.peel (resolveDeps selected) (List.finRange _) i = true)
      ∧ (selected ≠ [] → roots (resolveDeps selected) ≠ [])
      ∧ (Acyclic selected →
        (∀ i, (Selected.after (selected.get i)).Nodup) →
        ∀ i, resolveDeps selected i = resolvedAfter selected i) := by
  have hsub : ∀ i, (resolveDeps selected i).Sublist (resolvedAfter selected i) :=
    fun i => (resolveDeps_sublist selected i).trans (declaredDeps_sublist selected i)
  refine ⟨fun fuel hfuel => ?_, fun deps fuel hfuel => ?_, fun i => ⟨fun hi => ?_, ?_⟩,
    fun i => ?_, roots_ne_nil, fun hacyclic hafter i => ?_⟩
  · exact Peel.breakCycles_fuel _ _ _ hfuel (Nat.lt_succ_self _)
  · have htodo : Peel.todo (List.finRange selected.length) (fun _ => false)
        ≤ selected.length :=
      List.countP_le_length.trans_eq (List.length_finRange ..)
    refine Peel.peelFrom_fuel _ _ _ (htodo.trans_lt hfuel) (htodo.trans_lt ?_)
    rw [List.length_finRange]
    exact Nat.lt_succ_self _
  · simpa [resolvedAfter] using (hsub i).subset hi
  · exact (hsub i).trans List.filter_sublist
  · exact Peel.breakCycles_peels _ _ (Nat.lt_succ_self _) i (List.mem_finRange i)
  · rw [← declaredDeps_eq (hafter i)]
    refine congrFun (Peel.breakCycles_of_acc List.mem_finRange (fun j => ?_) _) i
    by_contra hacc
    obtain ⟨b, -, hcycle⟩ := Peel.not_acc_iff_cycle.1 hacc
    exact hacyclic b hcycle

-- ============================================================ off cycles

/-- Fork `i` lies on a dependency cycle of the selection. -/
def OnCycle (selected : List S) (i : Fin selected.length) : Prop :=
  Relation.TransGen (Declares selected) i i

/-- Fork `a` declares `b`, which does not stand above `i`. -/
def DeclaresFrom (selected : List S) (i a b : Fin selected.length) : Prop :=
  Declares selected a b ∧ i ≤ b

/-- Fork `i` leads to a cycle, and neither on the way nor on the cycle is
there a fork that stands above `i`. -/
def AheadOfCycle (selected : List S) (i : Fin selected.length) : Prop :=
  ∃ j, Relation.ReflTransGen (DeclaresFrom selected i) i j
    ∧ Relation.TransGen (DeclaresFrom selected i) j j

theorem not_grounded_iff {selected : List S}
    (hnames : (selected.map Selected.name).Nodup)
    {i d : Fin selected.length} :
    ¬Peel.Grounded (declaredDeps selected) i d
      ↔ ∃ j, Relation.ReflTransGen (DeclaresFrom selected i) d j
        ∧ Relation.TransGen (DeclaresFrom selected i) j j := by
  have hrel : (fun e j => e ∈ declaredDeps selected j ∧ i ≤ e)
      = Function.swap (DeclaresFrom selected i) := by
    funext e j
    exact propext (and_congr_left' (mem_declaredDeps hnames))
  rw [Peel.Grounded, hrel, Peel.not_acc_iff_cycle]
  simp only [Relation.reflTransGen_swap, Relation.transGen_swap]

/-- For distinct names: every fork on no cycle keeps each dependency it
declares, exactly when none of them stands ahead of a cycle it leads
to. -/
theorem off_cycle_keeps_iff {selected : List S}
    (hnames : (selected.map Selected.name).Nodup) :
    (∀ i, ¬OnCycle selected i →
        ∀ j, Declares selected i j → j ∈ resolveDeps selected i)
      ↔ ∀ i, ¬OnCycle selected i → ¬AheadOfCycle selected i := by
  refine forall_congr' fun i => imp_congr_right fun hoff => ?_
  constructor
  · rintro hkeeps ⟨c, hreach, hcycle⟩
    rcases hreach.cases_head with rfl | ⟨j, ⟨hdecl, hij⟩, hrest⟩
    · exact hoff (Relation.TransGen.mono (fun _ _ h => h.1) _ _ hcycle)
    · have hkept := (mem_resolveDeps selected).1 (hkeeps j hdecl)
      rcases hkept.2 with hlt | hgrounded
      · exact absurd hlt (not_lt.2 hij)
      · exact (not_grounded_iff hnames).2 ⟨c, hrest, hcycle⟩ hgrounded
  · intro hahead j hdecl
    refine (mem_resolveDeps selected).2 ⟨(mem_declaredDeps hnames).2 hdecl, ?_⟩
    by_contra hlost
    push Not at hlost
    obtain ⟨c, hreach, hcycle⟩ := (not_grounded_iff hnames).1 hlost.2
    exact hahead ⟨c, .head ⟨hdecl, hlost.1⟩ hreach, hcycle⟩

end graph

-- ------------------------------------------------------------- hangers

/-- A fork that is due, with what it runs after. -/
private def due (name : String) (after : List String) : SelectedFork where
  name
  path := name
  trigger := "idle"
  overlap := false
  after
  tags := []
  latchKey := none

/-- A fork that hangs off a cycle and stands last keeps its
dependency. -/
theorem off_cycle_keeps_last :
    let selected := [due "a" ["b"], due "b" ["a"], due "c" ["b"]]
    (∀ i, ¬OnCycle selected i →
        ∀ j, Declares selected i j → j ∈ resolveDeps selected i)
      ∧ ¬OnCycle selected 2 ∧ Declares selected 2 1 := by
  intro selected
  have hno : ∀ j, ¬Declares selected j 2 := by decide
  have hlast : ∀ j c, Declares selected j c → ¬(2 : Fin 3) ≤ c := by decide
  have hon : ∀ i j, Declares selected i j → Declares selected j i →
      OnCycle selected i := fun i j hij hji => .tail (.single hij) hji
  refine ⟨(off_cycle_keeps_iff (by decide)).2 fun i hoff => ?_, fun h => ?_,
    by decide⟩
  · match i with
    | 0 => exact absurd (hon 0 1 (by decide) (by decide)) hoff
    | 1 => exact absurd (hon 1 0 (by decide) (by decide)) hoff
    | 2 =>
        rintro ⟨c, -, hcycle⟩
        obtain ⟨j, -, hjc⟩ := Relation.TransGen.tail'_iff.1 hcycle
        exact hlast j c hjc.1 hjc.2
  · obtain ⟨j, -, hj⟩ := Relation.TransGen.tail'_iff.1 h
    exact hno j hj

/-- A fork that hangs off a cycle and stands first is the one that is
cut. -/
theorem hanger_loses_dependency :
    ¬∀ selected : List SelectedFork,
      (selected.map Selected.name).Nodup →
      ∀ i, ¬OnCycle selected i →
        ∀ j, Declares selected i j → j ∈ resolveDeps selected i := by
  intro h
  have hno : ∀ j, ¬Declares [due "a" ["b"], due "b" ["c"], due "c" ["b"]] j 0 := by
    decide
  have hkept := h [due "a" ["b"], due "b" ["c"], due "c" ["b"]] (by decide) 0
    (fun hcycle => by
      obtain ⟨j, -, hj⟩ := Relation.TransGen.tail'_iff.1 hcycle
      exact hno j hj) 1 (by decide)
  exact absurd hkept (by decide)

end Autofork
