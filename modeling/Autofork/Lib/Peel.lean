/-
Peeling a finite dependency graph: repeatedly marking the nodes whose
dependencies are all marked, and breaking the cycles that stop the
peeling by dropping the unmet dependencies of one unmarked node at a
time.

Both loops run on fuel, and both are shown to have enough of it: a
pass that marks nothing new is reached within one pass per node
(`peel_closed`), and every cut removes an edge, so a cut list as long
as the edge count leaves a graph that peels completely
(`breakCycles_peels`). More fuel than that changes nothing
(`peelFrom_fuel`, `breakCycles_fuel`). A graph that peels completely has
no cycle, in the form the users of it need: its dependency relation is
well founded (`wellFounded_of_peels`).

# Which edges go

What peels is what is accessible (`peel_iff_acc`). When the nodes are
taken in ascending order, the cuts come in ascending order as well, and
at the cut of `i` all nodes below `i` have peeled while those above
still have every dependency. So `i` keeps a dependency exactly when it
is a node below `i`, or one from which no descent through nodes from `i`
on goes on for ever (`mem_breakCycles`).
-/
import Mathlib.Algebra.Order.BigOperators.Group.List
import Mathlib.Algebra.Order.Ring.Nat
import Mathlib.Data.Fintype.Card
import Mathlib.Order.WellFoundedSet

namespace Autofork.Lib.Peel

variable {ι : Type} [DecidableEq ι]

-- ============================================================ the loops

/-- One node's turn in a pass: marked when all its dependencies are;
the flag records that something changed. -/
def visit (deps : ι → List ι) (acc : (ι → Bool) × Bool) (i : ι) :
    (ι → Bool) × Bool :=
  if !acc.1 i && (deps i).all acc.1 then
    (Function.update acc.1 i true, true)
  else acc

/-- One pass over the nodes. -/
def sweep (deps : ι → List ι) (nodes : List ι) (done : ι → Bool) :
    (ι → Bool) × Bool :=
  nodes.foldl (visit deps) (done, false)

/-- Passes until one changes nothing. -/
def peelFrom (deps : ι → List ι) (nodes : List ι) :
    Nat → (ι → Bool) → (ι → Bool)
  | 0, done => done
  | fuel + 1, done =>
      let r := sweep deps nodes done
      if r.2 then peelFrom deps nodes fuel r.1 else r.1

/-- The peel closure: the nodes that can run. -/
def peel (deps : ι → List ι) (nodes : List ι) : ι → Bool :=
  peelFrom deps nodes (nodes.length + 1) fun _ => false

/-- Cut until everything peels: the first node that does not loses its
dependencies on nodes that do not. -/
def breakCycles (nodes : List ι) : Nat → (ι → List ι) → (ι → List ι)
  | 0, deps => deps
  | fuel + 1, deps =>
      let done := peel deps nodes
      match nodes.find? fun i => !done i with
      | none => deps
      | some cut =>
          breakCycles nodes fuel
            (Function.update deps cut ((deps cut).filter done))

/-- The number of edges out of the nodes. -/
def edges (deps : ι → List ι) (nodes : List ι) : Nat :=
  (nodes.map fun i => (deps i).length).sum

-- ===================================================== what a pass does

/-- A marking under which no unmarked node is ready. -/
def Closed (deps : ι → List ι) (nodes : List ι) (done : ι → Bool) : Prop :=
  ∀ i ∈ nodes, (∀ d ∈ deps i, done d = true) → done i = true

variable {deps : ι → List ι} {nodes : List ι}

/-- A turn marks the node or changes nothing. -/
theorem visit_cases (deps : ι → List ι) (acc : (ι → Bool) × Bool) (i : ι) :
    (visit deps acc i = acc
        ∧ ((∀ d ∈ deps i, acc.1 d = true) → acc.1 i = true))
      ∨ (visit deps acc i = (Function.update acc.1 i true, true)
        ∧ acc.1 i = false ∧ ∀ d ∈ deps i, acc.1 d = true) := by
  unfold visit
  split
  case isTrue h =>
    simp only [Bool.and_eq_true, Bool.not_eq_true', List.all_eq_true] at h
    exact .inr ⟨rfl, h⟩
  case isFalse h =>
    refine .inl ⟨rfl, fun hall => ?_⟩
    cases hi : acc.1 i with
    | true => rfl
    | false =>
        exact absurd (by simpa [hi, List.all_eq_true] using hall) h

/-- The invariant rule for a pass: what each turn keeps, the pass
keeps. -/
theorem sweep_induction {P : (ι → Bool) × Bool → Prop}
    (hvisit : ∀ acc i, i ∈ nodes → P acc → P (visit deps acc i))
    {done : ι → Bool} (h : P (done, false)) : P (sweep deps nodes done) :=
  List.foldlRecOn nodes (visit deps) h fun acc hacc i hi =>
    hvisit acc i hi hacc

/-- A turn only adds marks. -/
theorem visit_mono {acc : (ι → Bool) × Bool} {i j : ι}
    (hi : acc.1 i = true) : (visit deps acc j).1 i = true := by
  rcases visit_cases deps acc j with ⟨he, -⟩ | ⟨he, -, -⟩
  · rw [he]; exact hi
  · rw [he]
    show Function.update acc.1 j true i = true
    by_cases hij : i = j
    · rw [hij, Function.update_self]
    · rw [Function.update_of_ne hij]; exact hi

/-- A pass that reports no change made none, and found no node
ready. -/
theorem sweep_unchanged {done : ι → Bool}
    (h : (sweep deps nodes done).2 = false) :
    (sweep deps nodes done).1 = done ∧ Closed deps nodes done := by
  suffices hgen : ∀ (l : List ι) (acc : (ι → Bool) × Bool),
      (l.foldl (visit deps) acc).2 = false →
      l.foldl (visit deps) acc = acc ∧ Closed deps l acc.1 by
    obtain ⟨h₁, h₂⟩ := hgen nodes (done, false) h
    exact ⟨congrArg Prod.fst h₁, h₂⟩
  intro l
  induction l with
  | nil => exact fun acc _ => ⟨rfl, fun i hi => absurd hi (by simp)⟩
  | cons j l ih =>
      intro acc hacc
      obtain ⟨hrest, hclosed⟩ := ih (visit deps acc j) hacc
      rw [List.foldl_cons] at hacc ⊢
      rw [hrest] at hacc ⊢
      rcases visit_cases deps acc j with ⟨he, hj⟩ | ⟨he, -⟩
      · rw [he] at hclosed ⊢
        refine ⟨rfl, fun i hi hdeps => ?_⟩
        rcases List.mem_cons.1 hi with rfl | hi
        · exact hj hdeps
        · exact hclosed i hi hdeps
      · -- a turn that marks sets the flag, and no later turn clears it
        rw [he] at hacc
        cases hacc

/-- The nodes still to mark. -/
def todo (nodes : List ι) (done : ι → Bool) : Nat :=
  nodes.countP fun i => !done i

omit [DecidableEq ι] in
/-- Marking one more node leaves fewer to mark. -/
theorem todo_lt {done done' : ι → Bool}
    (hle : ∀ i, done i = true → done' i = true) {i : ι} (hi : i ∈ nodes)
    (hold : done i = false) (hnew : done' i = true) :
    todo nodes done' < todo nodes done := by
  have hmono : ∀ l : List ι, todo l done' ≤ todo l done := fun l =>
    List.countP_mono_left fun j _ hj => by
      cases hd : done j with
      | false => rfl
      | true => simp [hle j hd] at hj
  induction nodes with
  | nil => simp at hi
  | cons j l ih =>
      have hl := hmono l
      simp only [todo, List.countP_cons] at hl ih ⊢
      rcases List.mem_cons.1 hi with rfl | hi
      · simp only [hold, hnew, Bool.not_true, Bool.not_false,
          Bool.false_eq_true, if_false, if_true]
        omega
      · have hj := ih hi
        cases hd : done j with
        | true => simp only [hle j hd]; omega
        | false => split <;> simp <;> omega

/-- A pass that reports a change has marked a node. -/
theorem sweep_changed {done : ι → Bool}
    (h : (sweep deps nodes done).2 = true) :
    todo nodes (sweep deps nodes done).1 < todo nodes done := by
  have hP : (∀ i, done i = true → (sweep deps nodes done).1 i = true)
      ∧ ((sweep deps nodes done).2 = true → ∃ i ∈ nodes,
          done i = false ∧ (sweep deps nodes done).1 i = true) := by
    refine sweep_induction (P := fun acc =>
      (∀ i, done i = true → acc.1 i = true)
        ∧ (acc.2 = true → ∃ i ∈ nodes, done i = false ∧ acc.1 i = true))
      ?_ ⟨fun _ hi => hi, by simp⟩
    rintro acc j hj ⟨hmono, hnew⟩
    refine ⟨fun i hi => visit_mono (hmono i hi), fun hflag => ?_⟩
    rcases visit_cases deps acc j with ⟨he, -⟩ | ⟨he, hfalse, -⟩
    · rw [he] at hflag ⊢
      exact hnew hflag
    · refine ⟨j, hj, ?_, by rw [he]; exact Function.update_self ..⟩
      cases hd : done j with
      | false => rfl
      | true => exact absurd (hmono j hd) (by simp [hfalse])
  obtain ⟨i, hi, hold, hnew⟩ := hP.2 h
  exact todo_lt hP.1 hi hold hnew

-- ========================================================== the closure

/-- With more fuel than nodes to mark, the passes end closed. -/
theorem peelFrom_closed : ∀ (fuel : Nat) (done : ι → Bool),
    todo nodes done < fuel →
    Closed deps nodes (peelFrom deps nodes fuel done) := by
  intro fuel
  induction fuel with
  | zero => exact fun _ h => absurd h (Nat.not_lt_zero _)
  | succ fuel ih =>
      intro done h
      unfold peelFrom
      cases hflag : (sweep deps nodes done).2 with
      | true =>
          simp only [hflag, if_true]
          exact ih _ (by have := sweep_changed hflag; omega)
      | false =>
          simp only [hflag, Bool.false_eq_true, if_false]
          obtain ⟨he, hclosed⟩ := sweep_unchanged hflag
          rw [he]
          exact hclosed

/-- The peel closure is closed: a pass per node is enough. -/
theorem peel_closed (deps : ι → List ι) (nodes : List ι) :
    Closed deps nodes (peel deps nodes) :=
  peelFrom_closed _ _ (Nat.lt_succ_of_le List.countP_le_length)

/-- The invariant rule for the closure: a property of marked nodes that
passes from a node's dependencies to the node holds of every node the
passes mark. -/
theorem peel_induction {P : ι → Prop}
    (hnode : ∀ i, (∀ d ∈ deps i, P d) → P i) {i : ι}
    (hi : peel deps nodes i = true) : P i := by
  have hsweep : ∀ done : ι → Bool, (∀ i, done i = true → P i) →
      ∀ i, (sweep deps nodes done).1 i = true → P i := by
    intro done hdone
    refine sweep_induction (P := fun acc => ∀ i, acc.1 i = true → P i)
      ?_ hdone
    intro acc j _ hacc i hi
    rcases visit_cases deps acc j with ⟨he, -⟩ | ⟨he, -, hall⟩
    · rw [he] at hi
      exact hacc i hi
    · rw [he] at hi
      by_cases hij : i = j
      · rw [hij]
        exact hnode j fun d hd => hacc d (hall d hd)
      · exact hacc i (by simpa [Function.update_of_ne hij] using hi)
  have hfrom : ∀ (fuel : Nat) (done : ι → Bool),
      (∀ i, done i = true → P i) →
      ∀ i, peelFrom deps nodes fuel done i = true → P i := by
    intro fuel
    induction fuel with
    | zero => exact fun done hdone => hdone
    | succ fuel ih =>
        intro done hdone i hi
        simp only [peelFrom] at hi
        split at hi
        · exact ih _ (hsweep done hdone) i hi
        · exact hsweep done hdone i hi
  exact hfrom _ _ (fun _ h => absurd h (by simp)) i hi

/-- A graph whose nodes all peel has no infinite descent: its
dependency relation is well founded. -/
theorem wellFounded_of_peels (h : ∀ i, peel deps nodes i = true) :
    WellFounded fun d i => d ∈ deps i :=
  ⟨fun i => peel_induction (fun i hd => Acc.intro i hd) (h i)⟩

-- ====================================================== cycle breaking

/-- Shortening one node's dependencies removes edges. -/
theorem edges_update_lt {i : ι} (hi : i ∈ nodes) {l : List ι}
    (hl : l.length < (deps i).length) :
    edges (Function.update deps i l) nodes < edges deps nodes := by
  refine List.sum_lt_sum _ _ (fun j _ => ?_) ⟨i, hi, ?_⟩
  · by_cases hji : j = i
    · rw [hji, Function.update_self]; exact hl.le
    · rw [Function.update_of_ne hji]
  · rw [Function.update_self]; exact hl

/-- A node that does not peel has a dependency that does not, so
cutting it removes an edge. -/
theorem cut_length_lt {i : ι} (hi : i ∈ nodes)
    (hnot : peel deps nodes i = false) :
    ((deps i).filter (peel deps nodes)).length < (deps i).length := by
  refine lt_of_le_of_ne (List.length_filter_le _ _) fun heq => ?_
  have hall := List.length_filter_eq_length_iff.1 heq
  exact absurd (peel_closed deps nodes i hi hall) (by simp [hnot])

/-- With more fuel than edges, cycle breaking leaves a graph that peels
completely. -/
theorem breakCycles_peels : ∀ (fuel : Nat) (deps : ι → List ι),
    edges deps nodes < fuel →
    ∀ i ∈ nodes, peel (breakCycles nodes fuel deps) nodes i = true := by
  intro fuel
  induction fuel with
  | zero => exact fun _ h => absurd h (Nat.not_lt_zero _)
  | succ fuel ih =>
      intro deps h
      simp only [breakCycles]
      split
      case h_1 hf =>
        intro i hi
        simpa using List.find?_eq_none.1 hf i hi
      case h_2 cut hf =>
        have hcut := List.mem_of_find?_eq_some hf
        have hnot : peel deps nodes cut = false := by
          simpa using List.find?_some hf
        have hless := edges_update_lt hcut (cut_length_lt hcut hnot)
        exact ih _ (by omega)

-- ========================================================= enough fuel

/-- Any two amounts of fuel beyond the nodes to mark make the same
passes. -/
theorem peelFrom_fuel : ∀ (fuel fuel' : Nat) (done : ι → Bool),
    todo nodes done < fuel → todo nodes done < fuel' →
    peelFrom deps nodes fuel done = peelFrom deps nodes fuel' done := by
  intro fuel
  induction fuel with
  | zero => exact fun _ _ h => absurd h (Nat.not_lt_zero _)
  | succ fuel ih =>
      intro fuel' done h h'
      cases fuel' with
      | zero => exact absurd h' (Nat.not_lt_zero _)
      | succ fuel' =>
          unfold peelFrom
          cases hflag : (sweep deps nodes done).2 with
          | true =>
              have hless := sweep_changed hflag
              simp only [hflag, if_true]
              exact ih fuel' (sweep deps nodes done).1 (by omega) (by omega)
          | false => simp only [hflag, Bool.false_eq_true, if_false]

/-- Any two amounts of fuel beyond the edges make the same cuts. -/
theorem breakCycles_fuel : ∀ (fuel fuel' : Nat) (deps : ι → List ι),
    edges deps nodes < fuel → edges deps nodes < fuel' →
    breakCycles nodes fuel deps = breakCycles nodes fuel' deps := by
  intro fuel
  induction fuel with
  | zero => exact fun _ _ h => absurd h (Nat.not_lt_zero _)
  | succ fuel ih =>
      intro fuel' deps h h'
      cases fuel' with
      | zero => exact absurd h' (Nat.not_lt_zero _)
      | succ fuel' =>
          simp only [breakCycles]
          split
          case h_1 => rfl
          case h_2 cut hf =>
            have hcut := List.mem_of_find?_eq_some hf
            have hnot : peel deps nodes cut = false := by
              simpa using List.find?_some hf
            have hless := edges_update_lt hcut (cut_length_lt hcut hnot)
            exact ih fuel' _ (by omega) (by omega)

/-- The invariant rule for cycle breaking: what each cut keeps, all of
them keep. -/
theorem breakCycles_induction {P : (ι → List ι) → Prop}
    (hcut : ∀ deps cut, nodes.find? (fun i => !peel deps nodes i) = some cut →
      P deps →
      P (Function.update deps cut ((deps cut).filter (peel deps nodes))))
    (fuel : Nat) (deps : ι → List ι) (h : P deps) :
    P (breakCycles nodes fuel deps) := by
  induction fuel generalizing deps with
  | zero => exact h
  | succ fuel ih =>
      simp only [breakCycles]
      split
      case h_1 => exact h
      case h_2 cut hf => exact ih _ (hcut deps cut hf h)

/-- Cycle breaking only drops dependencies. -/
theorem breakCycles_sublist (fuel : Nat) (deps : ι → List ι) (i : ι) :
    (breakCycles nodes fuel deps i).Sublist (deps i) := by
  refine breakCycles_induction
    (P := fun deps' => ∀ i, (deps' i).Sublist (deps i))
    (fun deps' cut _ h i => ?_) fuel deps (fun i => List.Sublist.refl _) i
  by_cases hi : i = cut
  · rw [hi, Function.update_self]
    exact List.filter_sublist.trans (h cut)
  · rw [Function.update_of_ne hi]
    exact h i

-- ======================================================= what peels

/-- A node peels when nothing descends from it for ever. -/
theorem peel_iff_acc (hall : ∀ i, i ∈ nodes) {i : ι} :
    peel deps nodes i = true ↔ Acc (fun d i => d ∈ deps i) i := by
  constructor
  · exact peel_induction fun i hd => Acc.intro i hd
  · intro h
    induction h with
    | intro i _ ih => exact peel_closed deps nodes i (hall i) ih

/-- A graph without infinite descent is left as it is. -/
theorem breakCycles_of_acc (hall : ∀ i, i ∈ nodes)
    (hacc : ∀ i, Acc (fun d i => d ∈ deps i) i) (fuel : Nat) :
    breakCycles nodes fuel deps = deps := by
  cases fuel with
  | zero => rfl
  | succ fuel =>
      have hnone : (nodes.find? fun i => !peel deps nodes i) = none := by
        refine List.find?_eq_none.2 fun i _ => ?_
        simp [(peel_iff_acc hall).2 (hacc i)]
      simp only [breakCycles, hnone]

-- ==================================================== which edges go

section order

variable {κ : Type} [LinearOrder κ] {given : κ → List κ} {nodes : List κ}

/-- No descent from a node through nodes from `i` on goes on for
ever. -/
def Grounded (given : κ → List κ) (i : κ) (d : κ) : Prop :=
  Acc (fun d j => d ∈ given j ∧ i ≤ d) d

/-- What has been cut up to a node: below it everything peels, with the
dependencies that are to stay; from it on nothing is missing. -/
structure CutBelow (given deps : κ → List κ) (k : κ → Prop) : Prop where
  below : ∀ j j', k j → j' ≤ j → k j'
  peels : ∀ j, k j → Acc (fun d j => d ∈ deps j) j
  kept : ∀ j, k j → ∀ d,
    d ∈ deps j ↔ d ∈ given j ∧ (d < j ∨ Grounded given j d)
  whole : ∀ j, ¬k j → deps j = given j

/-- When everything below `c` peels and the rest is whole, what peels is
what lies below `c` or is grounded from `c` on. -/
theorem acc_iff_grounded {deps : κ → List κ} {c : κ}
    (hbelow : ∀ j < c, Acc (fun d j => d ∈ deps j) j)
    (hwhole : ∀ j, c ≤ j → deps j = given j) {d : κ} :
    Acc (fun d j => d ∈ deps j) d ↔ d < c ∨ Grounded given c d := by
  constructor
  · intro h
    induction h with
    | intro d _ ih =>
        by_cases hd : d < c
        · exact .inl hd
        · refine .inr (Acc.intro d fun e he => ?_)
          rw [← hwhole d (not_lt.1 hd)] at he
          exact (ih e he.1).resolve_left (not_lt.2 he.2)
  · rintro (hd | hd)
    · exact hbelow d hd
    · induction hd with
      | intro d _ ih =>
          by_cases hc : d < c
          · exact hbelow d hc
          · refine Acc.intro d fun e he => ?_
            rw [hwhole d (not_lt.1 hc)] at he
            by_cases hec : e < c
            · exact hbelow e hec
            · exact ih e ⟨he, not_lt.1 hec⟩

/-- A node that peels, like all below it, has nothing to lose. -/
theorem CutBelow.kept_of_acc {deps : κ → List κ} {k : κ → Prop}
    (h : CutBelow given deps k) {j : κ} (hj : ¬k j)
    (hacc : ∀ j' ≤ j, Acc (fun d j => d ∈ deps j) j') (d : κ) :
    d ∈ deps j ↔ d ∈ given j ∧ (d < j ∨ Grounded given j d) := by
  have hwhole : ∀ j', j ≤ j' → deps j' = given j' := fun j' hle =>
    h.whole j' fun hk => hj (h.below j' j hk hle)
  rw [hwhole j le_rfl]
  constructor
  · intro hd
    refine ⟨hd, (acc_iff_grounded (fun j' hlt => hacc j' hlt.le) hwhole).1 ?_⟩
    exact (hacc j le_rfl).inv (by rwa [hwhole j le_rfl])
  · exact And.left

/-- In ascending order, the first node that does not peel has all below
it peeled. -/
private theorem acc_below_cut (hsorted : nodes.Pairwise (· < ·))
    (hall : ∀ i, i ∈ nodes) {deps : κ → List κ} {cut : κ}
    (hf : nodes.find? (fun i => !peel deps nodes i) = some cut) :
    ∀ j < cut, Acc (fun d j => d ∈ deps j) j := by
  intro j hj
  obtain ⟨-, before, after, hsplit, hpeels⟩ := List.find?_eq_some_iff_append.1 hf
  have hmem : j ∈ before := by
    have hmem := hall j
    rw [hsplit, List.mem_append, List.mem_cons] at hmem
    rw [hsplit, List.pairwise_append, List.pairwise_cons] at hsorted
    rcases hmem with hmem | rfl | hmem
    · exact hmem
    · exact absurd hj (lt_irrefl _)
    · exact absurd hj (hsorted.2.1.1 j hmem).not_gt
  exact (peel_iff_acc hall).1 (by simpa using hpeels j hmem)

/-- One cut. -/
theorem CutBelow.cut (hsorted : nodes.Pairwise (· < ·))
    (hall : ∀ i, i ∈ nodes) {deps : κ → List κ} {k : κ → Prop}
    (h : CutBelow given deps k) {cut : κ}
    (hf : nodes.find? (fun i => !peel deps nodes i) = some cut) :
    CutBelow given
      (Function.update deps cut ((deps cut).filter (peel deps nodes)))
      (· ≤ cut) := by
  have hbelow := acc_below_cut hsorted hall hf
  have hstuck : ¬Acc (fun d j => d ∈ deps j) cut := by
    rw [← peel_iff_acc hall]
    simpa using List.find?_some hf
  have hcut : ∀ j, cut ≤ j → ¬k j := fun j hle hk =>
    hstuck (h.peels cut (h.below j cut hk hle))
  have hwhole : ∀ j, cut ≤ j → deps j = given j := fun j hle =>
    h.whole j (hcut j hle)
  -- what peeled still peels, and the node that is cut peels now
  have hstill : ∀ j, Acc (fun d j => d ∈ deps j) j →
      Acc (fun d j => d ∈ Function.update deps cut
        ((deps cut).filter (peel deps nodes)) j) j := by
    intro j hj
    refine Subrelation.accessible (fun {d j} hd => ?_) hj
    by_cases hjc : j = cut
    · rw [hjc, Function.update_self] at hd
      rw [hjc]
      exact List.mem_of_mem_filter hd
    · rwa [Function.update_of_ne hjc] at hd
  refine ⟨fun j j' hle hle' => hle'.trans hle, fun j hle => ?_,
    fun j hle d => ?_, fun j hlt => ?_⟩
  · rcases hle.lt_or_eq with hlt | rfl
    · exact hstill j (hbelow j hlt)
    · refine Acc.intro j fun d hd => hstill d ?_
      rw [Function.update_self, List.mem_filter] at hd
      exact (peel_iff_acc hall).1 hd.2
  · rcases hle.lt_or_eq with hlt | rfl
    · rw [Function.update_of_ne hlt.ne]
      by_cases hk : k j
      · exact h.kept j hk d
      · exact h.kept_of_acc hk (fun j' hle' => hbelow j' (hle'.trans_lt hlt)) d
    · rw [Function.update_self, List.mem_filter, peel_iff_acc hall,
        acc_iff_grounded hbelow hwhole, hwhole j le_rfl]
  · rw [Function.update_of_ne (not_le.1 hlt).ne']
    exact hwhole j (not_le.1 hlt).le

/-- The edges that are left: a node keeps a dependency that is below it,
or grounded from it on. -/
theorem mem_breakCycles (hsorted : nodes.Pairwise (· < ·))
    (hall : ∀ i, i ∈ nodes) {fuel : Nat} (hfuel : edges given nodes < fuel)
    {i d : κ} :
    d ∈ breakCycles nodes fuel given i
      ↔ d ∈ given i ∧ (d < i ∨ Grounded given i d) := by
  obtain ⟨k, hk⟩ : ∃ k, CutBelow given (breakCycles nodes fuel given) k :=
    breakCycles_induction (P := fun deps => ∃ k, CutBelow given deps k)
      (fun deps cut hf ⟨k, h⟩ => ⟨_, h.cut hsorted hall hf⟩) fuel given
      ⟨fun _ => False, by simp, by simp, by simp, fun _ _ => rfl⟩
  have hpeels : ∀ j, Acc (fun d j => d ∈ breakCycles nodes fuel given j) j :=
    fun j => (peel_iff_acc hall).1 (breakCycles_peels fuel given hfuel j (hall j))
  by_cases hi : k i
  · exact hk.kept i hi d
  · exact hk.kept_of_acc hi (fun j' _ => hpeels j') d

end order

-- ============================================================ cycles

/-- In a finite graph a descent that goes on for ever runs into a
cycle. -/
theorem not_acc_iff_cycle {α : Type} [Finite α] {r : α → α → Prop} {a : α} :
    ¬Acc r a ↔ ∃ b, Relation.ReflTransGen r b a ∧ Relation.TransGen r b b := by
  constructor
  · intro h
    by_contra hno
    push Not at hno
    refine h ((Set.WellFoundedOn.acc_iff_wellFoundedOn.out 0 1).2 ?_)
    rw [Set.wellFoundedOn_iff]
    let r' : α → α → Prop := fun b c =>
      r b c ∧ Relation.ReflTransGen r b a ∧ Relation.ReflTransGen r c a
    have hirrefl : Std.Irrefl (Relation.TransGen r') := ⟨fun b hb => by
      obtain ⟨c, hbc, -⟩ := Relation.TransGen.head'_iff.1 hb
      exact hno b hbc.2.1
        (Relation.TransGen.mono (fun _ _ h => h.1) b b hb)⟩
    have hfounded : WellFounded r' :=
      Subrelation.wf (fun hbc => Relation.TransGen.single hbc)
        (Finite.wellFounded_of_trans_of_irrefl (Relation.TransGen r'))
    exact hfounded
  · rintro ⟨b, hreach, hcycle⟩ hacc
    have hb : Acc (Relation.TransGen r) b := by
      rcases Relation.reflTransGen_iff_eq_or_transGen.1 hreach with rfl | hlt
      · exact hacc.transGen
      · exact hacc.transGen.inv hlt
    induction hb with
    | intro b _ ih => exact ih b hcycle hreach hcycle

end Autofork.Lib.Peel
