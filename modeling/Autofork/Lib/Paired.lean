/-
Two programs side by side: each performs what the other does, operation
by operation, whatever related results the two are given.

The programs need not be the same: an operation of one may stand for a
different one of the other, `Twins` says which, and what then counts as
the same result. That may depend on what the two sides have come to
call the same, an index which only grows.
-/
import Autofork.Lib.Typestate
import Mathlib.Order.Basic

namespace Autofork.Lib.Prog

variable {Op : Type} {Res : Op → Type} {ι : Type} [Preorder ι]

/-- The operations that stand for one another, each pair with the
results that do. -/
abbrev Twins (Op : Type) (Res : Op → Type) (ι : Type) :=
  ι → (op op' : Op) → (ι → Res op → Res op' → Prop) → Prop

variable {α β α' β' : Type} {T : Twins Op Res ι}

/-- The programs go along with one another, and return what `Q`
relates. -/
def Paired (T : Twins Op Res ι) (Q : α → α' → Prop) :
    Prog Op Res α → ι → Prog Op Res α' → Prop
  | .ret a, _, q => ∃ a', q = .ret a' ∧ Q a a'
  | .call op k, i, q => ∃ op' k' S, q = .call op' k' ∧ T i op op' S
      ∧ ∀ j, i ≤ j → ∀ r r', S j r r' → (k r).Paired T Q j (k' r')

variable {Q : α → α' → Prop} {i j : ι}

theorem paired_ret {a : α} {a' : α'} (h : Q a a') :
    Paired T Q (.ret a) i (.ret a') := ⟨a', rfl, h⟩

/-- One pair of operations, and what comes after. -/
theorem Twins.then {op op' : Op} {S : ι → Res op → Res op' → Prop}
    (h : T i op op' S) {k : Res op → Prog Op Res α}
    {k' : Res op' → Prog Op Res α'}
    (hk : ∀ j, i ≤ j → ∀ r r', S j r r' → (k r).Paired T Q j (k' r')) :
    Paired T Q (.call op k) i (.call op' k') :=
  ⟨op', k', S, rfl, h, hk⟩

theorem Paired.mono {Q' : α → α' → Prop} (h : ∀ a a', Q a a' → Q' a a')
    {p : Prog Op Res α} {q : Prog Op Res α'} (hp : p.Paired T Q i q) :
    p.Paired T Q' i q := by
  induction p generalizing i q with
  | ret a =>
      obtain ⟨a', rfl, ha⟩ := hp
      exact paired_ret (h a a' ha)
  | call op k ih =>
      obtain ⟨op', k', S, rfl, hop, hk⟩ := hp
      exact ⟨op', k', S, rfl, hop, fun j hj r r' hr => ih r (hk j hj r r' hr)⟩

theorem Paired.bind {Q' : β → β' → Prop} {p : Prog Op Res α}
    {q : Prog Op Res α'} {f : α → Prog Op Res β} {g : α' → Prog Op Res β'}
    (hp : p.Paired T Q i q)
    (hf : ∀ j, i ≤ j → ∀ a a', Q a a' → (f a).Paired T Q' j (g a')) :
    (p >>= f).Paired T Q' i (q >>= g) := by
  induction p generalizing i q with
  | ret a =>
      obtain ⟨a', rfl, ha⟩ := hp
      exact hf i le_rfl a a' ha
  | call op k ih =>
      obtain ⟨op', k', S, rfl, hop, hk⟩ := hp
      refine ⟨op', _, S, rfl, hop, fun j hj r r' hr => ?_⟩
      exact ih r (hk j hj r r' hr) fun j' hj' a a' ha =>
        hf j' (hj.trans hj') a a' ha

/-- Programs that go along still do once more is called the same. -/
theorem Paired.grow (hT : ∀ i j op op' S, i ≤ j → T i op op' S →
      T j op op' S) (hij : i ≤ j) {p : Prog Op Res α} {q : Prog Op Res α'}
    (hp : p.Paired T Q i q) : p.Paired T Q j q := by
  cases p with
  | ret a => exact hp
  | call op k =>
      obtain ⟨op', k', S, rfl, hop, hk⟩ := hp
      exact ⟨op', k', S, rfl, hT _ _ _ _ _ hij hop,
        fun j' hj' => hk j' (hij.trans hj')⟩

/-- A program goes along with itself where each of its operations stands
for itself, with the same results. -/
theorem Typed.paired {σ : Type} {U : Typestate Op Res σ} {R : σ → α → Prop}
    (hT : ∀ m op, U.ok m op → ∀ i,
      T i op op fun _ r r' => r = r' ∧ U.valid m op r)
    {m : σ} {p : Prog Op Res α} (hp : p.Typed U R m) :
    p.Paired T (fun a a' => a = a' ∧ ∃ m, R m a) i p := by
  induction p generalizing i m with
  | ret a => exact ⟨a, rfl, rfl, m, hp⟩
  | call op k ih =>
      refine ⟨op, k, _, rfl, hT m op hp.1 i, fun j _ r r' hr => ?_⟩
      obtain ⟨rfl, hvalid⟩ := hr
      exact ih r (hp.2 r hvalid)

end Autofork.Lib.Prog
