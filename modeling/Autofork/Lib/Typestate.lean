/-
Programs under a typestate: what is known of the shared state while a
program runs without interruption, as a value that each operation moves.

A typestate says in which states an operation may be performed and what
is known once it has returned. A program is `Typed` when it performs
operations only where it may, whatever they return. What the states mean
of the machine is the machine's affair: it is enough that each operation
keeps their meaning.
-/
import Autofork.Lib.Prog

namespace Autofork.Lib.Prog

/-- What is known, and how operations change it. -/
structure Typestate (Op : Type) (Res : Op → Type) (σ : Type) where
  /-- Here the operation may be performed. -/
  ok : σ → Op → Prop
  /-- What is known once it has returned. -/
  next : σ → (op : Op) → Res op → σ
  /-- What the operation can return here. -/
  valid : σ → (op : Op) → Res op → Prop := fun _ _ _ => True
  /-- Here others may go on. -/
  rests : σ → Prop := fun _ => True

variable {Op : Type} {Res : Op → Type} {α β σ : Type}
  {T : Typestate Op Res σ}

/-- The program performs operations only where it may, and returns where
`Q` holds. -/
def Typed (T : Typestate Op Res σ) (Q : σ → α → Prop) :
    σ → Prog Op Res α → Prop
  | m, .ret a => Q m a
  | m, .call op k =>
      T.ok m op ∧ ∀ r, T.valid m op r → (k r).Typed T Q (T.next m op r)
termination_by structural _ p => p

theorem Typed.bind {Q : σ → α → Prop} {Q' : σ → β → Prop} {m : σ}
    {p : Prog Op Res α} {f : α → Prog Op Res β} (hp : p.Typed T Q m)
    (hf : ∀ m a, Q m a → (f a).Typed T Q' m) : (p >>= f).Typed T Q' m := by
  induction p generalizing m with
  | ret a => exact hf m a hp
  | call op k ih => exact ⟨hp.1, fun r hr => ih r (hp.2 r hr)⟩

theorem Typed.mono {Q Q' : σ → α → Prop} (h : ∀ m a, Q m a → Q' m a)
    {m : σ} {p : Prog Op Res α} (hp : p.Typed T Q m) : p.Typed T Q' m := by
  induction p generalizing m with
  | ret a => exact h m a hp
  | call op k ih => exact ⟨hp.1, fun r hr => ih r (hp.2 r hr)⟩

/-- What a program returns in any case it returns here. -/
theorem Typed.returning {Q : σ → α → Prop} {R : α → Prop} {m : σ}
    {p : Prog Op Res α} (hp : p.Typed T Q m) (hr : p.Returns R) :
    p.Typed T (fun m a => Q m a ∧ R a) m := by
  induction p generalizing m with
  | ret a => exact ⟨hp, hr⟩
  | call op k ih => exact ⟨hp.1, fun r h => ih r (hp.2 r h) (hr r)⟩

/-- Operations that may be performed wherever `I` holds, and keep it. -/
theorem Every.typed {I : σ → Prop} {m : σ} (hm : I m) {p : Prog Op Res α}
    (hp : p.Every fun op => ∀ m, I m →
      T.ok m op ∧ ∀ r, T.valid m op r → I (T.next m op r)) :
    p.Typed T (fun m _ => I m) m := by
  induction p generalizing m with
  | ret a => exact hm
  | call op k ih =>
      obtain ⟨hok, hnext⟩ := hp.1 m hm
      exact ⟨hok, fun r hr => ih r (hnext r hr) (hp.2 r)⟩

end Autofork.Lib.Prog
