/-
Programs of atomic operations: a handler's code as a tree of the
operations it performs, one child for each result an operation can
return. A machine says what each operation does to the shared state;
how the operations of several programs interleave is the system's
affair.

Reasoning about one program among others comes as an `Outline`: what
the program does next is bounded by what the log of the system records.
Where other programs may run is a parameter. In the free discipline
that is before every operation, and an outline may rest only on what
the log, which never shrinks, keeps saying. Under a discipline that
yields at awaits only, an outline may also rest on what nobody has
logged since the last await, and hands over at each of them whatever
the discipline's invariant promises.

A program run by itself is `alone`; `trace` is what it then does.
-/
import Mathlib.Data.List.Infix

namespace Autofork.Lib

/-- A program: finished, or an operation and what to do with its
result. -/
inductive Prog (Op : Type) (Res : Op → Type) (α : Type) where
  | ret (a : α)
  | call (op : Op) (k : Res op → Prog Op Res α)

namespace Prog

variable {Op : Type} {Res : Op → Type} {α β : Type}

-- ======================================================== composition

/-- Run `p`, then `f` on what it returns. -/
def bind : Prog Op Res α → (α → Prog Op Res β) → Prog Op Res β
  | .ret a, f => f a
  | .call op k, f => .call op fun r => (k r).bind f

instance : Monad (Prog Op Res) where
  pure := .ret
  bind := bind

/-- The program that performs one operation. -/
def perform (op : Op) : Prog Op Res (Res op) := .call op .ret

theorem call_bind (op : Op) (k : Res op → Prog Op Res α)
    (f : α → Prog Op Res β) :
    .call op k >>= f = .call op fun r => k r >>= f := rfl

-- ================================================= what a program does

/-- Every operation the program can come to satisfies `P`. -/
def Every (P : Op → Prop) : Prog Op Res α → Prop
  | .ret _ => True
  | .call op k => P op ∧ ∀ r, (k r).Every P

theorem Every.bind {P : Op → Prop} {p : Prog Op Res α}
    {f : α → Prog Op Res β} (hp : p.Every P) (hf : ∀ a, (f a).Every P) :
    (p >>= f).Every P := by
  induction p with
  | ret a => exact hf a
  | call op k ih => exact ⟨hp.1, fun r => ih r (hp.2 r)⟩

theorem Every.mono {P P' : Op → Prop} (h : ∀ op, P op → P' op)
    {p : Prog Op Res α} (hp : p.Every P) : p.Every P' := by
  induction p with
  | ret a => trivial
  | call op k ih => exact ⟨h op hp.1, fun r => ih r (hp.2 r)⟩

/-- Whatever the operations return, the program returns what satisfies
`Q`. -/
def Returns (Q : α → Prop) : Prog Op Res α → Prop
  | .ret a => Q a
  | .call _ k => ∀ r, (k r).Returns Q

theorem returns_true (p : Prog Op Res α) : p.Returns fun _ => True := by
  induction p with
  | ret a => trivial
  | call op k ih => exact ih

theorem Returns.bind {P : α → Prop} {Q : β → Prop} {p : Prog Op Res α}
    {f : α → Prog Op Res β} (hp : p.Returns P)
    (hf : ∀ a, P a → (f a).Returns Q) : (p >>= f).Returns Q := by
  induction p with
  | ret a => exact hf a hp
  | call op k ih => exact fun r => ih r (hp r)

/-- What comes after a program of which nothing is known. -/
theorem Returns.after {Q : β → Prop} {p : Prog Op Res α}
    {f : α → Prog Op Res β} (hf : ∀ a, (f a).Returns Q) :
    (p >>= f).Returns Q :=
  (returns_true p).bind fun a _ => hf a

-- ========================================================= commitment

section commit

variable {mark mid last : Op → Prop}

/-- The program performs at most one operation that is marked, and
returns what satisfies `Y` exactly when it does. Before it come only
operations in `mid`, after it only ones in `last`. -/
def Commits (mark mid last : Op → Prop) (Y : α → Prop) :
    Prog Op Res α → Prop
  | .ret a => ¬Y a
  | .call op k =>
      (mark op ∧ ∀ r, (k r).Every last ∧ (k r).Returns Y)
        ∨ (¬mark op ∧ mid op ∧ ∀ r, (k r).Commits mark mid last Y)

/-- A program without marked operations commits to nothing. -/
theorem Every.commits {Y : α → Prop} {p : Prog Op Res α}
    (hp : p.Every fun op => ¬mark op ∧ mid op) (hY : ∀ a, ¬Y a) :
    p.Commits mark mid last Y := by
  induction p with
  | ret a => exact hY a
  | call op k ih => exact .inr ⟨hp.1.1, hp.1.2, fun r => ih r (hp.2 r)⟩

theorem Commits.bind {Y : α → Prop} {Z : β → Prop} {p : Prog Op Res α}
    {f : α → Prog Op Res β} (hp : p.Commits mark mid last Y)
    (hyes : ∀ a, Y a → (f a).Every last ∧ (f a).Returns Z)
    (hno : ∀ a, ¬Y a → (f a).Commits mark mid last Z) :
    (p >>= f).Commits mark mid last Z := by
  induction p with
  | ret a => exact hno a hp
  | call op k ih =>
      rcases hp with ⟨hmark, hk⟩ | ⟨hmark, hmid, hk⟩
      · refine .inl ⟨hmark, fun r => ⟨?_, ?_⟩⟩
        · -- the rest of `p` is over once `f` begins
          have hrest : ∀ q : Prog Op Res α, q.Every last → q.Returns Y →
              (q >>= f).Every last := by
            intro q hq hY
            induction q with
            | ret a => exact (hyes a hY).1
            | call op k ih => exact ⟨hq.1, fun r => ih r (hq.2 r) (hY r)⟩
          exact hrest _ (hk r).1 (hk r).2
        · exact (hk r).2.bind fun a ha => (hyes a ha).2
      · exact .inr ⟨hmark, hmid, fun r => ih r (hk r)⟩

end commit

-- =========================================================== outlines

section outline

variable {ω : Type}

/-- Where other programs may run, and what then holds of the log. -/
structure Discipline (Op : Type) (ω : Type) where
  yields : Op → Bool
  inv : List ω → Prop

/-- Other programs may run anywhere, and nothing is agreed. -/
def Discipline.free : Discipline Op ω := ⟨fun _ => true, fun _ => True⟩

/-- The logs an operation may find when its program has left the log at
`l`. -/
def Discipline.Drift (D : Discipline Op ω) (op : Op) (l l₁ : List ω) :
    Prop :=
  if D.yields op then l <:+ l₁ ∧ D.inv l₁ else l₁ = l

/-- What an operation asks of the log, and what it tells: the log it
found, its result, the log it leaves. -/
structure Contract (Op : Type) (Res : Op → Type) (ω : Type) where
  pre : List ω → Op → Prop
  post : List ω → (op : Op) → Res op → List ω → Prop

/-- A condition on the log that further entries do not falsify. -/
def Stable (P : List ω → Prop) : Prop :=
  ∀ ⦃l l' : List ω⦄, l <:+ l' → P l → P l'

/-- From log `l` on, the program performs operations only when their
precondition holds, keeps to the discipline, and returns only what
satisfies `R`. -/
def Outline (D : Discipline Op ω) (C : Contract Op Res ω)
    (R : List ω → α → Prop) : Prog Op Res α → List ω → Prop
  | .ret a, l => R l a
  | .call op k, l =>
      (D.yields op = true → D.inv l) ∧ ∀ l₁, D.Drift op l l₁ →
        C.pre l₁ op ∧ ∀ r l', l₁ <:+ l' → C.post l₁ op r l' →
          Outline D C R (k r) l'

variable {D : Discipline Op ω} {C : Contract Op Res ω}

theorem Discipline.Drift.suffix {op : Op} {l l₁ : List ω}
    (h : D.Drift op l l₁) : l <:+ l₁ := by
  unfold Drift at h
  split at h
  · exact h.1
  · rw [h]

/-- Sequencing: the second program starts from whatever the first has
established by the time it returns. -/
theorem Outline.bind {Q : List ω → α → Prop} {R : List ω → β → Prop}
    {p : Prog Op Res α} {f : α → Prog Op Res β} {l : List ω}
    (hp : Outline D C Q p l)
    (hf : ∀ l' a, l <:+ l' → Q l' a → Outline D C R (f a) l') :
    Outline D C R (p >>= f) l := by
  induction p generalizing l with
  | ret a => exact hf l a (List.suffix_refl l) hp
  | call op k ih =>
      refine ⟨hp.1, fun l₁ hd => ⟨(hp.2 l₁ hd).1, fun r l' hl hpost => ?_⟩⟩
      refine ih r ((hp.2 l₁ hd).2 r l' hl hpost) fun l'' a hl' hQ => ?_
      exact hf l'' a ((hd.suffix.trans hl).trans hl') hQ

theorem Outline.mono {Q R : List ω → α → Prop} {p : Prog Op Res α}
    {l : List ω} (h : ∀ l' a, l <:+ l' → Q l' a → R l' a)
    (hp : Outline D C Q p l) : Outline D C R p l := by
  induction p generalizing l with
  | ret a => exact h l a (List.suffix_refl l) hp
  | call op k ih =>
      refine ⟨hp.1, fun l₁ hd => ⟨(hp.2 l₁ hd).1, fun r l' hl hpost => ?_⟩⟩
      refine ih r (fun l'' a hl' hQ => ?_) ((hp.2 l₁ hd).2 r l' hl hpost)
      exact h l'' a ((hd.suffix.trans hl).trans hl') hQ

/-- An assertion that every operation of the program preserves, and
that survives where it yields, holds when it returns. -/
theorem Every.outline {P : Op → Prop} {A : List ω → Prop} {Q : α → Prop}
    (hop : ∀ l op, P op → A l → C.pre l op ∧ ∀ r l', l <:+ l' →
      C.post l op r l' → A l')
    (hyield : ∀ l op, P op → D.yields op = true → A l →
      D.inv l ∧ ∀ l₁, l <:+ l₁ → D.inv l₁ → A l₁)
    {p : Prog Op Res α} (hp : p.Every P) (hq : p.Returns Q) {l : List ω}
    (hl : A l) : Outline D C (fun l a => A l ∧ Q a) p l := by
  induction p generalizing l with
  | ret a => exact ⟨hl, hq⟩
  | call op k ih =>
      refine ⟨fun hy => (hyield l op hp.1 hy hl).1, fun l₁ hd => ?_⟩
      have hl₁ : A l₁ := by
        unfold Discipline.Drift at hd
        split at hd
        next hy => exact (hyield l op hp.1 hy hl).2 l₁ hd.1 hd.2
        next => exact hd ▸ hl
      obtain ⟨hpre, hpost⟩ := hop l₁ op hp.1 hl₁
      exact ⟨hpre, fun r l' hs h => ih r (hp.2 r) (hq r) (hpost r l' hs h)⟩

end outline

-- =============================================================== alone

section alone

variable {σ : Type} (exec : (op : Op) → σ → Option (σ × Res op))

/-- The program run by itself: where it leaves the state, and what it
returns, unless some operation is not enabled. -/
def alone : Prog Op Res α → σ → Option (σ × α)
  | .ret a, s => some (s, a)
  | .call op k, s => match exec op s with
    | none => none
    | some (s', r) => (k r).alone s'

/-- The operations the program performs when it is run by itself, in
order, each with its result. -/
def trace : Prog Op Res α → σ → List ((op : Op) × Res op)
  | .ret _, _ => []
  | .call op k, s => match exec op s with
    | none => []
    | some (s', r) => ⟨op, r⟩ :: (k r).trace s'

variable {exec}

theorem alone_bind {p : Prog Op Res α} {f : α → Prog Op Res β} {s s' : σ}
    {b : β} (h : (p >>= f).alone exec s = some (s', b)) :
    ∃ s₁ a, p.alone exec s = some (s₁, a)
      ∧ (f a).alone exec s₁ = some (s', b) := by
  induction p generalizing s with
  | ret a => exact ⟨s, a, rfl, h⟩
  | call op k ih =>
      rw [call_bind, alone] at h
      cases hop : exec op s with
      | none =>
          rw [hop] at h
          cases h
      | some sr =>
          obtain ⟨s₁, r⟩ := sr
          rw [hop] at h
          obtain ⟨s₂, a, hp, hf⟩ := ih r h
          exact ⟨s₂, a, by simpa [alone, hop] using hp, hf⟩

/-- Sequencing, when the first program runs through. -/
theorem alone_bind_of {p : Prog Op Res α} {f : α → Prog Op Res β} {s s₁ : σ}
    {a : α} (h : p.alone exec s = some (s₁, a)) :
    (p >>= f).alone exec s = (f a).alone exec s₁ := by
  induction p generalizing s with
  | ret b =>
      cases h
      rfl
  | call op k ih =>
      rw [alone] at h
      rw [call_bind, alone]
      cases hop : exec op s with
      | none =>
          rw [hop] at h
          cases h
      | some sr =>
          rw [hop] at h
          exact ih sr.2 h

theorem trace_bind_of {p : Prog Op Res α} {f : α → Prog Op Res β} {s s₁ : σ}
    {a : α} (h : p.alone exec s = some (s₁, a)) :
    (p >>= f).trace exec s = p.trace exec s ++ (f a).trace exec s₁ := by
  induction p generalizing s with
  | ret b =>
      cases h
      rfl
  | call op k ih =>
      rw [alone] at h
      rw [call_bind, trace, trace]
      cases hop : exec op s with
      | none =>
          rw [hop] at h
          cases h
      | some sr =>
          rw [hop] at h
          dsimp only
          rw [ih sr.2 h]
          rfl

end alone

end Prog

end Autofork.Lib
