/-
Closing something some time after it was last heard of, by generations.

Visitors arrive and are heard; one that waits may be lost instead. A
loss is noticed, draws a fresh generation, files it as the one pending
entry and starts a timer. A timer that runs down takes the entry if it
is still its own, and then closes. Whoever is heard strikes the entry.
Each of these is a turn of one visitor or timer, and any order of turns
is possible.

Struck entries alone do not keep the living from being closed upon: a
visitor may be heard between a loss and its filing, or be on its way
while a timer takes the entry. `Careful` leaves these turns out, and
then no timer closes while anybody waits (`Attended`), nor on anyone who
arrived after the loss that started it (`Late`).
-/
import Mathlib.Data.Nat.Basic

namespace Autofork.Lib

/-- How far a visitor or a timer has got. -/
inductive Duty
  | fresh
  /-- Arrived, and not heard yet. -/
  | knocking (waits : Bool)
  | heard (waits : Bool)
  | noticed
  | drawn (gen : Nat)
  | filed (gen : Nat)
  | due (gen : Nat)
  | closing (gen : Nat)
  | over
  deriving DecidableEq

namespace Duty

def knocks : Duty → Bool
  | knocking _ => true
  | _ => false

def waits : Duty → Bool
  | knocking w | heard w => w
  | _ => false

/-- A loss that has not been filed. -/
def underway : Duty → Bool
  | noticed | drawn _ => true
  | _ => false

def closes : Duty → Bool
  | closing _ => true
  | _ => false

/-- Lost, or gone. -/
def lost : Duty → Bool
  | .noticed | .drawn _ | .filed _ | .over => true
  | _ => false

/-- A loss that is not filed yet is a loss. -/
theorem lost_of_underway {x : Duty} (h : x.underway = true) :
    x.lost = true := by
  cases x with
  | noticed => rfl
  | drawn n => rfl
  | _ => cases h

/-- Who is lost does not wait. -/
theorem waits_of_lost {x : Duty} (h : x.lost = true) : x.waits = false := by
  cases x with
  | knocking w => cases h
  | heard w => cases h
  | _ => rfl

end Duty

structure Desk where
  duty : Nat → Duty
  pending : Option Nat
  gen : Nat

namespace Desk

/-- A turn: from one's duty, the pending entry and the last generation
drawn to the next. -/
inductive Turn : Duty → Option Nat → Nat → Duty → Option Nat → Nat → Prop
  /-- Elsewhere generations may be drawn. -/
  | stay (x p) {g g'} (h : g ≤ g') : Turn x p g x p g'
  | arrive (w p g) : Turn .fresh p g (.knocking w) p g
  | hear (w p g) : Turn (.knocking w) p g (.heard w) none g
  | lose {x} (h : x.waits = true) (p g) : Turn x p g .noticed p g
  | draw (p g) : Turn .noticed p g (.drawn (g + 1)) p (g + 1)
  | file (n p g) : Turn (.drawn n) p g (.filed n) (some n) g
  | start (n p g) : Turn .fresh p g (.due n) p g
  | take (n g) : Turn (.due n) (some n) g (.closing n) none g
  | leave {x} (h : x.underway = false) (h' : x.knocks = false) (p g) :
      Turn x p g .over p g

/-- One takes a turn, the others stay as they are. -/
structure Step (s s' : Desk) (k : Nat) : Prop where
  turn : Turn (s.duty k) s.pending s.gen (s'.duty k) s'.pending s'.gen
  others : ∀ j, j ≠ k → s'.duty j = s.duty j

def Settled (s : Desk) : Prop := ∀ j, (s.duty j).underway = false

/-- Nobody is heard or lost while a loss is underway. Who is lost is the
only one waiting. A timer takes the entry while no loss is underway and
nobody knocks, and then nobody arrives until it has closed. -/
structure Careful (s s' : Desk) (k : Nat) : Prop where
  hear : (s.duty k).knocks = true → s'.duty k ≠ s.duty k → s.Settled
  lose : (s.duty k).waits = true → s'.duty k = .noticed →
    s.Settled ∧ ∀ j, j ≠ k → (s.duty j).waits = false
  take : (s'.duty k).closes = true → (s.duty k).closes = false →
    s.Settled ∧ ∀ j, (s.duty j).knocks = false
  arrive : s.duty k = .fresh → (s'.duty k).knocks = true →
    ∀ j, (s.duty j).closes = false

-- ============================================================== turns

section turns

variable {x x' : Duty} {p p' : Option Nat} {g g' n : Nat}

/-- Generations only rise. -/
theorem Turn.gen_le (h : Turn x p g x' p' g') : g ≤ g' := by
  cases h <;> omega

/-- Who waits and is heard was heard before, or knocked: then the entry is
struck. -/
theorem Turn.heard (h : Turn x p g x' p' g') (hx : x' = .heard true) :
    x = .heard true ∨ (x = .knocking true ∧ p' = none) := by
  cases h with
  | stay => exact .inl hx
  | hear w =>
      cases hx
      exact .inr ⟨rfl, rfl⟩
  | _ => cases hx

/-- A loss that is underway was so, or somebody waiting is noticed now. -/
theorem Turn.underway (h : Turn x p g x' p' g') (hx : x'.underway = true) :
    x.underway = true ∨ (x.waits = true ∧ x' = .noticed) := by
  cases h with
  | stay => exact .inl hx
  | lose hw => exact .inr ⟨hw, rfl⟩
  | draw => exact .inl rfl
  | _ => cases hx

/-- An entry was there, or is that of a generation that has been drawn. -/
theorem Turn.pending (h : Turn x p g x' p' g') (hp : p' = some n) :
    p = some n ∨ x = .drawn n := by
  cases h with
  | hear => cases hp
  | take => cases hp
  | file m =>
      cases hp
      exact .inr rfl
  | _ => exact .inl hp

/-- Who closes did, or takes the entry now. -/
theorem Turn.closes (h : Turn x p g x' p' g') (hx : x' = .closing n) :
    x = .closing n ∨ (p = some n ∧ p' = none ∧ x.closes = false) := by
  cases h with
  | stay => exact .inl hx
  | take m =>
      cases hx
      exact .inr ⟨rfl, rfl, rfl⟩
  | _ => cases hx

/-- A generation that is drawn now is newer than all before. -/
theorem Turn.drawn (h : Turn x p g x' p' g') (hx : x' = .drawn n) :
    x = .drawn n ∨ (g < n ∧ n ≤ g') := by
  cases h with
  | stay => exact .inl hx
  | draw =>
      cases hx
      exact .inr ⟨Nat.lt_succ_self g, Nat.le_refl _⟩
  | _ => cases hx

/-- What is filed has been drawn. -/
theorem Turn.filed (h : Turn x p g x' p' g') (hx : x' = .filed n) :
    x = .filed n ∨ x = .drawn n := by
  cases h with
  | stay => exact .inl hx
  | file m =>
      cases hx
      exact .inr rfl
  | _ => cases hx

/-- Who waits did, or has arrived. -/
theorem Turn.waits (h : Turn x p g x' p' g') (hx : x'.waits = true) :
    x.waits = true ∨ (x = .fresh ∧ x'.knocks = true) := by
  cases h with
  | stay => exact .inl hx
  | arrive => exact .inr ⟨rfl, rfl⟩
  | hear => exact .inl hx
  | _ => cases hx

/-- One who knocks is heard or lost next. -/
theorem Turn.knocks (h : Turn x p g x' p' g') (hx : x.knocks = true) :
    x' = x ∨ (∃ w, x' = .heard w ∧ p' = none) ∨ x' = .noticed := by
  cases h with
  | stay => exact .inl rfl
  | hear w => exact .inr (.inl ⟨w, rfl, rfl⟩)
  | lose => exact .inr (.inr rfl)
  | leave _ hk =>
      rw [hx] at hk
      cases hk
  | _ => cases hx

/-- A loss goes on until it is filed. -/
theorem Turn.underway_next (h : Turn x p g x' p' g')
    (hx : x.underway = true) :
    x'.underway = true ∨ ∃ n, x = .drawn n ∧ x' = .filed n ∧ p' = some n := by
  cases h with
  | stay => exact .inl hx
  | lose => exact .inl rfl
  | draw => exact .inl rfl
  | file n => exact .inr ⟨n, rfl, rfl, rfl⟩
  | leave hu =>
      rw [hx] at hu
      cases hu
  | _ => cases hx

/-- Who is lost stays lost. -/
theorem Turn.lost (h : Turn x p g x' p' g') (hx : x.lost = true) :
    x'.lost = true := by
  cases h with
  | stay => exact hx
  | lose => rfl
  | draw => rfl
  | file => rfl
  | leave => rfl
  | _ => cases hx

end turns

variable {s s' : Desk} {k : Nat}

-- ======================================================= who is waiting

/-- Nobody who has been heard waits while there is an entry or a loss on
its way to one, and nobody at all while a timer closes. -/
structure Attended (s : Desk) : Prop where
  gens : ∀ j g, s.duty j = .drawn g ∨ s.duty j = .filed g → g ≤ s.gen
  underway : ∀ i j, (s.duty i).underway = true → s.duty j ≠ .heard true
  pending : ∀ g j, s.pending = some g → s.duty j ≠ .heard true
  closing : ∀ i j g, s.duty i = .closing g → (s.duty j).waits = false

/-- A property of duties after a step, if it held of them before and the
turn keeps it. -/
private theorem Step.of_duty {P : Duty → Prop} (h : s.Step s' k) {j : Nat}
    (hj : P (s'.duty j)) : P (s.duty j) ∨ (j = k ∧ P (s'.duty k)) := by
  by_cases hjk : j = k
  · exact .inr ⟨hjk, hjk ▸ hj⟩
  · rw [h.others j hjk] at hj
    exact .inl hj

/-- Who has been heard was heard before the step, or knocked and is heard
by it. -/
private theorem heard_step (h : s.Step s' k) {j : Nat}
    (hj : s'.duty j = .heard true) : s.duty j = .heard true
      ∨ (j = k ∧ s.duty k = .knocking true ∧ s'.duty k = .heard true
        ∧ s'.pending = none) := by
  rcases h.of_duty (P := (· = .heard true)) hj with hj | ⟨rfl, hk⟩
  · exact .inl hj
  · rcases h.turn.heard hk with hk' | ⟨hk', hp⟩
    · exact .inl hk'
    · exact .inr ⟨rfl, hk', hk, hp⟩

/-- A loss underway after the step was so before, or begins with it. -/
private theorem underway_step (h : s.Step s' k) {i : Nat}
    (hi : (s'.duty i).underway = true) : (s.duty i).underway = true
      ∨ (i = k ∧ (s.duty k).waits = true ∧ s'.duty k = .noticed) := by
  rcases h.of_duty (P := (·.underway = true)) hi with hi | ⟨rfl, hk⟩
  · exact .inl hi
  · exact (h.turn.underway hk).imp_right fun hk => ⟨rfl, hk⟩

/-- A timer that closes after the step did before, or takes the entry. -/
private theorem closing_step (h : s.Step s' k) {i n : Nat}
    (hi : s'.duty i = .closing n) : s.duty i = .closing n
      ∨ (i = k ∧ s.pending = some n ∧ (s.duty k).closes = false) := by
  rcases h.of_duty (P := (· = .closing n)) hi with hi | ⟨rfl, hk⟩
  · exact .inl hi
  · rcases h.turn.closes hk with hk | ⟨hp, -, hk⟩
    · exact .inl hk
    · exact .inr ⟨rfl, hp, hk⟩

private theorem waits_step (h : s.Step s' k) {j : Nat}
    (hj : (s'.duty j).waits = true) : (s.duty j).waits = true
      ∨ (j = k ∧ s.duty k = .fresh ∧ (s'.duty k).knocks = true) := by
  rcases h.of_duty (P := (·.waits = true)) hj with hj | ⟨rfl, hk⟩
  · exact .inl hj
  · exact (h.turn.waits hk).imp_right fun hk => ⟨rfl, hk⟩

/-- A generation drawn by the step is above those before. -/
private theorem drawn_step (h : s.Step s' k) {i n : Nat}
    (hi : s'.duty i = .drawn n) : s.duty i = .drawn n ∨ s.gen < n := by
  rcases h.of_duty (P := (· = .drawn n)) hi with hi | ⟨rfl, hk⟩
  · exact .inl hi
  · exact (h.turn.drawn hk).imp_right And.left

/-- A careful step leaves nobody waiting unattended. -/
theorem Attended.step (h : s.Attended) (hstep : s.Step s' k)
    (hcare : s.Careful s' k) : s'.Attended where
  -- what is drawn now is not above the last one
  gens j n hn := by
    have hle := hstep.turn.gen_le
    rcases hstep.of_duty (P := fun x => x = .drawn n ∨ x = .filed n) hn with
      hn | ⟨rfl, hn | hn⟩
    · exact Nat.le_trans (h.gens j n hn) hle
    · rcases hstep.turn.drawn hn with hn | ⟨-, hn⟩
      · exact Nat.le_trans (h.gens j n (.inl hn)) hle
      · exact hn
    · rcases hstep.turn.filed hn with hn | hn
      · exact Nat.le_trans (h.gens j n (.inr hn)) hle
      · exact Nat.le_trans (h.gens j n (.inl hn)) hle
  underway i j hi hj := by
    rcases heard_step hstep hj with hj' | ⟨rfl, hknock, hheard, -⟩
    · rcases underway_step hstep hi with hi | ⟨rfl, hwaits, hnoticed⟩
      · exact h.underway i j hi hj'
      · -- the one who is lost is the only one waiting
        by_cases hji : j = i
        · subst hji
          rw [hnoticed] at hj
          cases hj
        · have hnot := (hcare.lose hwaits hnoticed).2 j hji
          rw [hj'] at hnot
          cases hnot
    · have hsettled := hcare.hear (by rw [hknock]; rfl)
        (by rw [hknock, hheard]; simp)
      rcases underway_step hstep hi with hi | ⟨-, -, hnoticed⟩
      · rw [hsettled i] at hi
        cases hi
      · rw [hheard] at hnoticed
        cases hnoticed
  pending n j hn hj := by
    rcases heard_step hstep hj with hj' | ⟨-, -, -, hnone⟩
    · rcases hstep.turn.pending hn with hn | hdrawn
      · exact h.pending n j hn hj'
      · exact h.underway k j (by rw [hdrawn]; rfl) hj'
    · rw [hn] at hnone
      cases hnone
  closing i j n hi := by
    rw [Bool.eq_false_iff]
    intro hj
    rcases closing_step hstep hi with hi | ⟨rfl, hpending, hnot⟩
    · -- while a timer closes nobody arrives
      rcases waits_step hstep hj with hj | ⟨rfl, hfresh, hknocks⟩
      · rw [h.closing i j n hi] at hj
        cases hj
      · have hopen := hcare.arrive hfresh hknocks i
        rw [hi] at hopen
        cases hopen
    · -- a timer takes the entry while nobody knocks
      have hquiet := (hcare.take (by rw [hi]; rfl) hnot).2
      rcases waits_step hstep hj with hj' | ⟨rfl, -, hknocks⟩
      · cases hd : s.duty j with
        | knocking w =>
            have hq := hquiet j
            rw [hd] at hq
            cases hq
        | heard w =>
            rw [hd] at hj'
            cases hj'
            exact h.pending n j hpending hd
        | _ =>
            rw [hd] at hj'
            cases hj'
      · rw [hi] at hknocks
        cases hknocks

-- ======================================================= who came later

/-- Where generation `g` stands once `r` has arrived after it: no timer
closes for it while `r` is on its way or being filed, nor afterwards. -/
inductive Late (g r : Nat) (s : Desk) : Prop
  | knocks (hgen : g ≤ s.gen) (hr : (s.duty r).knocks = true)
      (hopen : ∀ i, (s.duty i).closes = false)
  | refiled (hgen : g ≤ s.gen) (hr : (s.duty r).underway = true)
      (hopen : ∀ i, (s.duty i).closes = false)
      (hdrawn : ∀ i n, s.duty i = .drawn n → g < n)
  | struck (hgen : g ≤ s.gen) (hpending : ∀ n, s.pending = some n → g < n)
      (hdrawn : ∀ i n, s.duty i = .drawn n → g < n)
      (hclosing : ∀ i n, s.duty i = .closing n → g < n)

/-- No timer closes for a generation that somebody came later than. -/
theorem Late.not_closing {g r : Nat} (h : s.Late g r) (i : Nat) :
    s.duty i ≠ .closing g := by
  intro hi
  cases h with
  | knocks _ _ hopen =>
      have := hopen i
      rw [hi] at this
      cases this
  | refiled _ _ hopen _ =>
      have := hopen i
      rw [hi] at this
      cases this
  | struck _ _ _ hclosing => exact Nat.lt_irrefl g (hclosing i g hi)

/-- No timer takes the entry while somebody knocks or a loss is
underway. -/
private theorem open_step {r : Nat} (hstep : s.Step s' k)
    (hcare : s.Careful s' k)
    (hr : (s.duty r).knocks = true ∨ (s.duty r).underway = true)
    (hopen : ∀ i, (s.duty i).closes = false) (i : Nat) :
    (s'.duty i).closes = false := by
  rw [Bool.eq_false_iff]
  intro hi
  rcases hstep.of_duty (P := (·.closes = true)) hi with hi | ⟨rfl, hk⟩
  · rw [hopen i] at hi
    cases hi
  · obtain ⟨hsettled, hquiet⟩ := hcare.take hk (hopen i)
    rcases hr with hr | hr
    · rw [hquiet r] at hr
      cases hr
    · rw [hsettled r] at hr
      cases hr

/-- Where nothing is underway no generation is drawn and not filed. -/
private theorem Settled.not_drawn (h : s.Settled) {i n : Nat} :
    s.duty i ≠ .drawn n := by
  intro hi
  have := h i
  rw [hi] at this
  cases this

/-- Once later than a generation, always later. -/
theorem Late.step {g r : Nat} (h : s.Late g r) (hstep : s.Step s' k)
    (hcare : s.Careful s' k) : s'.Late g r := by
  have hle := hstep.turn.gen_le
  -- generations are drawn upwards
  have hup : g ≤ s.gen → (∀ i n, s.duty i = .drawn n → g < n) →
      ∀ i n, s'.duty i = .drawn n → g < n := fun hgen hdrawn i n hi =>
    (drawn_step hstep hi).elim (hdrawn i n) (Nat.lt_of_le_of_lt hgen)
  cases h with
  -- `r` knocks still, or is heard, or is lost at once
  | knocks hgen hr hopen =>
      have hopen' := open_step hstep hcare (.inl hr) hopen
      by_cases hsame : s'.duty r = s.duty r
      · exact .knocks (Nat.le_trans hgen hle) (by rw [hsame]; exact hr) hopen'
      · obtain rfl : r = k := by
          by_contra hrk
          exact hsame (hstep.others r hrk)
        have hsettled := hcare.hear hr hsame
        have hdrawn := hup hgen fun i n hi => absurd hi hsettled.not_drawn
        rcases hstep.turn.knocks hr with hstay | ⟨w, hheard, hnone⟩ | hnoticed
        · exact absurd hstay hsame
        · refine .struck (Nat.le_trans hgen hle) (fun n hn => ?_) hdrawn
            fun i n hi => ?_
          · rw [hnone] at hn
            cases hn
          · have := hopen' i
            rw [hi] at this
            cases this
        · exact .refiled (Nat.le_trans hgen hle) (by rw [hnoticed]; rfl) hopen'
            hdrawn
  -- `r`'s own loss is filed under a later generation
  | refiled hgen hr hopen hdrawn =>
      have hopen' := open_step hstep hcare (.inr hr) hopen
      by_cases hrk : r = k
      · subst hrk
        rcases hstep.turn.underway_next hr with hr' | ⟨n, hn, -, hfiled⟩
        · exact .refiled (Nat.le_trans hgen hle) hr' hopen' (hup hgen hdrawn)
        · refine .struck (Nat.le_trans hgen hle) (fun m hm => ?_)
            (hup hgen hdrawn) fun i m hi => ?_
          · rw [hfiled] at hm
            cases hm
            exact hdrawn r n hn
          · have := hopen' i
            rw [hi] at this
            cases this
      · exact .refiled (Nat.le_trans hgen hle) (by rw [hstep.others r hrk]; exact hr)
          hopen' (hup hgen hdrawn)
  -- whatever is filed from now on is later
  | struck hgen hpending hdrawn hclosing =>
      refine .struck (Nat.le_trans hgen hle) (fun n hn => ?_) (hup hgen hdrawn)
        fun i n hi => ?_
      · rcases hstep.turn.pending hn with hn | hn
        · exact hpending n hn
        · exact hdrawn k n hn
      · rcases closing_step hstep hi with hi | ⟨-, hp, -⟩
        · exact hclosing i n hi
        · exact hpending n hp

/-- Visitor `k` has been lost, and `r` has arrived since: whatever timer
`k` starts, `r` comes after it. -/
structure Outlived (k r : Nat) (s : Desk) : Prop where
  lost : (s.duty k).lost = true
  late : ((s.duty r).knocks = true ∧ ∀ i, (s.duty i).closes = false)
    ∨ ((s.duty k).underway = false ∧ ∀ g, s.duty k = .filed g → s.Late g r)

/-- Once the loss is filed, the other has arrived after its generation. -/
theorem Outlived.late_of_filed {k r g : Nat} (h : s.Outlived k r)
    (hattended : s.Attended) (hk : s.duty k = .filed g) : s.Late g r := by
  rcases h.late with ⟨hr, hopen⟩ | ⟨-, hlate⟩
  · exact .knocks (hattended.gens k g (.inr hk)) hr hopen
  · exact hlate g hk

/-- Who has arrived after a loss has arrived after it for good. -/
theorem Outlived.step {j r : Nat} (h : s.Outlived j r)
    (hattended : s.Attended) (hstep : s.Step s' k) (hcare : s.Careful s' k) :
    s'.Outlived j r where
  lost := by
    by_cases hjk : j = k
    · subst hjk
      exact hstep.turn.lost h.lost
    · rw [hstep.others j hjk]
      exact h.lost
  late := by
    -- once no loss of `j` is underway, what it has filed stays behind
    have hsettle : (s.duty j).underway = false →
        (∀ g, s.duty j = .filed g → s.Late g r) →
        (s'.duty j).underway = false
          ∧ ∀ g, s'.duty j = .filed g → s'.Late g r := by
      intro hnot hlate
      by_cases hjk : j = k
      · subst hjk
        constructor
        · rw [Bool.eq_false_iff]
          intro hu
          rcases hstep.turn.underway hu with hu | ⟨hw, -⟩
          · rw [hnot] at hu
            cases hu
          · rw [Duty.waits_of_lost h.lost] at hw
            cases hw
        · intro g hg
          rcases hstep.turn.filed hg with hg | hg
          · exact (hlate g hg).step hstep hcare
          · rw [hg] at hnot
            cases hnot
      · rw [hstep.others j hjk]
        exact ⟨hnot, fun g hg => (hlate g hg).step hstep hcare⟩
    rcases h.late with ⟨hr, hopen⟩ | ⟨hnot, hlate⟩
    · by_cases hsame : s'.duty r = s.duty r
      · exact .inl ⟨by rw [hsame]; exact hr, open_step hstep hcare (.inl hr) hopen⟩
      · obtain rfl : r = k := by
          by_contra hrk
          exact hsame (hstep.others r hrk)
        exact .inr (hsettle (hcare.hear hr hsame j) fun g hg =>
          .knocks (hattended.gens j g (.inr hg)) hr hopen)
    · exact .inr (hsettle hnot hlate)

end Desk

end Autofork.Lib
