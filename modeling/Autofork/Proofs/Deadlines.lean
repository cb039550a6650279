/-
A parked poll against the clock.

`waking` is one poll by itself, neither cancelled nor shut down: a sleep
ends when it is over, nothing else takes time, and whatever others do
to the daemon meanwhile is `σ`. The poll settles at the first instant,
its arrival or a deadline from then on, at which something is selected
(`awaitDue_waking`), and one debounce later it issues what is selected
then. If nothing is, it parks for good, and the deadlines still to come
are not served (`deadline_missed`). So a deadline is served exactly when
the selection at that first instant outlasts the debounce
(`deadline_served_iff`).
-/
import Autofork.Proofs.Debounce

namespace Autofork

open Lib

-- ============================================================= the clock

/-- An operation of poll `k` at a time, in a state. `σ` is the daemon as
the poll finds it when it wakes. -/
def waking (σ : Int → Daemon) (k : Nat) :
    (op : Op) → Int × Daemon → Option ((Int × Daemon) × op.Res)
  | .select (some secs), (t, _) =>
      some ((t + secs, σ (t + secs)), .timer)
  | op, (t, d) => (exec k op { now := t } d).map fun x => ((t, x.1), x.2)

namespace Watch

/-- What is selected over the moments elapsed by `t`. -/
def selected (w : Watch) (d : Daemon) (t : Int) : List SelectedFork :=
  selectFrom (d.store.queueForks w.session.sessionId
      (d.disk.discover w.session.cwd) t)
    d.disk w.session w.cfg (w.moments t) t

/-- A time at which the poll looks: when it arrives, and at each
deadline from then on. -/
def Instant (w : Watch) (t₀ e : Int) : Prop :=
  e = t₀ ∨ t₀ ≤ e ∧ ∃ d ∈ w.deadlines, e = w.baseline + d

/-- The first of them at which something is selected. -/
structure FirstDue (w : Watch) (σ : Int → Daemon) (t₀ e : Int) : Prop where
  instant : w.Instant t₀ e
  due : w.selected (σ e) e ≠ []
  first : ∀ e', w.Instant t₀ e' → e' < e → w.selected (σ e') e' = []

/-- The poll that arrives at `t₀` answers with a wake, at `t` at the
latest. -/
def AnswersBy (w : Watch) (σ : Int → Daemon) (k : Nat) (t₀ t : Int) : Prop :=
  ∃ e d payload, (awaitDue w).alone (waking σ k) (t₀, σ t₀)
      = some ((e, d), .wake payload) ∧ e ≤ t

end Watch

-- =========================================================== one instant

section instant

variable {σ : Int → Daemon} {k : Nat} {t : Int} {d : Daemon} {w : Watch}

/-- Between two awaits a program is run at one moment. -/
theorem waking_alone {α : Type} {p : Handler α}
    (hp : p.Every fun op => op.awaits = false) (d : Daemon) :
    ∃ d' a, p.alone (at_ k t) d = some (d', a)
      ∧ p.alone (waking σ k) (t, d) = some ((t, d'), a) := by
  induction p generalizing d with
  | ret a => exact ⟨d, a, rfl, rfl⟩
  | call op f ih =>
      have hop : ∃ d₁ r, exec k op { now := t } d = some (d₁, r) := by
        have hawaits := hp.1
        cases op with
        | select secs => cases hawaits
        | snapshot b =>
            simp only [exec]
            split <;> exact ⟨_, _, rfl⟩
        | takePendingClose b gen =>
            simp only [exec]
            split <;> exact ⟨_, _, rfl⟩
        | _ => exact ⟨_, _, rfl⟩
      obtain ⟨d₁, r, hop⟩ := hop
      have hwaking : waking σ k op (t, d) = some ((t, d₁), r) := by
        have hplain : waking σ k op (t, d)
            = (exec k op { now := t } d).map fun x => ((t, x.1), x.2) := by
          have hawaits := hp.1
          cases op with
          | select secs => cases hawaits
          | _ => rfl
        rw [hplain, hop]
        rfl
      obtain ⟨d', a, hat, hwake⟩ := ih r (hp.2 r) d₁
      exact ⟨d', a, by rwa [Prog.alone, at_, hop],
        by rwa [Prog.alone, hwaking]⟩

/-- No operation edits the files. -/
theorem alone_disk {α : Type} {p : Handler α} {d d' : Daemon} {a : α}
    (h : p.alone (at_ k t) d = some (d', a)) : d'.disk = d.disk := by
  induction p generalizing d with
  | ret b =>
      cases h
      rfl
  | call op f ih =>
      obtain ⟨d₁, r, hop, h⟩ := Prog.alone_bind (p := op.go) (f := f) h
      exact (ih r h).trans (exec_disk (alone_go hop))

/-- Forks that are on the roster already are not queued again. -/
theorem queueForks_again (s : Store) (sessionId : String)
    (entries : List ForkEntry) (t t' : Int) :
    (s.queueForks sessionId entries t).queueForks sessionId entries t'
      = s.queueForks sessionId entries t := by
  have hstays : ∀ (l : List ForkEntry) (s : Store),
      (∀ e ∈ l, (sessionId, e.name) ∈ s.roster.rows.map RosterEntry.key) →
      s.queueForks sessionId l t' = s := by
    intro l
    induction l with
    | nil => exact fun s _ => rfl
    | cons e l ih =>
        intro s hl
        have hsame : s.queueFork sessionId e.name e.path t' = s := by
          unfold Store.queueFork
          rw [Table.insertOrIgnore_of_mem]
          exact hl e List.mem_cons_self
        show (s.queueFork sessionId e.name e.path t').queueForks sessionId l t'
          = s
        rw [hsame]
        exact ih s fun e' he' => hl e' (List.mem_cons_of_mem e he')
  refine hstays entries _ fun e he => ?_
  obtain ⟨l₁, l₂, rfl⟩ := List.append_of_mem he
  -- from its own turn on it is on the roster
  have hturn : (sessionId, e.name) ∈ (((s.queueForks sessionId l₁ t).queueFork
      sessionId e.name e.path t).roster.rows.map RosterEntry.key) := by
    by_cases h : ∃ r ∈ (s.queueForks sessionId l₁ t).roster.rows,
        r.key = (sessionId, e.name)
    · obtain ⟨r, hr, hkey⟩ := h
      exact List.mem_map.2 ⟨r, (Table.mem_insertOrIgnore _).2 (.inl hr), hkey⟩
    · push Not at h
      exact List.mem_map.2 ⟨_, (Table.mem_insertOrIgnore _).2 (.inr ⟨rfl, h⟩), rfl⟩
  obtain ⟨r, hr, hkey⟩ := List.mem_map.1 hturn
  refine List.mem_map.2 ⟨r, ?_, hkey⟩
  rw [Store.queueForks, List.foldl_append, List.foldl_cons]
  exact (queueForks_rows _ sessionId l₂ t).1 r hr

/-- A selection runs through, and a second one would select the same. -/
theorem selectForks_waking (w : Watch) (d : Daemon) :
    ∃ d', (selectForks w.session w.cfg (w.moments t)).alone (waking σ k) (t, d)
        = some ((t, d'), w.selected d t)
      ∧ w.selected d' t = w.selected d t := by
  have hprompt : (selectForks w.session w.cfg (w.moments t)).Every
      fun op => op.awaits = false := by
    refine (tends_selectForks ..).mono fun op hop => ?_
    cases op with
    | select secs => cases hop
    | _ => rfl
  obtain ⟨d', sel, hat, hwake⟩ :=
    waking_alone (σ := σ) (k := k) (t := t) hprompt d
  obtain ⟨hs, rfl⟩ := selectForks_alone hat
  have hd := alone_disk hat
  rw [hs] at hwake
  refine ⟨d', hwake, ?_⟩
  rw [Watch.selected, hs, hd, queueForks_again]
  rfl

/-- Nothing is selected before some moment has elapsed. -/
theorem selected_of_moments (h : (w.moments t).isEmpty = true) :
    w.selected d t = [] := by
  refine List.filterMap_eq_nil_iff.2 fun entry _ => ?_
  rw [List.isEmpty_iff.1 h, selectEntry]
  split
  · rfl
  · simp [dueBy, matchMoments]

theorem dueNow_waking (w : Watch) (d : Daemon) :
    ∃ d', (dueNow w).alone (waking σ k) (t, d)
        = some ((t, d'), !(w.selected d t).isEmpty)
      ∧ w.selected d' t = w.selected d t := by
  -- reading the clock leaves the store and the files alone
  let d₁ : Daemon := { d with log := .clock k t :: d.log }
  show ∃ d', Prog.alone _ (if (w.moments t).isEmpty then pure false
    else do
      let selected ← selectForks w.session w.cfg (w.moments t)
      pure (!selected.isEmpty)) (t, d₁) = _ ∧ _
  split
  next h =>
    refine ⟨d₁, ?_, rfl⟩
    rw [selected_of_moments h]
    rfl
  next h =>
    obtain ⟨d', hsel, hagain⟩ := selectForks_waking (σ := σ) (k := k) (t := t) w d₁
    refine ⟨d', ?_, hagain⟩
    rw [Prog.alone_bind_of hsel]
    rfl

/-- Phase C, once forks are selected. -/
private def issueSelected (w : Watch) (selected : List SelectedFork) :
    Handler ResponseBody := do
  match ← buildWake w.session selected with
  | some payload => pure (.wake payload)
  | none => parkForever

/-- Phase C issues what is selected, or parks for good. -/
theorem issueWake_waking (w : Watch) (d : Daemon) :
    (w.selected d t = [] → (issueWake w).alone (waking σ k) (t, d) = none)
      ∧ (w.selected d t ≠ [] → ∃ d' payload,
        (issueWake w).alone (waking σ k) (t, d)
          = some ((t, d'), .wake payload)) := by
  let d₁ : Daemon := { d with log := .clock k t :: d.log }
  obtain ⟨d₂, hsel, -⟩ := selectForks_waking (σ := σ) (k := k) (t := t) w d₁
  have hissue : (issueWake w).alone (waking σ k) (t, d)
      = (issueSelected w (w.selected d t)).alone (waking σ k) (t, d₂) :=
    Prog.alone_bind_of hsel
  constructor
  · intro h
    rw [hissue, issueSelected, h]
    rfl
  · intro h
    rw [hissue, issueSelected, buildWake, if_neg (by simpa using h)]
    exact ⟨_, _, rfl⟩

/-- Phase B, from an evaluation at `t` on: what is selected one debounce
later is issued. -/
theorem debounceWake_waking (hagain : w.selected d t = w.selected (σ t) t) :
    (w.selected (σ (t + w.cfg.wakeDebounceSecs)) (t + w.cfg.wakeDebounceSecs)
        = [] → (debounceWake w).alone (waking σ k) (t, d) = none)
      ∧ (w.selected (σ (t + w.cfg.wakeDebounceSecs))
          (t + w.cfg.wakeDebounceSecs) ≠ [] →
        ∃ d' payload, (debounceWake w).alone (waking σ k) (t, d)
          = some ((t + w.cfg.wakeDebounceSecs, d'), .wake payload)) := by
  unfold debounceWake
  split
  next hpos =>
    exact issueWake_waking w (σ (t + w.cfg.wakeDebounceSecs))
  next hzero =>
    have hnow : t + (w.cfg.wakeDebounceSecs : Int) = t := by omega
    rw [hnow, ← hagain]
    exact issueWake_waking w d

end instant

-- ========================================================= the deadlines

section deadlines

variable {σ : Int → Daemon} {k : Nat} {t : Int} {w : Watch}

/-- A deadline the clock can show is slept for without wrapping. -/
private theorem sleep_exact {base t : Int} {d : Nat} (hbase : 0 ≤ base)
    (ht : 0 ≤ t) (hclock : base + d < 9223372036854775808)
    (hread : t < 9223372036854775808) :
    t + ((max (wrapI64 (wrapI64 (base + asI64 d) - t)) 0).toNat : Int)
      = max t (base + d) := by
  have hsum : wrapI64 (base + asI64 d) = base + d := by
    rw [asI64_of_lt (by omega)]
    exact wrapI64_of_bounds (by omega) (by omega)
  rw [hsum, wrapI64_of_bounds (by omega) (by omega)]
  omega

/-- Phase A, when nothing is due at `t`: if something is due at a
deadline still to come, it settles at the first such one. -/
theorem serveDeadlines_waking (hbase : 0 ≤ w.baseline) {d : Nat}
    (hclock : w.baseline + d < 9223372036854775808)
    (hdue : w.selected (σ (w.baseline + d)) (w.baseline + d) ≠ []) :
    ∀ (ds : List Nat) (t : Int) (s : Daemon), ds.Pairwise (· ≤ ·) → d ∈ ds →
      0 ≤ t → t ≤ w.baseline + d → w.selected (σ t) t = [] →
      ∃ e s', (t < e ∧ ∃ d' ∈ ds, e = w.baseline + d') ∧ e ≤ w.baseline + d
        ∧ w.selected (σ e) e ≠ []
        ∧ (∀ d' ∈ ds, t < w.baseline + d' → w.baseline + d' < e →
          w.selected (σ (w.baseline + d')) (w.baseline + d') = [])
        ∧ w.selected s' e = w.selected (σ e) e
        ∧ (serveDeadlines w ds).alone (waking σ k) (t, s)
          = (debounceWake w).alone (waking σ k) (e, s') := by
  intro ds
  induction ds with
  | nil => exact fun t s _ hd => by cases hd
  | cons d₁ rest ih =>
      intro t s hsorted hd ht hle hnot
      obtain ⟨hfirst, hrest⟩ := List.pairwise_cons.1 hsorted
      have hd₁ : d₁ ≤ d := by
        rcases List.mem_cons.1 hd with rfl | hd
        · exact Nat.le_refl _
        · exact hfirst d hd
      -- the poll sleeps until the deadline, if it has not passed
      let t₁ := max t (w.baseline + d₁)
      obtain ⟨s₁, heval, hsame⟩ := dueNow_waking (σ := σ) (k := k) (t := t₁) w (σ t₁)
      have hslept : (serveDeadlines w (d₁ :: rest)).alone (waking σ k) (t, s)
          = if (!(w.selected (σ t₁) t₁).isEmpty) = true then
              (debounceWake w).alone (waking σ k) (t₁, s₁)
            else (serveDeadlines w rest).alone (waking σ k) (t₁, s₁) := by
        have hwait : t + ((max (wrapI64 (wrapI64 (w.baseline + asI64 d₁) - t))
            0).toNat : Int) = t₁ := sleep_exact hbase ht (by omega) (by omega)
        show Prog.alone (waking σ k) (do
            if ← dueNow w then debounceWake w else serveDeadlines w rest)
          (t + ((max (wrapI64 (wrapI64 (w.baseline + asI64 d₁) - t)) 0).toNat
            : Int), σ (t + ((max (wrapI64 (wrapI64 (w.baseline + asI64 d₁) - t))
            0).toNat : Int))) = _
        rw [hwait, Prog.alone_bind_of heval]
        split <;> rfl
      by_cases hnow : w.selected (σ t₁) t₁ = []
      · rw [if_neg (by simp [hnow])] at hslept
        have hlater : d ∈ rest := by
          refine (List.mem_cons.1 hd).resolve_left fun hhere => hdue ?_
          have ht₁ : t₁ = w.baseline + d := by
            show max t (w.baseline + d₁) = _
            rw [← hhere]
            omega
          rw [← ht₁]
          exact hnow
        obtain ⟨e, s', ⟨hlt, d', hd', he⟩, hle', hduee, hmin, hsame', halone⟩ :=
          ih t₁ s₁ hrest hlater (by omega) (by omega) hnow
        refine ⟨e, s', ⟨by omega, d', List.mem_cons_of_mem _ hd', he⟩, hle', hduee,
          ?_, hsame', hslept.trans halone⟩
        intro d₂ hd₂ hgt hlt₂
        have hge : d₁ ≤ d₂ := by
          rcases List.mem_cons.1 hd₂ with rfl | hd₂
          · exact Nat.le_refl _
          · exact hfirst d₂ hd₂
        by_cases hnext : w.baseline + d₂ = t₁
        · rw [hnext]
          exact hnow
        · have hne : d₂ ≠ d₁ := by
            rintro rfl
            exact hnext (by omega)
          exact hmin d₂ ((List.mem_cons.1 hd₂).resolve_left hne) (by omega) hlt₂
      · rw [if_pos (by simpa using hnow)] at hslept
        have hgt : t < t₁ := by
          refine lt_of_le_of_ne (le_max_left _ _) fun heq => hnow ?_
          rw [← heq]
          exact hnot
        have ht₁ : t₁ = w.baseline + d₁ := by omega
        refine ⟨t₁, s₁, ⟨hgt, d₁, List.mem_cons_self, ht₁⟩, by omega, hnow, ?_, hsame,
          hslept⟩
        intro d₂ hd₂ _ hlt₂
        rcases List.mem_cons.1 hd₂ with rfl | hd₂
        · omega
        · have := hfirst d₂ hd₂
          omega

/-- There is one first instant. -/
theorem Watch.FirstDue.unique {t₀ e e' : Int} (h : w.FirstDue σ t₀ e)
    (h' : w.FirstDue σ t₀ e') : e = e' := by
  refine le_antisymm (not_lt.1 fun hlt => ?_) (not_lt.1 fun hlt => ?_)
  · exact h'.due (h.first e' h'.instant hlt)
  · exact h.due (h'.first e h.instant hlt)

/-- If something is due at a deadline from its arrival on, the poll
settles at the first instant at which something is. -/
theorem awaitDue_waking {t₀ : Int} {d : Nat} (hbase : 0 ≤ w.baseline)
    (hsorted : w.deadlines.Pairwise (· ≤ ·)) (hd : d ∈ w.deadlines)
    (harrival : 0 ≤ t₀ ∧ t₀ ≤ w.baseline + d)
    (hclock : w.baseline + d < 9223372036854775808)
    (hdue : w.selected (σ (w.baseline + d)) (w.baseline + d) ≠ []) :
    ∃ e s, w.FirstDue σ t₀ e ∧ e ≤ w.baseline + d
      ∧ w.selected s e = w.selected (σ e) e
      ∧ (awaitDue w).alone (waking σ k) (t₀, σ t₀)
        = (debounceWake w).alone (waking σ k) (e, s) := by
  obtain ⟨s₀, heval, hsame⟩ :=
    dueNow_waking (σ := σ) (k := k) (t := t₀) w (σ t₀)
  have hlooks : (awaitDue w).alone (waking σ k) (t₀, σ t₀)
      = if (!(w.selected (σ t₀) t₀).isEmpty) = true then
          (debounceWake w).alone (waking σ k) (t₀, s₀)
        else (serveDeadlines w w.deadlines).alone (waking σ k) (t₀, s₀) := by
    rw [awaitDue, Prog.alone_bind_of heval]
    split <;> rfl
  by_cases hnow : w.selected (σ t₀) t₀ = []
  · rw [if_neg (by simp [hnow])] at hlooks
    obtain ⟨e, s, ⟨hlt, d', hd', he⟩, hle, hduee, hmin, hsame', halone⟩ :=
      serveDeadlines_waking (k := k) hbase hclock hdue w.deadlines t₀ s₀ hsorted
        hd harrival.1 harrival.2 hnow
    refine ⟨e, s, ⟨.inr ⟨le_of_lt hlt, d', hd', he⟩, hduee, ?_⟩, hle, hsame',
      hlooks.trans halone⟩
    rintro e' (rfl | ⟨hge, d'', hd'', rfl⟩) hlt'
    · exact hnow
    · by_cases heq : t₀ = w.baseline + d''
      · rw [← heq]
        exact hnow
      · exact hmin d'' hd'' (by omega) hlt'
  · rw [if_pos (by simpa using hnow)] at hlooks
    refine ⟨t₀, s₀, ⟨.inl rfl, hnow, ?_⟩, harrival.2, hsame, hlooks⟩
    rintro e' (rfl | ⟨hge, -⟩) hlt
    · exact absurd hlt (lt_irrefl _)
    · exact absurd hge (not_le.2 hlt)

/-- A deadline from the poll's arrival on, at which something is
selected and stays so for the debounce, is answered by the end of that
debounce if and only if the selection at the first instant at which
something is selected is not empty one debounce later. -/
theorem deadline_served_iff {t₀ : Int} {d : Nat} {forks : List ForkDef}
    (hdeadlines : w.deadlines
      = idleDeadlines forks w.cfg.defaultIdleDeadlineSecs)
    (hd : d ∈ w.deadlines) (hbase : 0 ≤ w.baseline)
    (harrival : 0 ≤ t₀ ∧ t₀ ≤ w.baseline + d)
    (hclock : w.baseline + d < 9223372036854775808)
    (hdue : ∀ t, w.baseline + d ≤ t →
      t ≤ w.baseline + d + w.cfg.wakeDebounceSecs → w.selected (σ t) t ≠ []) :
    w.AnswersBy σ k t₀ (w.baseline + d + w.cfg.wakeDebounceSecs)
      ↔ ∀ e, w.FirstDue σ t₀ e →
        w.selected (σ (e + w.cfg.wakeDebounceSecs)) (e + w.cfg.wakeDebounceSecs)
          ≠ [] := by
  have hsorted : w.deadlines.Pairwise (· ≤ ·) := by
    rw [hdeadlines]
    exact List.pairwise_insertionSort _ _
  obtain ⟨e, s, hfirst, hle, hsame, halone⟩ := awaitDue_waking (k := k) hbase
    hsorted hd harrival hclock (hdue _ (le_refl _) (by omega))
  obtain ⟨hparks, hissues⟩ := debounceWake_waking (k := k) hsame
  constructor
  · rintro ⟨t, s', payload, hanswer, -⟩ e' hfirst'
    obtain rfl := hfirst'.unique hfirst
    intro hnone
    rw [halone, hparks hnone] at hanswer
    cases hanswer
  · intro hlasts
    obtain ⟨s', payload, hwake⟩ := hissues (hlasts e hfirst)
    exact ⟨_, s', payload, halone.trans hwake, by omega⟩

end deadlines

-- ------------------------------------------------- two deadlines, one tag

/-- One fork due after ten seconds, under a throttled tag, and one due
after a minute. -/
private def early : ForkDef := { runOn := [.idle (some 10)], tags := ["x"] }

private def late : ForkDef := { runOn := [.idle (some 60)] }

private def throttling : Config :=
  { wakeDebounceSecs := 5, tagThrottles := [("x", 3600)] }

/-- A session has stopped. -/
private def stoppedAlone : Daemon where
  disk := .holding [("early", early), ("late", late)] throttling none
  store := Store.openInMemory.upsertSession (.simple .stop "s") 0

/-- Another session of the project has been issued a fork with the
tag. -/
private def tagIssued : Daemon :=
  { stoppedAlone with
    store := (stoppedAlone.store.upsertSession (.simple .stop "o")
      12).recordIssuedRun "o" "early" "idle:10" (some "x") 12 }

private def parkedAlone : Watch where
  session := (stoppedAlone.store.getSession "s").get (by decide +kernel)
  cfg := throttling
  promptTokens := none
  maxTokens := 200000
  baseline := 0
  deadlines := [10, 60]

private theorem parkedAlone_deadlines : parkedAlone.deadlines
    = idleDeadlines [early, late] parkedAlone.cfg.defaultIdleDeadlineSecs := by
  decide +kernel

/-- A minute in, the debounce of the second deadline lasts this long. -/
private theorem secs_of_window {t : Int} (hge : 60 ≤ t) (hle : t ≤ 65) :
    ∃ n : Nat, n < 6 ∧ t = 60 + (n : Int) :=
  ⟨(t - 60).toNat, by omega, by omega⟩

/-- Undisturbed, the poll is answered at its first deadline. -/
theorem deadline_served_undisturbed :
    parkedAlone.AnswersBy (fun _ => stoppedAlone) 0 0 65 := by
  show parkedAlone.AnswersBy _ 0 0 (parkedAlone.baseline + ((60 : Nat) : Int)
    + parkedAlone.cfg.wakeDebounceSecs)
  refine (deadline_served_iff parkedAlone_deadlines (by decide) (by decide)
    ⟨by decide, by decide⟩ (by decide) fun t hge hle => ?_).2
    fun e hfirst => ?_
  · obtain ⟨n, hn, rfl⟩ := secs_of_window hge hle
    have hall : ∀ n < 6,
        parkedAlone.selected stoppedAlone (60 + ((n : Nat) : Int)) ≠ [] := by
      decide +kernel
    exact hall n hn
  · have hdue := hfirst.due
    rcases hfirst.instant with rfl | ⟨-, d, hd, rfl⟩
    · exact absurd (by decide +kernel) hdue
    · have hall : ∀ d ∈ parkedAlone.deadlines, parkedAlone.selected stoppedAlone
          (parkedAlone.baseline + (d : Int) + parkedAlone.cfg.wakeDebounceSecs)
            ≠ [] := by
        decide +kernel
      exact hall d hd

/-- Between the first deadline and the end of its debounce another
session takes the tag. The poll parks for good, and the second deadline
passes. -/
theorem deadline_missed :
    ¬∀ (σ : Int → Daemon) (k : Nat) (w : Watch) (t₀ : Int) (d : Nat)
        (forks : List ForkDef),
      w.deadlines = idleDeadlines forks w.cfg.defaultIdleDeadlineSecs →
      d ∈ w.deadlines → 0 ≤ w.baseline → 0 ≤ t₀ ∧ t₀ ≤ w.baseline + d →
      w.baseline + d < 9223372036854775808 →
      (∀ t, w.baseline + d ≤ t → t ≤ w.baseline + d + w.cfg.wakeDebounceSecs →
        w.selected (σ t) t ≠ []) →
      w.AnswersBy σ k t₀ (w.baseline + d + w.cfg.wakeDebounceSecs) := by
  intro h
  have hanswered := h (fun t => if t < 12 then stoppedAlone else tagIssued) 0
    parkedAlone 0 60 [early, late] parkedAlone_deadlines (by decide) (by decide)
    ⟨by decide, by decide⟩ (by decide) fun t hge hle => ?_
  · obtain ⟨e, d, payload, hanswer, -⟩ := hanswered
    have hparks : (awaitDue parkedAlone).alone
        (waking (fun t => if t < 12 then stoppedAlone else tagIssued) 0)
        (0, stoppedAlone) = none := by
      rw [← Option.not_isSome_iff_eq_none]
      decide +kernel
    cases hparks.symm.trans hanswer
  · obtain ⟨n, hn, rfl⟩ := secs_of_window hge hle
    have hall : ∀ n < 6,
        parkedAlone.selected tagIssued (60 + ((n : Nat) : Int)) ≠ [] := by
      decide +kernel
    show parkedAlone.selected (if 60 + (n : Int) < 12 then _ else _) _ ≠ []
    rw [if_neg (by omega)]
    exact hall n hn

end Autofork
