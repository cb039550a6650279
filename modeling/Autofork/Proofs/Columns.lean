/-
Rows of `sessions`, one session at a time.

A section rewrites a session's row by opening the session or by one of
the updates it makes, and never removes it (`row_run`). A column that
opening a session leaves alone is written by a section's updates only
(`column_run`).
-/
import Autofork.Proofs.Sections

namespace Autofork

open Lib

/-- The updates a section makes to the row of its session. -/
inductive Section.Updates : Section → (SessionRec → SessionRec) → Prop
  | prompted {ev : Event} {waking : Bool} {t : Int} :
      Updates (.prompt ev waking t) fun r => { r with lastActivity := t }
  | bumped {ev : Event} {t : Int} : Updates (.prompt ev true t) fun r =>
      { r with pauseEpoch := r.pauseEpoch + 1, pauseStartedAt := none }
  | stopped {ev : Event} {t : Int} :
      Updates (.stop ev t) fun r => { r with lastActivity := t }
  | based {ev : Event} {t : Int} : Updates (.stop ev t) fun r =>
      { r with pauseStartedAt := r.pauseStartedAt <|> some t }
  | gauged {b : String} {delta : Delta} {t : Int} :
      Updates (.ingest b delta t) fun r => { r with
        transcriptOffset := delta.newOffset
        promptTokens := delta.promptTokens <|> r.promptTokens }
  | closed {x : Section} (h : x.closes = true) :
      Updates x fun r => { r with status := .closed }

section row

variable {Q : Option SessionRec → Prop} {a : String}

private theorem row_updateSession {s : Store} {b : String}
    {f : SessionRec → SessionRec} (hQ : ∀ r, Q (some r) → Q (some (f r)))
    (hf : ∀ r, (f r).sessionId = r.sessionId) (h : Q (s.sessions.find? a)) :
    Q ((s.updateSession b f hf).sessions.find? a) := by
  unfold Store.updateSession
  rw [Table.find?_updateWhere]
  cases hr : s.sessions.find? a with
  | none =>
      rw [hr] at h
      exact h
  | some r =>
      rw [hr] at h
      rw [Option.map_some]
      split
      · exact hQ r h
      · exact h

/-- What a section leaves true of a session's row: what opening the
session and the section's updates do. -/
theorem row_run {k : Nat} {now : Int} {d : Daemon} {x : Section}
    (hupsert : ∀ (s : Store) ev t, Q (s.sessions.find? a) →
      Q ((s.upsertSession ev t).sessions.find? a))
    (hupdate : ∀ f, x.Updates f → ∀ r, Q (some r) → Q (some (f r)))
    (h : Q (d.store.sessions.find? a)) :
    Q ((x.run k now d).1.sessions.find? a) := by
  have hsame : ∀ {s : Store}, s.sessions = d.store.sessions →
      Q (s.sessions.find? a) := fun hs => hs ▸ h
  cases hcloses : x.closes with
  | true =>
      obtain ⟨ids, hs, -⟩ := closes_run k now d hcloses
      rw [hs]
      clear hs hsame
      generalize d.store = s at h
      induction ids generalizing s with
      | nil => exact h
      | cons id ids ih =>
          exact ih _ (row_updateSession (hupdate _ (.closed hcloses))
            (fun _ => rfl) h)
  | false =>
      cases x with
      | start ev t => exact hupsert _ ev t h
      | classify ev t =>
          obtain ⟨spawns, hs⟩ := classifyNotification_only d.store ev t
          exact hsame (by simp only [Section.run, hs])
      | prompt ev waking t =>
          have htouched := row_updateSession (b := ev.sessionId)
            (hupdate _ .prompted) (fun _ => rfl) (hupsert _ ev t h)
          cases waking with
          | false => exact htouched
          | true =>
              exact row_updateSession (hupdate _ .bumped) (fun _ => rfl) htouched
      | stop ev t =>
          exact row_updateSession (hupdate _ .based) (fun _ => rfl)
            (row_updateSession (b := ev.sessionId) (hupdate _ .stopped)
              (fun _ => rfl) (hupsert _ ev t h))
      | ingest b delta t =>
          obtain ⟨spawns, hs⟩ := applyDelta_gauge d.store b delta t
          simp only [Section.run, hs]
          exact row_updateSession (hupdate _ .gauged) (fun _ => rfl) h
      | queue b entries =>
          obtain ⟨roster, hs⟩ := queueForks_only d.store b entries now
          exact hsame (by simp only [Section.run, hs])
      | stamp session selected t =>
          obtain ⟨roster, fires, runs, pending, hs⟩ :=
            stampWake_only d.store session selected t d.log.length
          exact hsame (by simp only [Section.run, hs])
      | release session released =>
          obtain ⟨pending, hs⟩ :=
            deleteReleased_only d.store session.sessionId released
          exact hsame (by simp only [Section.run, hs])
      | _ => cases hcloses

end row

/-- A session that has been seen stays. -/
theorem present_run {k : Nat} {now : Int} {d : Daemon} {x : Section}
    {a : String} (h : (d.store.sessions.find? a).isSome = true) :
    ((x.run k now d).1.sessions.find? a).isSome = true := by
  refine row_run (Q := fun r => r.isSome = true) (fun s ev t hs => ?_)
    (fun f _ r _ => rfl) h
  unfold Store.upsertSession
  rw [Table.find?_insertOrUpdate]
  split
  · rfl
  · exact hs

-- ============================================================== columns

namespace Store

variable {β : Type} {c : SessionRec → β} {zero : β}

/-- A column of a session's row; a session that was never seen has the
value of a fresh row. -/
def column (c : SessionRec → β) (zero : β) (s : Store) (a : String) : β :=
  ((s.sessions.find? a).map c).getD zero

/-- Opening a session leaves the column alone. -/
structure Steady (c : SessionRec → β) (zero : β) : Prop where
  fresh : ∀ ev t, ((openInMemory.upsertSession ev t).sessions.find?
    ev.sessionId).map c = some zero
  touch : ∀ (s : Store) ev t r, s.sessions.find? ev.sessionId = some r →
    ((s.upsertSession ev t).sessions.find? ev.sessionId).map c = some (c r)

theorem Steady.upsertSession (h : Steady c zero) (s : Store) (ev : Event)
    (t : Int) (a : String) :
    (s.upsertSession ev t).column c zero a = s.column c zero a := by
  by_cases ha : ev.sessionId = a
  · subst ha
    unfold column
    cases hr : s.sessions.find? ev.sessionId with
    | some r =>
        rw [h.touch s ev t r hr]
        rfl
    | none =>
        have hfresh := h.fresh ev t
        unfold Store.upsertSession at hfresh ⊢
        rw [Table.find?_insertOrUpdate, if_pos rfl] at hfresh ⊢
        rw [hr]
        simpa [openInMemory, Table.find?, Table.empty] using hfresh
  · unfold column Store.upsertSession
    rw [Table.find?_insertOrUpdate, if_neg (by simpa using ha)]

end Store

/-- A section whose updates leave a steady column alone does. -/
theorem column_run {β : Type} {c : SessionRec → β} {zero : β}
    (h : Store.Steady c zero) {k : Nat} {now : Int} {d : Daemon} {x : Section}
    (hupdate : ∀ f, x.Updates f → ∀ r, c (f r) = c r) (a : String) :
    (x.run k now d).1.column c zero a = d.store.column c zero a := by
  refine row_run (a := a) (Q := fun r => (r.map c).getD zero
    = d.store.column c zero a) (fun s ev t hs => ?_) (fun f hf r hr => ?_) rfl
  · exact (h.upsertSession s ev t a).trans hs
  · exact (hupdate f hf r).trans hr

end Autofork
