/-
What the log says of a session's pause.

A session's epoch counts the genuine prompts it has had, and the
baseline of its pause is the time of a Stop since the last of them
(`PausesMatch`). Only a genuine prompt and a Stop write either; every
other section leaves the pause alone, and so does opening a session
anew, because the row of a closed session stays (`pauseOf_run`).

A poll works from the row it took on arrival, so what its row says of
the pause was so when it took it (`PausesMatch.snapshot`).
-/
import Autofork.Lib.Log
import Autofork.Proofs.Columns
import Autofork.Proofs.Steps

namespace Autofork

open Lib

-- ============================================================ the pause

/-- A genuine prompt of session `a` was recorded. -/
def Genuine (a : String) : Obs → Prop
  | .prompted _ sessionId true _ => sessionId = a
  | _ => False

/-- A Stop of session `a` was recorded at `b`. -/
def StoppedAt (a : String) (b : Int) : Obs → Prop
  | .stopped _ sessionId t => sessionId = a ∧ t = b
  | _ => False

instance (a : String) : DecidablePred (Genuine a)
  | .prompted _ sessionId true _ => inferInstanceAs (Decidable (sessionId = a))
  | .prompted _ _ false _ | .stopped .. | .closed .. | .clock .. | .marked ..
  | .configured .. | .registered .. | .snapshot .. | .cancelled ..
  | .issued .. | .released .. | .answered .. => isFalse id

instance (a : String) (b : Int) : DecidablePred (StoppedAt a b)
  | .stopped _ sessionId t => inferInstanceAs (Decidable (sessionId = a ∧ t = b))
  | .prompted .. | .closed .. | .clock .. | .marked .. | .configured ..
  | .registered .. | .snapshot .. | .cancelled .. | .issued ..
  | .released .. | .answered .. => isFalse id

/-- How many genuine prompts session `a` has had. -/
def pauses (a : String) (l : List Obs) : Nat := l.countP (Genuine a ·)

theorem pauses_mono (a : String) {l l' : List Obs} (h : l <:+ l') :
    pauses a l ≤ pauses a l' :=
  h.sublist.countP_le

theorem pauses_append {a : String} {xs l : List Obs}
    (h : ∀ o ∈ xs, ¬Genuine a o) : pauses a (xs ++ l) = pauses a l := by
  rw [pauses, List.countP_append, List.countP_eq_zero.2 (by simpa using h),
    Nat.zero_add, pauses]

namespace Store

/-- The epoch and the baseline of a session's pause; a session that was
never seen has had none. -/
def pauseOf (s : Store) (a : String) : Int × Option Int :=
  ((s.sessions.find? a).map fun r => (r.pauseEpoch, r.pauseStartedAt)).getD
    (0, none)

theorem pauseOf_of_getSession {s : Store} {a : String} {session : SessionRow}
    (h : s.getSession a = some session) :
    s.pauseOf a = (session.pauseEpoch, session.pauseStartedAt) := by
  obtain ⟨r, hr, rfl⟩ := Option.map_eq_some_iff.1 h
  rw [pauseOf, hr]
  rfl

theorem pauseOf_updateSession {s : Store} {a a' : String}
    {f : SessionRec → SessionRec} {hf : ∀ r, (f r).sessionId = r.sessionId}
    (hpause : ∀ r, (f r).pauseEpoch = r.pauseEpoch
      ∧ (f r).pauseStartedAt = r.pauseStartedAt) :
    (s.updateSession a' f hf).pauseOf a = s.pauseOf a := by
  unfold pauseOf updateSession
  rw [Table.find?_updateWhere]
  cases s.sessions.find? a with
  | none => rfl
  | some r =>
      simp only [Option.map_some, Option.getD_some]
      split
      · rw [(hpause r).1, (hpause r).2]
      · rfl

theorem pauseOf_setLastActivity (s : Store) (a' : String) (t : Int)
    (a : String) : (s.setLastActivity a' t).pauseOf a = s.pauseOf a :=
  pauseOf_updateSession fun _ => ⟨rfl, rfl⟩

/-- It is a column of the session's own. -/
theorem steady_pause :
    Steady (fun r => (r.pauseEpoch, r.pauseStartedAt)) (0, none) where
  fresh ev t := by
    unfold upsertSession
    rw [Table.find?_insertOrUpdate, if_pos rfl]
    rfl
  touch s ev t r h := by
    unfold upsertSession
    rw [Table.find?_insertOrUpdate, if_pos rfl, h]
    rfl

/-- Opening a session, or touching it, leaves its pause alone. -/
theorem pauseOf_upsertSession (s : Store) (ev : Event) (t : Int)
    (a : String) : (s.upsertSession ev t).pauseOf a = s.pauseOf a :=
  steady_pause.upsertSession s ev t a

/-- What an update of the pause does, once the session is there. -/
private theorem pauseOf_update {s : Store} {a a' : String}
    {f : SessionRec → SessionRec} {hf : ∀ r, (f r).sessionId = r.sessionId}
    {g : Int × Option Int → Int × Option Int}
    (hg : ∀ r, ((f r).pauseEpoch, (f r).pauseStartedAt)
      = g (r.pauseEpoch, r.pauseStartedAt))
    (hthere : (s.sessions.find? a').isSome) :
    (s.updateSession a' f hf).pauseOf a
      = if a' = a then g (s.pauseOf a) else s.pauseOf a := by
  unfold pauseOf updateSession
  rw [Table.find?_updateWhere]
  cases h : s.sessions.find? a with
  | none =>
      split
      next he =>
        rw [he, h] at hthere
        cases hthere
      next => rfl
  | some r =>
      obtain ⟨-, hr⟩ := s.sessions.find?_eq_some_iff.1 h
      simp only [Option.map_some, Option.getD_some, hr]
      by_cases he : a' = a
      · simp [he, ← hg r]
      · simp [he, Ne.symm he]

/-- An upserted session is there. -/
private theorem upsertSession_there (s : Store) (ev : Event) (t t' : Int) :
    (((s.upsertSession ev t).setLastActivity ev.sessionId t').sessions.find?
      ev.sessionId).isSome := by
  unfold setLastActivity updateSession upsertSession
  rw [Table.find?_updateWhere, Table.find?_insertOrUpdate, if_pos rfl]
  rfl

end Store

/-- A genuine prompt begins a new pause. -/
theorem pauseOf_recordPrompt (s : Store) (ev : Event) (waking : Bool)
    (t : Int) (a : String) : (recordPrompt s ev waking t).pauseOf a
      = if waking = true ∧ ev.sessionId = a then ((s.pauseOf a).1 + 1, none)
        else s.pauseOf a := by
  have htouch : ((s.upsertSession ev t).setLastActivity ev.sessionId t).pauseOf a
      = s.pauseOf a := by
    rw [Store.pauseOf_setLastActivity, Store.pauseOf_upsertSession]
  unfold recordPrompt
  cases waking with
  | false => simpa using htouch
  | true =>
      simp only [if_true, true_and]
      show ((_ : Store).bumpPauseEpoch ev.sessionId).pauseOf a = _
      rw [Store.bumpPauseEpoch, Store.pauseOf_update (g := fun p => (p.1 + 1, none)) (fun _ => rfl)
          (s.upsertSession_there ev t t), htouch]

/-- The first Stop of a pause sets its baseline. -/
theorem pauseOf_recordStop (s : Store) (ev : Event) (t : Int) (a : String) :
    (recordStop s ev t).pauseOf a = if ev.sessionId = a then
        ((s.pauseOf a).1, (s.pauseOf a).2 <|> some t)
      else s.pauseOf a := by
  rw [recordStop, Store.setPauseStartedAtIfUnset, Store.pauseOf_update
      (g := fun p => (p.1, p.2 <|> some t)) (fun _ => rfl)
      (s.upsertSession_there ev t t),
    Store.pauseOf_setLastActivity, Store.pauseOf_upsertSession]

-- ========================================================== one section

/-- A section writes the pause of session `a` only as a genuine prompt or
a Stop of it, and then says so. -/
theorem pauseOf_run (k : Nat) (now : Int) (d : Daemon) (x : Section)
    (a : String) :
    (∃ ev t, x = .prompt ev true t ∧ ev.sessionId = a
        ∧ (x.run k now d).1.pauseOf a = ((d.store.pauseOf a).1 + 1, none))
      ∨ (∃ ev t, x = .stop ev t ∧ ev.sessionId = a
        ∧ (x.run k now d).1.pauseOf a
          = ((d.store.pauseOf a).1, (d.store.pauseOf a).2 <|> some t))
      ∨ ((x.run k now d).1.pauseOf a = d.store.pauseOf a
        ∧ ∀ o ∈ (x.run k now d).2.2, ¬Genuine a o) := by
  -- no other section writes these columns
  have steady : (∀ f, x.Updates f → ∀ r, (f r).pauseEpoch = r.pauseEpoch
      ∧ (f r).pauseStartedAt = r.pauseStartedAt) →
      (x.run k now d).1.pauseOf a = d.store.pauseOf a := fun h =>
    column_run Store.steady_pause (fun f hf r => by rw [(h f hf r).1, (h f hf r).2]) a
  have marked : ∀ {s : Store} {t : Int}, ∀ o ∈ marks d.store s t,
      ¬Genuine a o := by
    intro s t o ho
    obtain ⟨s, f, rfl⟩ := mem_marks ho
    exact id
  cases x with
  | prompt ev waking t =>
      by_cases h : waking = true ∧ ev.sessionId = a
      · obtain ⟨rfl, rfl⟩ := h
        refine .inl ⟨ev, t, rfl, rfl, ?_⟩
        simp [Section.run, pauseOf_recordPrompt]
      · refine .inr (.inr ⟨?_, ?_⟩)
        · simp [Section.run, pauseOf_recordPrompt, h]
        · cases waking <;> simp_all [Section.run, Genuine]
  | stop ev t =>
      by_cases h : ev.sessionId = a
      · refine .inr (.inl ⟨ev, t, rfl, h, ?_⟩)
        simp [Section.run, pauseOf_recordStop, h]
      · refine .inr (.inr ⟨?_, by simp [Section.run, Genuine]⟩)
        simp [Section.run, pauseOf_recordStop, h]
  | classify ev t =>
      exact .inr (.inr ⟨steady (by rintro _ ⟨⟩ r; exact ⟨rfl, rfl⟩), marked⟩)
  | ingest sessionId delta t =>
      exact .inr (.inr ⟨steady (by rintro _ ⟨⟩ r <;> exact ⟨rfl, rfl⟩), marked⟩)
  | closeIfOpen sessionId =>
      refine .inr (.inr ⟨steady (by rintro _ ⟨⟩ r; exact ⟨rfl, rfl⟩), ?_⟩)
      simp only [Section.run]
      split
      · split <;> simp [Genuine]
      · simp
  | prune t =>
      refine .inr (.inr ⟨steady (by rintro _ ⟨⟩ r; exact ⟨rfl, rfl⟩), ?_⟩)
      intro o ho
      simp only [Section.run, List.mem_reverse, List.mem_map] at ho
      obtain ⟨y, -, rfl⟩ := ho
      exact id
  | _ =>
      refine .inr (.inr ⟨steady ?_, by simp [Section.run, Genuine]⟩)
      rintro _ ⟨⟩ r
      exact ⟨rfl, rfl⟩

-- ============================================================ over runs

/-- The epoch of a session's pause counts its genuine prompts, and the
baseline is the time of a Stop since the last of them. -/
structure PausesMatch (s : Store) (l : List Obs) : Prop where
  epoch : ∀ a, (s.pauseOf a).1 = pauses a l
  baseline : ∀ a b, (s.pauseOf a).2 = some b →
    Since (StoppedAt a b) (Genuine a) l

/-- A pause that nothing wrote, and no new genuine prompt. -/
private theorem pausesMatch_same {s s' : Store} {obs l : List Obs}
    {a : String} (h : PausesMatch s l) (hs : s'.pauseOf a = s.pauseOf a)
    (hobs : ∀ o ∈ obs, ¬Genuine a o) :
    (s'.pauseOf a).1 = pauses a (obs ++ l)
      ∧ ∀ b, (s'.pauseOf a).2 = some b →
        Since (StoppedAt a b) (Genuine a) (obs ++ l) := by
  rw [hs, pauses_append hobs]
  exact ⟨h.epoch a, fun b hb => since_grow hobs (h.baseline a b hb)⟩

theorem pausesMatch_passive (s : Store) (l : List Obs) (o : Obs)
    (ho : o.passive = true) (h : PausesMatch s l) :
    PausesMatch s (o :: l) := by
  have hobs : ∀ a, ∀ o' ∈ [o], ¬Genuine a o' := by
    intro a o' ho' hg
    rw [List.mem_singleton.1 ho'] at hg
    cases o <;> simp [Obs.passive, Genuine] at ho hg
  exact ⟨fun a => (pausesMatch_same h rfl (hobs a)).1,
    fun a => (pausesMatch_same h rfl (hobs a)).2⟩

theorem pausesMatch_run {k : Nat} {now : Int} {d : Daemon} (x : Section)
    (h : PausesMatch d.store d.log) :
    PausesMatch (x.run k now d).1 ((x.run k now d).2.2 ++ d.log) := by
  have hone : ∀ a, ((x.run k now d).1.pauseOf a).1
        = pauses a ((x.run k now d).2.2 ++ d.log)
      ∧ ∀ b, ((x.run k now d).1.pauseOf a).2 = some b →
        Since (StoppedAt a b) (Genuine a) ((x.run k now d).2.2 ++ d.log) := by
    intro a
    rcases pauseOf_run k now d x a with ⟨ev, t, rfl, ha, hs⟩
      | ⟨ev, t, rfl, ha, hs⟩ | ⟨hs, hobs⟩
    · rw [hs]
      refine ⟨?_, fun b hb => by cases hb⟩
      simp [Section.run, pauses, Genuine, ha, h.epoch a]
    · rw [hs]
      refine ⟨?_, fun b hb => ?_⟩
      · rw [pauses_append (by simp [Section.run, Genuine])]
        exact h.epoch a
      · simp only [Section.run, List.singleton_append, Since]
        cases hold : (d.store.pauseOf a).2 with
        | none =>
            rw [hold] at hb
            exact .inl ⟨ha, Option.some.inj hb⟩
        | some b' =>
            rw [hold] at hb
            exact .inr ⟨id, h.baseline a b (hold.trans hb)⟩
    · exact pausesMatch_same h hs hobs
  exact ⟨fun a => (hone a).1, fun a => (hone a).2⟩

theorem pausesMatch_step (w : World) (act : Act)
    (h : PausesMatch w.daemon.store w.daemon.log) :
    PausesMatch (w.step act).daemon.store (w.step act).daemon.log :=
  w.store_invariant (C := fun _ _ => True) pausesMatch_passive
    (fun _ _ _ x _ _ h => pausesMatch_run x h) act trivial h

theorem pausesMatch_init (disk : Disk) :
    PausesMatch (World.init disk).daemon.store (World.init disk).daemon.log :=
  ⟨fun _ => rfl, fun _ _ h => by cases h⟩

/-- What a row read from the store says of its session's pause. -/
theorem PausesMatch.row {s : Store} {l : List Obs} (h : PausesMatch s l)
    {a : String} {session : SessionRow} (hrow : s.getSession a = some session) :
    session.sessionId = a ∧ session.pauseEpoch = pauses a l
      ∧ ∀ b, session.pauseStartedAt = some b →
        Since (StoppedAt a b) (Genuine a) l := by
  have hepoch := h.epoch a
  have hbaseline := h.baseline a
  rw [Store.pauseOf_of_getSession hrow] at hepoch hbaseline
  exact ⟨Store.sessionId_of_getSession hrow, hepoch, hbaseline⟩

end Autofork
