/-
The daemon recognises its own forks.

Every complete line of a session's transcript is either still unread or
reflected in the spawn registry: `Read` says so of an offset. Ingests
keep it for the stored offset, in whatever order they overlap, and a
completion notification reads the rest before it is classified. Closing
a session is what breaks it: the registry is cleared and the offset
stays (`own_fork_forgotten`). As long as a fork's row is not lost that
way, its completions leave the pause alone (`own_fork_recognised`).
-/
import Autofork.Proofs.Columns
import Autofork.Proofs.Pauses
import Autofork.Proofs.Registry
import Autofork.Proofs.Rely
import Autofork.Proofs.Walk
import Autofork.Transcript

namespace Autofork

open Lib

-- ========================================================== the registry

namespace Store

variable {a u : String} {s : Store}

/-- The spawn `u` is in the registry of session `a`. -/
def Registered (a u : String) (s : Store) : Prop :=
  (a, u) ∈ s.spawns.rows.map SpawnRec.key

theorem registered_iff :
    s.Registered a u ↔ ∃ r, s.spawns.find? (a, u) = some r := by
  simp only [Registered, List.mem_map, Table.find?_eq_some_iff]

theorem isForkSpawn_of_registered (h : s.Registered a u) (i : Option String) :
    s.isForkSpawn a (some u) i = true := by
  obtain ⟨r, hr⟩ := registered_iff.1 h
  exact isForkSpawn_iff.2 ⟨u, r, hr, .inl rfl⟩

end Store

section registry

variable {a u : String}

/-- A delta's spawns are registered. -/
theorem registered_applyDelta (s : Store) (delta : Delta) (t : Int)
    (hu : u ∈ delta.spawns.map Prod.fst) :
    (applyDelta s a delta t).Registered a u := by
  cases hold : s.spawns.find? (a, u) with
  | some r =>
      obtain ⟨r', hr', -⟩ := find?_applyDelta_old hold delta t
      exact Store.registered_iff.2 ⟨r', hr'⟩
  | none =>
      obtain ⟨r', hr', -⟩ := find?_applyDelta_new hold t hu
      exact Store.registered_iff.2 ⟨r', hr'⟩

/-- Only closing its session takes a spawn off the registry. -/
theorem registered_run {k : Nat} {now : Int} {d : Daemon} {x : Section}
    (hclosed : Obs.closed a ∉ (x.run k now d).2.2)
    (h : d.store.Registered a u) : (x.run k now d).1.Registered a u := by
  obtain ⟨r, hr⟩ := Store.registered_iff.1 h
  obtain ⟨r', hr', -⟩ := retains_run hclosed u r hr
  exact Store.registered_iff.2 ⟨r', hr'⟩

end registry

-- ======================================================= the transcript

section transcript

variable (fromStr : String → Option Json) (path : Path)

/-- The transcript holds this text. -/
def Disk.Shows (disk : Disk) (file : List Char) : Prop :=
  ∀ offset, disk.readDelta path offset
    = Autofork.readDelta fromStr file offset

/-- The fork spawn `u` lies in the transcript's complete lines. -/
def Disk.Lists (u : String) (disk : Disk) : Prop :=
  ∃ file, disk.Shows fromStr path file
    ∧ u ∈ (spawnsIn fromStr file).map Prod.fst

/-- Read up to here: an offset between two lines, before which the spawn
does not lie unless `P`. -/
def Disk.Read (u : String) (P : Prop) (disk : Disk) (offset : Nat) : Prop :=
  ∃ s t, disk.Shows fromStr path (s ++ t) ∧ Whole '\n' s
    ∧ offset = utf8Len s ∧ (u ∈ (spawnsIn fromStr s).map Prod.fst → P)

/-- The transcript is only appended to. -/
def World.appends (w : World) : Act → Prop
  | .edit disk => ∀ file, w.daemon.disk.Shows fromStr path file →
      ∃ more, disk.Shows fromStr path (file ++ more)
  | _ => True

end transcript

section transcript

variable {fromStr : String → Option Json} {path : Path} {u : String}

/-- What a complete line holds it keeps holding. -/
theorem mem_spawnsIn_append {file : List Char} (more : List Char)
    (h : u ∈ (spawnsIn fromStr file).map Prod.fst) :
    u ∈ (spawnsIn fromStr (file ++ more)).map Prod.fst := by
  obtain ⟨rest, hrest⟩ : wholePart '\n' file <+: file :=
    prefix_wholePart file
  rw [← spawnsIn_wholePart] at h
  rw [← hrest, List.append_assoc, spawnsIn_append (whole_wholePart file),
    List.map_append, List.mem_append]
  exact .inl h

theorem Disk.Lists.grow {disk disk' : Disk}
    (hgrow : ∀ file, disk.Shows fromStr path file →
      ∃ more, disk'.Shows fromStr path (file ++ more))
    (h : disk.Lists fromStr path u) : disk'.Lists fromStr path u := by
  obtain ⟨file, hshows, hu⟩ := h
  obtain ⟨more, hmore⟩ := hgrow file hshows
  exact ⟨_, hmore, mem_spawnsIn_append more hu⟩

theorem Disk.Read.grow {disk disk' : Disk} {P Q : Prop} {offset : Nat}
    (hgrow : ∀ file, disk.Shows fromStr path file →
      ∃ more, disk'.Shows fromStr path (file ++ more)) (hPQ : P → Q)
    (h : disk.Read fromStr path u P offset) :
    disk'.Read fromStr path u Q offset := by
  obtain ⟨s, t, hshows, hs, hoffset, hP⟩ := h
  obtain ⟨more, hmore⟩ := hgrow _ hshows
  rw [List.append_assoc] at hmore
  exact ⟨s, t ++ more, hmore, hs, hoffset, fun hu => hPQ (hP hu)⟩

theorem Disk.Read.mono {disk : Disk} {P Q : Prop} {offset : Nat} (hPQ : P → Q)
    (h : disk.Read fromStr path u P offset) :
    disk.Read fromStr path u Q offset :=
  h.grow (fun file hfile => ⟨[], by rwa [List.append_nil]⟩) hPQ

/-- A read from there gets to the next such offset, and extracts the
spawn if it lies in the transcript and `P` does not hold already. -/
theorem Disk.Read.delta {disk : Disk} {P : Prop} {offset : Nat}
    (h : disk.Read fromStr path u P offset) :
    ∃ delta, disk.readDelta path offset = some delta
      ∧ disk.Read fromStr path u (P ∨ u ∈ delta.spawns.map Prod.fst)
        delta.newOffset
      ∧ (disk.Lists fromStr path u → P ∨ u ∈ delta.spawns.map Prod.fst) := by
  obtain ⟨s, t, hshows, hs, rfl, hP⟩ := h
  obtain ⟨delta, hread, hoffset, hspawns⟩ :=
    @readDelta_between fromStr s t
  have hin : u ∈ (spawnsIn fromStr (s ++ t)).map Prod.fst →
      P ∨ u ∈ delta.spawns.map Prod.fst := by
    intro hu
    rw [spawnsIn_append hs, List.map_append, List.mem_append] at hu
    rw [hspawns]
    exact hu.imp_left hP
  refine ⟨delta, (hshows _).trans hread, ?_, ?_⟩
  · obtain ⟨rest, hrest⟩ : wholePart '\n' t <+: t := prefix_wholePart t
    refine ⟨s ++ wholePart '\n' t, rest, ?_, hs.append (whole_wholePart t),
      hoffset, fun hu => hin ?_⟩
    · rw [List.append_assoc, hrest]
      exact hshows
    · rwa [spawnsIn_append hs, spawnsIn_wholePart, ← spawnsIn_append hs] at hu
  · -- another text that reads the same lists the same spawns
    rintro ⟨file, hfile, hu⟩
    refine hin ?_
    obtain ⟨d₁, h₁, -, hs₁⟩ := @readDelta_between fromStr [] file
    obtain ⟨d₂, h₂, -, hs₂⟩ := @readDelta_between fromStr [] (s ++ t)
    have hsame : some d₁ = some d₂ := by
      rw [← h₁, ← h₂, List.nil_append, List.nil_append, ← hfile, ← hshows]
    rw [← hs₂, ← Option.some.inj hsame, hs₁]
    exact hu

end transcript

-- ============================================================ the readers

/-- How far a handler has got with reading the session's transcript.
`due` says that the spawn lay in it when the handler began. -/
inductive Reader
  | start (due : Bool)
  /-- It has the offset to read from. -/
  | row (due : Bool) (offset : Nat)
  | delta (due : Bool) (x : Delta)
  | done (due : Bool)

section readers

variable (fromStr : String → Option Json) (path : Path) (a u : String)

def Reader.Means : Reader → Store → Disk → Prop
  | .start due, s, disk => due = true →
      disk.Lists fromStr path u ∧ (s.sessions.find? a).isSome = true
  | .row due offset, s, disk =>
      (due = true → disk.Lists fromStr path u)
        ∧ disk.Read fromStr path u (s.Registered a u) offset
  | .delta due x, s, disk =>
      (due = true → s.Registered a u ∨ u ∈ x.spawns.map Prod.fst)
        ∧ disk.Read fromStr path u
          (s.Registered a u ∨ u ∈ x.spawns.map Prod.fst) x.newOffset
  | .done due, s, _ => due = true → s.Registered a u

/-- Deltas are read from the offset the row had and recorded as they
were read. A completion notification of the spawn records its prompt as
no genuine activity, and writes nothing else. -/
def reading (notice : Prop) : Prog.Typestate Op Op.Res Reader where
  ok m op := match op with
    | .readDelta p o => ∀ due o', m = .row due o' → p = path ∧ o = o'
    | .write (.ingest b x _) => b = a → ∃ due, m = .delta due x
    | .write (.prompt _ waking _) => notice → waking = false
    | .write (.classify ..) => True
    | .write _ => ¬notice
    | _ => True
  next m op r := match m, op, r with
    | .start due, .getSession b, some row =>
        if b = a then .row due row.transcriptOffset else .start due
    | .row due _, .readDelta _ _, some x => .delta due x
    | .delta due x, .write (.ingest b _ _), _ =>
        if b = a then .done due else .delta due x
    | m, _, _ => m
  valid m op r := match m, op, r with
    | .start due, .getSession b, none => b = a → due = false
    | .row _ _, .readDelta _ _, none => False
    | .done due, .write (.classify ev _), matched => due = true →
        ev.sessionId = a → ev.notifToolUseId = some u → matched = true
    | _, _, _ => True

/-- The stored offset is one the transcript has been read up to. -/
def ReadSoFar (s : Store) (disk : Disk) : Prop :=
  (∃ file, disk.Shows fromStr path file)
    ∧ ∀ r, s.sessions.find? a = some r →
      disk.Read fromStr path u (s.Registered a u) r.transcriptOffset

/-- At most one task is the notification. -/
def readingRely (notice : Option Nat) : World.Rely Reader where
  T k := reading path a u (notice = some k)
  E := Reader.Means fromStr path a u
  I := ReadSoFar fromStr path a u

end readers

section readers

variable {fromStr : String → Option Json} {path : Path} {a u : String}
  {notice : Prop}

/-- What is known outlasts whatever keeps the spawn registered, the
session there, and the transcript growing. -/
theorem Reader.Means.keep {m : Reader} {s s' : Store} {disk disk' : Disk}
    (hregistered : s.Registered a u → s'.Registered a u)
    (hpresent : (s.sessions.find? a).isSome = true →
      (s'.sessions.find? a).isSome = true)
    (hgrow : ∀ file, disk.Shows fromStr path file →
      ∃ more, disk'.Shows fromStr path (file ++ more))
    (hm : m.Means fromStr path a u s disk) :
    m.Means fromStr path a u s' disk' := by
  cases m with
  | start due => exact fun h => ⟨(hm h).1.grow hgrow, hpresent (hm h).2⟩
  | row due offset =>
      exact ⟨fun h => (hm.1 h).grow hgrow, hm.2.grow hgrow hregistered⟩
  | delta due x =>
      exact ⟨fun h => (hm.1 h).imp_left hregistered,
        hm.2.grow hgrow (Or.imp_left hregistered)⟩
  | done due => exact fun h => hregistered (hm h)

theorem ReadSoFar.edit {s : Store} {disk disk' : Disk}
    (hgrow : ∀ file, disk.Shows fromStr path file →
      ∃ more, disk'.Shows fromStr path (file ++ more))
    (h : ReadSoFar fromStr path a u s disk) :
    ReadSoFar fromStr path a u s disk' := by
  obtain ⟨⟨file, hfile⟩, hread⟩ := h
  obtain ⟨more, hmore⟩ := hgrow file hfile
  exact ⟨⟨_, hmore⟩, fun r hr => (hread r hr).grow hgrow id⟩

-- --------------------------------------------------------- the handlers

private theorem blind_typed {m : Reader} (hk : ¬notice) {α : Type}
    {p : Handler α} (hp : Blind p) :
    p.Typed (reading path a u notice) (fun m' _ => m' = m) m := by
  refine Prog.Every.typed (I := (· = m)) rfl (hp.mono fun op hop m' hm' => ?_)
  subst hm'
  cases op with
  | getSession b => cases hop
  | readDelta p o => cases hop
  | write x =>
      cases x with
      | ingest b x t => cases hop
      | prompt ev waking t =>
          exact ⟨fun h => absurd h hk, fun r _ => by cases m' <;> rfl⟩
      | classify ev t => exact ⟨trivial, fun r _ => by cases m' <;> rfl⟩
      | _ => exact ⟨hk, fun r _ => by cases m' <;> rfl⟩
  | _ => exact ⟨trivial, fun r _ => by cases m' <;> rfl⟩

/-- Reading the transcript of any session. -/
private theorem ingestTranscript_typed {ev : Event}
    (hpath : ev.sessionId = a → ∀ p, ev.transcriptPath = some p → p = path) :
    (ingestTranscript ev).Typed (reading path a u notice)
      (fun _ _ => True) (.start false) := by
  unfold ingestTranscript
  split
  · trivial
  next p hp =>
    refine ⟨trivial, fun session _ => ?_⟩
    cases session with
    | none => trivial
    | some session =>
        by_cases hb : ev.sessionId = a
        · have hrow : (reading path a u notice).next (.start false)
              (.getSession ev.sessionId) (some session)
              = .row false session.transcriptOffset := if_pos hb
          rw [hrow]
          refine ⟨?_, fun delta hdelta => ?_⟩
          · intro due o' hm
            cases hm
            exact ⟨hpath hb p hp, rfl⟩
          · cases delta with
            | none => exact hdelta.elim
            | some delta =>
                exact ⟨trivial, fun t _ => ⟨fun _ => ⟨_, rfl⟩, fun _ _ => trivial⟩⟩
        · have hrow : (reading path a u notice).next (.start false)
              (.getSession ev.sessionId) (some session) = .start false :=
            if_neg hb
          rw [hrow]
          refine ⟨fun _ _ hm => (by cases hm), fun delta _ => ?_⟩
          cases delta with
          | none => trivial
          | some delta =>
              exact ⟨trivial, fun t _ => ⟨fun h => absurd h hb, fun _ _ => trivial⟩⟩

/-- A handler that is not the notice's. -/
private theorem handler_typed (hk : ¬notice) (job : Job)
    (hpath : ∀ ev, (job = .request (.event ev) ∨ job = .request (.stopWait ev)) →
      ev.sessionId = a → ∀ p, ev.transcriptPath = some p → p = path) :
    job.handler.Typed (reading path a u notice) (fun _ _ => True)
      (.start false) := by
  have hblind : ∀ {p : Handler ResponseBody} (m : Reader), Blind p →
      p.Typed (reading path a u notice) (fun _ _ => True) m :=
    fun m hp => (blind_typed hk hp).mono fun _ _ _ => trivial
  cases job with
  | reap => exact hblind _ shuts_sessionReaper.blind
  | grace b gen => exact hblind _ (shuts_graceClose b gen).blind
  | request req =>
      cases req with
      | prune => exact hblind _ shuts_handlePrune.blind
      | stopWait ev =>
          refine ⟨trivial, fun _ _ => ⟨trivial, fun t _ => ⟨hk, fun _ _ => ?_⟩⟩⟩
          show Prog.Typed _ _ (Reader.start false) (ingestTranscript ev >>= _)
          refine (ingestTranscript_typed (hpath ev (.inr rfl))).bind
            fun m tokens _ => hblind m ?_
          exact (blind_go rfl).bind fun cfg => (blind_go rfl).bind fun _ =>
            (blind_go rfl).bind fun _ => (polls_parkedPoll ..).blind.bind fun body =>
              (blind_go rfl).bind fun _ => trivial
      | event ev =>
          refine ⟨trivial, fun _ _ => ⟨trivial, fun t _ => ?_⟩⟩
          cases hkind : ev.event with
          | stop => trivial
          | sessionStart =>
              exact hblind _ ((blind_go rfl).bind fun _ => trivial)
          | sessionEnd =>
              exact hblind _ ((blind_go rfl).bind fun _ =>
                (blind_go rfl).bind fun _ => trivial)
          | promptSubmit =>
              have hrest : ∀ waking, Blind (do
                  (Op.write (.prompt ev waking t)).go
                  (Op.cancelWait ev.sessionId).go
                  pure ResponseBody.ack) := fun waking =>
                (blind_go rfl).bind fun _ => (blind_go rfl).bind fun _ => trivial
              have hclassify : (classifyPrompt ev t).Typed
                  (reading path a u notice) (fun _ _ => True)
                  (.start false) := by
                have hrecent : Blind (do
                    let recent ← (Op.recentlyWoke ev.sessionId t).go
                    pure (!recent)) := (blind_go rfl).bind fun _ => trivial
                unfold classifyPrompt
                split
                · refine (ingestTranscript_typed (hpath ev (.inl rfl))).bind
                    fun m _ _ => ?_
                  refine (blind_typed hk ((blind_go rfl).bind fun matched => ?_)
                    ).mono fun _ _ _ => trivial
                  split
                  · trivial
                  · exact hrecent
                · split
                  · trivial
                  · exact (blind_typed hk hrecent).mono fun _ _ _ => trivial
              exact hclassify.bind fun m waking _ => hblind m (hrest waking)

/-- The notice's own handler reads the transcript, finds the spawn and
takes it for no genuine activity. -/
private theorem notice_typed {ev : Event}
    (hev : ev.event = .promptSubmit) (ha : ev.sessionId = a)
    (hu : ev.notifToolUseId = some u) (hpath : ev.transcriptPath = some path) :
    (handleEvent ev).Typed (reading path a u notice) (fun _ _ => True)
      (.start true) := by
  subst ha
  have hread : (ingestTranscript ev).Typed
      (reading path ev.sessionId u notice) (fun m _ => m = .done true)
      (.start true) := by
    unfold ingestTranscript
    rw [hpath]
    refine ⟨trivial, fun session hsession => ?_⟩
    cases session with
    | none => cases hsession rfl
    | some session =>
        have hrow : (reading path ev.sessionId u notice).next (.start true)
            (.getSession ev.sessionId) (some session)
            = .row true session.transcriptOffset := if_pos rfl
        rw [hrow]
        refine ⟨fun due o' hm => ?_, fun delta hdelta => ?_⟩
        · cases hm
          exact ⟨rfl, rfl⟩
        cases delta with
        | none => exact hdelta.elim
        | some delta =>
            refine ⟨trivial, fun t _ => ⟨fun _ => ⟨_, rfl⟩, fun _ _ => ?_⟩⟩
            exact if_pos rfl
  have hclassify : ∀ t, (classifyPrompt ev t).Typed
      (reading path ev.sessionId u notice) (fun _ waking => waking = false)
      (.start true) := by
    intro t
    unfold classifyPrompt
    rw [if_pos (by rw [hu]; rfl)]
    refine hread.bind fun m _ hm => ?_
    rw [hm]
    refine ⟨trivial, fun matched hmatched => ?_⟩
    have hyes : matched = true := hmatched rfl rfl hu
    rw [hyes]
    rfl
  refine ⟨trivial, fun _ _ => ⟨trivial, fun t _ => ?_⟩⟩
  rw [hev]
  refine (hclassify t).bind fun m waking hwaking => ?_
  exact ⟨fun _ => hwaking, fun _ _ => ⟨trivial, fun _ _ => trivial⟩⟩

-- ------------------------------------------------------ the operations

/-- Sections keep what is read so far, if an ingest records what a
handler has read and no close takes the spawn off the registry. -/
theorem readSoFar_run {k : Nat} {now : Int} {d : Daemon} {x : Section}
    (hregistered : d.store.Registered a u → (x.run k now d).1.Registered a u)
    (hingest : ∀ delta t, x = .ingest a delta t →
      d.disk.Read fromStr path u (d.store.Registered a u
        ∨ u ∈ delta.spawns.map Prod.fst) delta.newOffset)
    (h : ReadSoFar fromStr path a u d.store d.disk) :
    ReadSoFar fromStr path a u (x.run k now d).1 d.disk := by
  refine ⟨h.1, ?_⟩
  have hbefore : ∀ r, d.store.sessions.find? a = some r →
      d.disk.Read fromStr path u ((x.run k now d).1.Registered a u)
        r.transcriptOffset := fun r hr => (h.2 r hr).mono hregistered
  by_cases hother : ∃ b delta t, x = .ingest b delta t ∧ b ≠ a
  · obtain ⟨b, delta, t, rfl, hb⟩ := hother
    rw [← (slice_run hb rfl).session]
    exact hbefore
  refine row_run (a := a) (Q := fun o => ∀ r, o = some r →
    d.disk.Read fromStr path u ((x.run k now d).1.Registered a u)
      r.transcriptOffset) (fun s ev t hs => ?_) (fun f hf r hr => ?_) hbefore
  · unfold Store.upsertSession
    rw [Table.find?_insertOrUpdate]
    split
    · cases hrow : s.sessions.find? a with
      | some r =>
          rintro _ ⟨rfl⟩
          exact hs r hrow
      | none =>
          rintro _ ⟨rfl⟩
          obtain ⟨file, hfile⟩ := h.1
          exact ⟨[], file, hfile, .inl rfl, rfl, fun hu => by cases hu⟩
    · exact hs
  · rintro _ ⟨rfl⟩
    cases hf with
    | @gauged b delta t =>
        have hb : b = a := by
          by_contra hb
          exact hother ⟨b, delta, t, rfl, hb⟩
        subst hb
        refine (hingest delta t rfl).mono fun hP => ?_
        exact hP.elim hregistered
          (registered_applyDelta d.store delta t)
    | _ => exact hr r rfl

end readers

-- ================================================================ the run

/-- A prompt of session `a` that carries the tool-use id `u`. -/
def Event.notifies (a u : String) (ev : Event) : Bool :=
  ev.event == .promptSubmit && ev.sessionId == a && ev.notifToolUseId == some u

/-- The session is not closed while spawn `u` is in its registry, and
has been seen before when a prompt carries the id. -/
def remembers (a u : String) (w : World) (act : Act) : Bool :=
  (!w.closes a act || !w.daemon.store.isForkSpawn a (some u) none)
    && match act with
      | .receive (.event ev) =>
          !ev.notifies a u || (w.daemon.store.getSession a).isSome
      | _ => true

/-- The requests of session `a` name its transcript, if any. -/
def Act.names (a : String) (path : Path) : Act → Prop
  | .receive (.event ev) | .receive (.stopWait ev) =>
      ev.sessionId = a → ∀ p, ev.transcriptPath = some p → p = path
  | _ => True

section run

variable {fromStr : String → Option Json} {path : Path} {a u : String}

/-- A section of such a run keeps the spawn registered. -/
private theorem registered_write {w : World} {k : Nat} {tick : Tick}
    {x : Section} (hcond : remembers a u w (.move k tick) = true)
    (hab : w.about k = some (.write x)) (h : w.daemon.store.Registered a u) :
    (x.run k tick.now w.daemon).1.Registered a u := by
  refine registered_run (fun hclosed => ?_) h
  have hcloses : w.closes a (.move k tick) = true := by
    simpa [World.closes, hab] using hclosed
  simp [remembers, hcloses, Store.isForkSpawn_of_registered h] at hcond

private theorem registered_step {w : World} {act : Act}
    (hcond : remembers a u w act = true)
    (h : w.daemon.store.Registered a u) :
    (w.step act).daemon.store.Registered a u :=
  World.store_invariant (Q := fun s _ => s.Registered a u)
    (C := fun w act => remembers a u w act = true) (fun _ _ _ _ h => h)
    (fun _ _ _ _ hcond hab h => registered_write hcond hab h) w act hcond h

private theorem present_step {w : World} {act : Act}
    (h : (w.daemon.store.sessions.find? a).isSome = true) :
    ((w.step act).daemon.store.sessions.find? a).isSome = true :=
  World.store_invariant (C := fun _ _ => True)
    (Q := fun s _ => (s.sessions.find? a).isSome = true)
    (fun _ _ _ _ h => h) (fun _ _ _ _ _ _ h => present_run h) w act trivial h

/-- How files may change at one step. -/
private theorem grow_step {w : World} {act : Act}
    (happends : w.appends fromStr path act) (file : List Char)
    (hfile : w.daemon.disk.Shows fromStr path file) :
    ∃ more, (w.step act).daemon.disk.Shows fromStr path (file ++ more) := by
  by_cases hedit : ∃ disk, act = .edit disk
  · obtain ⟨disk, rfl⟩ := hedit
    exact happends file hfile
  · push Not at hedit
    rw [w.step_disk hedit]
    exact ⟨[], by rwa [List.append_nil]⟩

/-- What an operation of a reader does. -/
private theorem reading_exec {notice : Prop} {w : World} {k : Nat} {op : Op}
    {m : Reader} {tick : Tick} {d : Daemon} {r : op.Res}
    (hcond : remembers a u w (.move k tick) = true)
    (hab : w.about k = some op)
    (hinv : ReadSoFar fromStr path a u w.daemon.store w.daemon.disk)
    (hm : m.Means fromStr path a u w.daemon.store w.daemon.disk)
    (hok : (reading path a u notice).ok m op)
    (hexec : exec k op tick w.daemon = some (d, r)) :
    ReadSoFar fromStr path a u d.store d.disk
      ∧ (reading path a u notice).valid m op r
      ∧ ((reading path a u notice).next m op r).Means fromStr path a u
        d.store d.disk := by
  have hgrow : ∀ file, w.daemon.disk.Shows fromStr path file →
      ∃ more, w.daemon.disk.Shows fromStr path (file ++ more) :=
    fun file h => ⟨[], by rwa [List.append_nil]⟩
  rcases exec_cases hexec with ⟨x, rfl, rfl⟩ | ⟨hwrite, hs, hd, -⟩
  · have hregistered := registered_write hcond hab
    have hkept : m.Means fromStr path a u (x.run k tick.now w.daemon).1
        w.daemon.disk := hm.keep hregistered present_run hgrow
    refine ⟨readSoFar_run hregistered ?_ hinv, ?_, ?_⟩
    · rintro delta t rfl
      obtain ⟨due, rfl⟩ := hok rfl
      exact hm.2
    · cases m with
      | done due =>
          cases x with
          | classify ev t =>
              intro hdue ha hu
              simp only [exec, Option.some.injEq, Prod.mk.injEq] at hexec
              rw [← hexec.2]
              show (classifyNotification w.daemon.store ev t).2 = true
              rw [classifyNotification_matched, ha, hu]
              exact Store.isForkSpawn_of_registered (hm hdue) _
          | _ => trivial
      | _ => trivial
    · cases m with
      | delta due delta =>
          cases x with
          | ingest b delta' t =>
              show Reader.Means fromStr path a u (if b = a then .done due
                else .delta due delta) _ _
              split
              next hb =>
                subst hb
                obtain ⟨due', hdelta⟩ := hok rfl
                cases hdelta
                intro hdue
                exact (hm.1 hdue).elim hregistered
                  (registered_applyDelta w.daemon.store delta t)
              next => exact hkept
          | _ => exact hkept
      | _ => exact hkept
  · rw [hs, hd]
    refine ⟨hinv, ?_⟩
    cases m with
    | start due =>
        cases op with
        | getSession b =>
            simp only [exec, Option.some.injEq, Prod.mk.injEq] at hexec
            rw [← hexec.2]
            cases hrow : w.daemon.store.sessions.find? b with
            | none =>
                rw [Store.getSession, hrow]
                refine ⟨fun hb => ?_, hm⟩
                subst hb
                cases due with
                | false => rfl
                | true =>
                    have hthere := (hm rfl).2
                    rw [hrow] at hthere
                    cases hthere
            | some row =>
                rw [Store.getSession, hrow]
                refine ⟨trivial, ?_⟩
                show Reader.Means fromStr path a u (if b = a
                  then .row due row.transcriptOffset else .start due) _ _
                split
                next hb =>
                  subst hb
                  exact ⟨fun hdue => (hm hdue).1, hinv.2 row hrow⟩
                next => exact hm
        | write x => exact absurd rfl (hwrite x)
        | _ => exact ⟨trivial, hm⟩
    | row due offset =>
        cases op with
        | readDelta p o =>
            obtain ⟨rfl, rfl⟩ := hok due offset rfl
            obtain ⟨delta, hread, hnext, hall⟩ := hm.2.delta
            simp only [exec, Option.some.injEq, Prod.mk.injEq] at hexec
            rw [← hexec.2, hread]
            exact ⟨trivial, fun hdue => hall (hm.1 hdue), hnext⟩
        | write x => exact absurd rfl (hwrite x)
        | _ => exact ⟨trivial, hm⟩
    | delta due x =>
        cases op with
        | write x => exact absurd rfl (hwrite x)
        | _ => exact ⟨trivial, hm⟩
    | done due =>
        cases op with
        | write x => exact absurd rfl (hwrite x)
        | _ => exact ⟨trivial, hm⟩

/-- The readers go on over a step; what a new handler may start from is
the caller's to say. -/
private theorem reading_step {notice : Option Nat} {w : World} {act : Act}
    (hcond : remembers a u w act = true)
    (happends : w.appends fromStr path act)
    (hnew : ∀ job, (w.step act).jobs = w.jobs ++ [job] →
      ∃ m, Reader.Means fromStr path a u m (w.step act).daemon.store
          (w.step act).daemon.disk
        ∧ job.handler.Typed (reading path a u (notice = some w.jobs.length))
          (fun _ _ => True) m)
    (h : w.Relying (readingRely fromStr path a u notice)) :
    (w.step act).Relying (readingRely fromStr path a u notice) := by
  refine World.relying_step ?_ ?_ ?_ hnew ?_ h
  · rintro k op m tick d r rfl hab hinv hm hok hexec
    exact reading_exec hcond hab hinv hm hok hexec
  · intro m hm
    exact hm.keep (registered_step hcond) present_step (grow_step happends)
  · rintro disk rfl hinv
    exact hinv.edit happends
  · rintro k b started rfl
    refine ⟨.start false, fun h => (by cases h), ?_⟩
    refine ⟨trivial, fun gen _ => ⟨trivial, fun _ _ => ⟨trivial, fun _ _ => ?_⟩⟩⟩
    cases started with
    | true => exact ⟨trivial, fun _ _ => trivial⟩
    | false => trivial

/-- Handlers that are not the notice's start from nothing. -/
private theorem reading_new {notice : Option Nat} {w : World} {act : Act}
    (hnames : act.names a path) (hnotice : notice ≠ some w.jobs.length)
    (job : Job) (hjob : (w.step act).jobs = w.jobs ++ [job]) :
    ∃ m, Reader.Means fromStr path a u m (w.step act).daemon.store
        (w.step act).daemon.disk
      ∧ job.handler.Typed (reading path a u (notice = some w.jobs.length))
        (fun _ _ => True) m := by
  refine ⟨.start false, fun h => (by cases h), handler_typed hnotice job ?_⟩
  rintro ev (rfl | rfl)
  · obtain rfl := World.receive_of_jobs hjob
    exact hnames
  · obtain rfl := World.receive_of_jobs hjob
    exact hnames

/-- The notice's steps leave the pause and the held dependents alone. -/
private theorem quiet_step {w : World} {k : Nat} {tick : Tick}
    (h : w.Relying (readingRely fromStr path a u (some k))) :
    ((w.step (.move k tick)).daemon.store.pauseOf a).1
        = (w.daemon.store.pauseOf a).1
      ∧ (w.step (.move k tick)).daemon.store.pending
        = w.daemon.store.pending := by
  rcases w.step_cases (.move k tick) with
    ⟨k', task, op, f, tick', d, r, hmove, -, -, hab, hexec, heq⟩
    | ⟨k', tick', task, body, -, -, -, heq⟩ | ⟨disk, graceTimers, heq, -⟩
  · obtain ⟨rfl, rfl⟩ := Act.move.inj hmove
    rw [heq]
    show (d.store.pauseOf a).1 = _ ∧ d.store.pending = _
    rcases exec_cases hexec with ⟨x, rfl, rfl⟩ | ⟨-, hs, -⟩
    · obtain ⟨m, -, hok⟩ := h.next hab
      cases x with
      | classify ev t =>
          obtain ⟨spawns, hs⟩ := classifyNotification_only w.daemon.store ev t
          rw [Section.run, hs]
          exact ⟨rfl, rfl⟩
      | ingest b delta t =>
          obtain ⟨sessions, spawns, hs⟩ :=
            applyDelta_only w.daemon.store b delta t
          refine ⟨congrArg Prod.fst (column_run Store.steady_pause
            (fun f hf r => ?_) a), by rw [Section.run, hs]⟩
          cases hf with
          | gauged => rfl
          | closed h => cases h
      | prompt ev waking t =>
          obtain rfl := hok rfl
          refine ⟨?_, rfl⟩
          simp [Section.run, pauseOf_recordPrompt]
      | _ => exact absurd rfl hok
    · rw [hs]
      exact ⟨rfl, rfl⟩
  · rw [heq]
    exact ⟨rfl, rfl⟩
  · rw [heq]
    exact ⟨rfl, rfl⟩

/-- A prompt that carries the tool-use id of a fork spawn lying in the
complete lines of the session's transcript leaves the pause and the held
dependents as they are, at whatever time it arrives, as long as the
session is not closed on the spawn's row. -/
theorem own_fork_recognised {disk : Disk} {as : List Act}
    (hfile : ∃ file, disk.Shows fromStr path file)
    (htails : Along World.step (fun w act => w.appends fromStr path act
      ∧ act.names a path) (World.init disk) as)
    (hrun : Along World.step (fun w act => remembers a u w act = true)
      (World.init disk) as) :
    ∀ bs ev cs tick ds, as = bs ++ .receive (.event ev) :: (cs
        ++ .move (World.after disk bs).jobs.length tick :: ds) →
      ev.notifies a u = true → ev.transcriptPath = some path →
      (World.after disk bs).daemon.disk.Lists fromStr path u →
      let w := World.after disk (bs ++ .receive (.event ev) :: cs)
      let w' := w.step (.move (World.after disk bs).jobs.length tick)
      (w'.daemon.store.pauseOf a).1 = (w.daemon.store.pauseOf a).1
        ∧ w'.daemon.store.pending = w.daemon.store.pending := by
  intro bs ev cs tick ds has hnotifies hpath hlists w w'
  obtain ⟨k, hk⟩ : ∃ k, (World.after disk bs).jobs.length = k := ⟨_, rfl⟩
  have hboth := htails.and hrun
  rw [has, along_append] at hboth
  obtain ⟨hbs, ⟨⟨happends, -⟩, hcond⟩, hcs⟩ := hboth
  have hbefore : (World.after disk bs).Relying
      (readingRely fromStr path a u none) := by
    refine hbs.invariant (fun w act hact h => reading_step hact.2 hact.1.1
      (reading_new hact.1.2 (by simp)) h) (World.relying_init ?_)
    exact ⟨hfile, fun r hr => (by cases hr)⟩
  -- the tasks there are so far have other numbers than the notice
  have hothers : (World.after disk bs).Relying
      (readingRely fromStr path a u (some k)) := by
    refine ⟨hbefore.inv, fun j task ht => ?_⟩
    obtain ⟨m, hm, hp⟩ := hbefore.knows j task ht
    have hlt := (World.numbered_after disk bs).lt ht
    have hj : (none = some j) = (some k = some j) :=
      propext ⟨fun h => (by cases h), fun h => by
        rw [Option.some.injEq] at h
        omega⟩
    refine ⟨m, hm, ?_⟩
    show task.prog.Typed (reading path a u (some k = some j)) _ m
    rw [← hj]
    exact hp
  have hstarted : ((World.after disk bs).step (.receive (.event ev))).Relying
      (readingRely fromStr path a u (some k)) := by
    refine reading_step hcond happends (fun job hjob => ?_) hothers
    obtain rfl : .request (.event ev) = job := by
      simpa using List.append_cancel_left
        (show (World.after disk bs).jobs ++ _ = _ ++ _ from hjob)
    have hseen := hcond
    simp only [remembers, hnotifies, Bool.not_true, Bool.false_or,
      Bool.and_eq_true] at hseen
    simp only [Event.notifies, Bool.and_eq_true, beq_iff_eq] at hnotifies
    refine ⟨.start true, fun _ => ⟨hlists, ?_⟩,
      notice_typed hnotifies.1.1 hnotifies.1.2 hnotifies.2 hpath⟩
    show ((World.after disk bs).daemon.store.sessions.find? a).isSome = true
    simpa [Store.getSession] using hseen.2
  have hlater : w.Relying (readingRely fromStr path a u (some k)) := by
    rw [along_append] at hcs
    have hinv := hcs.1.invariant (P := fun w =>
        w.Relying (readingRely fromStr path a u (some k))
          ∧ k < w.jobs.length) (fun w act hact h => ?_) ⟨hstarted, ?_⟩
    · show (World.after disk (bs ++ .receive (.event ev) :: cs)).Relying _
      rw [World.after, run_append, run_cons]
      exact hinv.1
    · refine ⟨reading_step hact.2 hact.1.1 (reading_new hact.1.2 ?_) h.1, ?_⟩
      · simp only [ne_eq, Option.some.injEq]
        omega
      · exact h.2.trans_le (w.step_jobs act).length_le
    · show k < ((World.after disk bs).jobs ++ [_]).length
      rw [List.length_append, hk]
      exact Nat.lt_succ_self k
  show (((_ : World).step _).daemon.store.pauseOf a).1 = _ ∧ _
  simp only [w', hk]
  exact quiet_step hlater

end run

-- --------------------------------------------------- one spawn, one line

/-- An assistant message that spawns a fork. -/
private def forkLine : String :=
  "\x7b\"type\":\"assistant\",\"message\":\x7b\"content\":[\x7b\"type\":"
    ++ "\"tool_use\",\"name\":\"Agent\",\"id\":\"u\",\"input\":\x7b"
    ++ "\"subagent_type\":\"fork\"\x7d\x7d]\x7d\x7d\n"

private def forkEntry (line : String) : Option Json :=
  if line = forkLine then
    some (.object [
      ("type", .string "assistant"),
      ("message", .object [("content", .array [.object [
        ("type", .string "tool_use"),
        ("name", .string "Agent"),
        ("id", .string "u"),
        ("input", .object [("subagent_type", .string "fork")])]])])])
  else none

/-- Every transcript holds this text. -/
private def showing (file : List Char) : Disk :=
  { Disk.holding [] {} none with readDelta := fun _ => readDelta forkEntry file }

private theorem shows_showing (file : List Char) {path : Path} :
    (showing file).Shows forkEntry path file := fun _ => rfl

private def transcribed : Disk := showing forkLine.toList

private theorem transcribed_shows :
    ∃ file, transcribed.Shows forkEntry "t" file := ⟨_, shows_showing _⟩

/-- The spawned fork has completed. -/
private def completed : Event :=
  { Event.simple .promptSubmit "s" with notifToolUseId := some "u" }

/-- A Stop reads the transcript, and its poll parks. -/
private def spawnRead : List Act := .stop "s" :: Act.moves 13 0 10

/-- Nothing is edited, and requests name the one transcript. -/
private def unedited : Act → Bool
  | .edit _ => false
  | .receive (.event ev) | .receive (.stopWait ev) =>
      ev.transcriptPath == some "t"
  | _ => true

private theorem tails_unedited {as : List Act} {w : World}
    (has : as.all unedited = true) :
    Along World.step (fun w act => w.appends forkEntry "t" act
      ∧ act.names "s" "t") w as := by
  refine along_iff.2 fun bs act cs heq => ?_
  have hact := List.all_eq_true.1 has act (by simp [heq])
  have hnames : ∀ {ev : Event}, (ev.transcriptPath == some "t") = true →
      ev.sessionId = "s" → ∀ p, ev.transcriptPath = some p → p = "t" := by
    intro ev hev _ p hp
    rw [hp] at hev
    exact Option.some.inj (beq_iff_eq.1 hev)
  cases act with
  | edit disk => cases hact
  | receive req =>
      cases req with
      | event ev => exact ⟨trivial, hnames hact⟩
      | stopWait ev => exact ⟨trivial, hnames hact⟩
      | prune => exact ⟨trivial, trivial⟩
  | _ => exact ⟨trivial, trivial⟩

private theorem lists_transcribed {as : List Act}
    (has : as.all unedited = true) :
    (World.after transcribed as).daemon.disk.Lists forkEntry "t" "u" := by
  have hdisk : (World.after transcribed as).daemon.disk = transcribed := by
    refine Along.invariant (C := fun _ act => unedited act = true)
      (P := fun w : World => w.daemon.disk = transcribed) (fun w act hact h => ?_)
      (along_iff.2 fun bs act cs heq => ?_) rfl
    · rw [w.step_disk fun disk hedit => ?_, h]
      rw [hedit] at hact
      cases hact
    · exact List.all_eq_true.1 has act (by simp [heq])
  rw [hdisk]
  exact ⟨_, shows_showing _, by decide +kernel⟩

/-- The completion arrives a minute later, while the poll is parked. -/
theorem own_fork_recognised_parked :
    let w := World.after transcribed
      (spawnRead ++ .receive (.event completed) :: Act.moves 7 1 70)
    let w' := w.step (.move 1 { now := 70 })
    (w'.daemon.store.pauseOf "s").1 = (w.daemon.store.pauseOf "s").1
      ∧ w'.daemon.store.pending = w.daemon.store.pending := by
  have hnumber : (World.after transcribed spawnRead).jobs.length = 1 := by
    decide +kernel
  have h := own_fork_recognised (a := "s") transcribed_shows (tails_unedited (by decide +kernel))
    (by decide +kernel) spawnRead completed (Act.moves 7 1 70) { now := 70 } []
    rfl (by decide) rfl (lists_transcribed (by decide))
  rw [hnumber] at h
  exact h

/-- The session ends and its spawn registry is cleared, but not the
offset up to which its transcript has been read: the completion that
arrives later is taken for a genuine prompt. -/
theorem own_fork_forgotten :
    ¬∀ (fromStr : String → Option Json) (path : Path) (a u : String)
        (disk : Disk) (as : List Act),
      (∃ file, disk.Shows fromStr path file) →
      Along World.step (fun w act => w.appends fromStr path act
        ∧ act.names a path) (World.init disk) as →
      ∀ bs ev cs tick ds, as = bs ++ .receive (.event ev) :: (cs
          ++ .move (World.after disk bs).jobs.length tick :: ds) →
        ev.notifies a u = true → ev.transcriptPath = some path →
        (World.after disk bs).daemon.disk.Lists fromStr path u →
        let w := World.after disk (bs ++ .receive (.event ev) :: cs)
        let w' := w.step (.move (World.after disk bs).jobs.length tick)
        (w'.daemon.store.pauseOf a).1 = (w.daemon.store.pauseOf a).1
          ∧ w'.daemon.store.pending = w.daemon.store.pending := by
  intro h
  let ended := spawnRead
    ++ .receive (.event (.simple .sessionEnd "s")) :: Act.moves 5 1 20
  have hkept := (h forkEntry "t" "s" "u" transcribed
    (ended ++ .receive (.event completed) :: (Act.moves 8 2 70
      ++ .move (World.after transcribed ended).jobs.length { now := 70 } :: []))
    transcribed_shows (tails_unedited (by decide +kernel))
    ended completed (Act.moves 8 2 70) { now := 70 } [] rfl (by decide) rfl
    (lists_transcribed (by decide))).1
  have hnumber : (World.after transcribed ended).jobs.length = 2 := by
    decide +kernel
  rw [hnumber] at hkept
  have hadvanced : (((World.after transcribed (ended
      ++ .receive (.event completed) :: Act.moves 8 2 70)).step
        (.move 2 { now := 70 })).daemon.store.pauseOf "s").1
      ≠ ((World.after transcribed (ended
      ++ .receive (.event completed) :: Act.moves 8 2 70)).daemon.store.pauseOf
        "s").1 := by
    decide +kernel
  exact hadvanced hkept

end Autofork
