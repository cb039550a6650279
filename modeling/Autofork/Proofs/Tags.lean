/-
Tag lists, through the columns they are stored in.

Every producer of a tag list trims its pieces, drops the empty ones and
keeps commas out of them, so joining a list and splitting it again gives
the list back. A session's filters survive its row, and a run is found
by exactly the tags of its fork (`tags_survive`).
-/
import Autofork.ForkFile
import Autofork.Proofs.Sections

namespace Autofork

open Lib

-- ============================================================ producers

/-- A variable's tags are pieces of a column. -/
theorem piece_of_mem_tagsFromEnv {var : Option String} {tags : List String}
    (h : tagsFromEnv var = some tags) : ∀ tag ∈ tags, Piece tag := by
  cases var with
  | none => cases h
  | some raw =>
      unfold tagsFromEnv at h
      dsimp only at h
      split at h
      · cases h
      · cases h
        intro tag htag
        have hmem : tag ∈ parseTags [raw] := htag
        exact piece_of_mem_parseTags hmem

theorem tagsFromEnv_ne_nil (var : Option String) :
    tagsFromEnv var ≠ some [] := by
  intro h
  cases var with
  | none => cases h
  | some raw =>
      unfold tagsFromEnv at h
      dsimp only at h
      split at h
      · cases h
      next hne => exact hne (by rw [Option.some.inj h]; rfl)

/-- A fork's tags are too. -/
theorem piece_of_mem_parseTagsYaml {v : Yaml} {name tag : String}
    (h : tag ∈ (parseTagsYaml v name).1) : Piece tag := by
  unfold parseTagsYaml at h
  cases v with
  | string s => exact piece_of_mem_parseTags h
  | sequence entries => exact piece_of_mem_parseTags h
  | _ => cases h

/-- A filter is read from its column as it was written. -/
theorem splitComma_tagsFromEnv (var : Option String) :
    ((tagsFromEnv var).map (join ",")).map splitComma = tagsFromEnv var := by
  cases h : tagsFromEnv var with
  | none => rfl
  | some tags =>
      rw [Option.map_some, Option.map_some,
        splitComma_join (piece_of_mem_tagsFromEnv h)]

-- ========================================================== the last run

/-- The run is of a session of the project, and its column lists the
tag. -/
def Carries (s : Store) (root : Path) (tag : String) (r : RunRec) : Prop :=
  (s.sessions.find? r.sessionId).any (fun x => x.projectRoot == root) = true
    ∧ ∃ tags, r.tags = some tags ∧ tag ∈ splitComma tags

private def inProject (s : Store) (root : Path) (r : RunRec) : Bool :=
  (s.sessions.find? r.sessionId).any fun x => x.projectRoot == root

private def listsTag (tag : String) (r : RunRec) : Bool :=
  r.tags.any fun rowTags =>
    (splitComma rowTags).any fun rt => [tag].any fun t => t == rt

private theorem carries_iff {s : Store} {root : Path} {tag : String}
    {r : RunRec} :
    Carries s root tag r ↔ inProject s root r = true ∧ listsTag tag r = true := by
  unfold Carries inProject listsTag
  rw [Option.any_eq_true (fun rowTags =>
    (splitComma rowTags).any fun rt => [tag].any fun t => t == rt)]
  simp

/-- The look-up of one tag. -/
private theorem lastRunForTags_single (s : Store) (root : Path)
    (tag : String) :
    s.lastRunForTags root [tag]
      = (((s.runs.filter (inProject s root)).insertionSort fun a b =>
        b.startedAt ≤ a.startedAt).find? (listsTag tag)).map
          RunRec.startedAt := by
  rw [Store.lastRunForTags, if_neg (by simp)]
  rfl

/-- In a list sorted by a number, descending, the first that satisfies a
condition has the greatest number of those that do. -/
private theorem find?_greatest {l : List RunRec} {p : RunRec → Bool}
    {r : RunRec} (hl : l.Pairwise fun a b => b.startedAt ≤ a.startedAt)
    (h : l.find? p = some r) :
    ∀ r' ∈ l, p r' = true → r'.startedAt ≤ r.startedAt := by
  obtain ⟨-, l₁, l₂, rfl, hno⟩ := List.find?_eq_some_iff_append.1 h
  intro r' hr' hp
  rcases List.mem_append.1 hr' with hr' | hr'
  · exact absurd hp (by simpa using hno r' hr')
  · rcases List.mem_cons.1 hr' with rfl | hr'
    · exact le_refl _
    · exact (List.pairwise_cons.1 (List.pairwise_append.1 hl).2.1).1 r' hr'

/-- The last run of a tag is the latest of those that carry it. -/
theorem lastRunForTags_eq_some_iff {s : Store} {root : Path} {tag : String}
    {t : Int} :
    s.lastRunForTags root [tag] = some t
      ↔ (∃ r ∈ s.runs, Carries s root tag r ∧ r.startedAt = t)
        ∧ ∀ r ∈ s.runs, Carries s root tag r → r.startedAt ≤ t := by
  have : Std.Total fun a b : RunRec => b.startedAt ≤ a.startedAt :=
    ⟨fun a b => le_total b.startedAt a.startedAt⟩
  have : IsTrans RunRec fun a b : RunRec => b.startedAt ≤ a.startedAt :=
    ⟨fun a b c hab hbc => le_trans hbc hab⟩
  have hsorted := List.pairwise_insertionSort
    (fun a b : RunRec => b.startedAt ≤ a.startedAt)
    (s.runs.filter (inProject s root))
  rw [lastRunForTags_single, Option.map_eq_some_iff]
  constructor
  · rintro ⟨r, hfind, rfl⟩
    have hgreatest := find?_greatest hsorted hfind
    have hr := List.mem_of_find?_eq_some hfind
    rw [List.mem_insertionSort, List.mem_filter] at hr
    refine ⟨⟨r, hr.1, carries_iff.2 ⟨hr.2, List.find?_some hfind⟩, rfl⟩,
      fun r' hr' hc => ?_⟩
    rw [carries_iff] at hc
    exact hgreatest r' ((List.mem_insertionSort _).2
      (List.mem_filter.2 ⟨hr', hc.1⟩)) hc.2
  · rintro ⟨⟨r, hr, hc, rfl⟩, hlatest⟩
    rw [carries_iff] at hc
    have hmem := (List.mem_insertionSort
      (fun a b : RunRec => b.startedAt ≤ a.startedAt)).2
        (List.mem_filter.2 ⟨hr, hc.1⟩)
    obtain ⟨r', hfind⟩ := Option.isSome_iff_exists.1
      (List.find?_isSome.2 ⟨r, hmem, hc.2⟩)
    refine ⟨r', hfind, le_antisymm ?_ (find?_greatest hsorted hfind r hmem hc.2)⟩
    have hr' := List.mem_of_find?_eq_some hfind
    rw [List.mem_insertionSort, List.mem_filter] at hr'
    exact hlatest r' hr'.1 (carries_iff.2 ⟨hr'.2, List.find?_some hfind⟩)

theorem lastRunForTags_eq_none_iff {s : Store} {root : Path} {tag : String} :
    s.lastRunForTags root [tag] = none
      ↔ ∀ r ∈ s.runs, ¬Carries s root tag r := by
  rw [lastRunForTags_single, Option.map_eq_none_iff, List.find?_eq_none]
  simp only [List.mem_insertionSort, List.mem_filter, carries_iff]
  grind

/-- One more run is the last of a tag it carries, unless a later one has
been recorded, and changes nothing for the other tags. -/
theorem lastRunForTags_append {s s' : Store} {r : RunRec} (root : Path)
    (tag : String) (hsessions : s'.sessions = s.sessions)
    (hruns : s'.runs = s.runs ++ [r]) :
    (Carries s root tag r → s'.lastRunForTags root [tag]
        = some ((s.lastRunForTags root [tag]).elim r.startedAt
          (max r.startedAt)))
      ∧ (¬Carries s root tag r →
        s'.lastRunForTags root [tag] = s.lastRunForTags root [tag]) := by
  have hcarries : ∀ x, Carries s' root tag x ↔ Carries s root tag x := by
    intro x
    unfold Carries
    rw [hsessions]
  constructor
  · intro hc
    rw [lastRunForTags_eq_some_iff]
    simp only [hcarries, hruns, List.mem_append, List.mem_singleton]
    cases hold : s.lastRunForTags root [tag] with
    | none =>
        have hnone := lastRunForTags_eq_none_iff.1 hold
        refine ⟨⟨r, Or.inr rfl, hc, rfl⟩, ?_⟩
        rintro x (hx | rfl) hxc
        · exact absurd hxc (hnone x hx)
        · exact le_refl _
    | some last =>
        obtain ⟨⟨x, hx, hxc, rfl⟩, hlatest⟩ := lastRunForTags_eq_some_iff.1 hold
        refine ⟨?_, ?_⟩
        · rcases le_total r.startedAt x.startedAt with hle | hle
          · exact ⟨x, Or.inl hx, hxc, (max_eq_right hle).symm⟩
          · exact ⟨r, Or.inr rfl, hc, (max_eq_left hle).symm⟩
        · rintro y (hy | rfl) hyc
          · exact le_trans (hlatest y hy hyc) (le_max_right _ _)
          · exact le_max_left _ _
  · intro hc
    refine Option.ext fun t => ?_
    rw [lastRunForTags_eq_some_iff, lastRunForTags_eq_some_iff]
    simp only [hcarries, hruns, List.mem_append, List.mem_singleton]
    grind

-- =========================================================== the columns

/-- A run of a fork carries the fork's tags and no others. -/
private theorem carries_issued (s : Store) (root : Path) (tag : String)
    (session : SessionRow) (t : Int) (n : Nat) {x : SelectedFork}
    (hpieces : ∀ tag ∈ x.tags, Piece tag) :
    ∃ r, issuedRuns session t n [x] = [r] ∧ r.startedAt = t
      ∧ (Carries s root tag r ↔ (s.sessions.find? session.sessionId).any
        (fun y => y.projectRoot == root) = true ∧ tag ∈ x.tags) := by
  refine ⟨_, rfl, rfl, ?_⟩
  unfold Carries
  dsimp only
  cases htags : x.tags with
  | nil => simp
  | cons y ys =>
      have hsplit := splitComma_join hpieces
      rw [htags] at hsplit
      simp [hsplit]

/-- The filters of a row are those of the event that touched it last. -/
private theorem tags_upsertSession (store : Store) (ev : Event) (now : Int) :
    ((store.upsertSession ev now).getSession ev.sessionId).map
        (fun row => (row.enableTags, row.disableTags))
      = some ((ev.enableTags.map (join ",")).map splitComma,
        (ev.disableTags.map (join ",")).map splitComma) := by
  unfold Store.upsertSession Store.getSession
  rw [Table.find?_insertOrUpdate, if_pos rfl, Option.map_some, Option.map_some]
  cases store.sessions.find? ev.sessionId <;> rfl

/-- Tag lists survive their columns: the filters of an event are read
back as the environment gave them, and a run recorded for a fork is the
one found for a tag exactly when the tag is in the fork's list. -/
theorem tags_survive (store : Store) (ev : Event)
    (enableVar disableVar : Option String) (now : Int) :
    ((store.upsertSession
        { ev with
          enableTags := tagsFromEnv enableVar
          disableTags := tagsFromEnv disableVar } now).getSession
        ev.sessionId).map (fun row => (row.enableTags, row.disableTags))
      = some (tagsFromEnv enableVar, tagsFromEnv disableVar)
    ∧ (tagsFromEnv enableVar ≠ some [] ∧ tagsFromEnv disableVar ≠ some [])
    ∧ ∀ (v : Yaml) (name : String) (session : SessionRow) (t : Int)
      (issue : Nat) (sel : SelectedFork) (preds : List String) (root : Path)
      (g : String),
      let tags := (parseTagsYaml v name).1
      let known := (store.sessions.find? session.sessionId).any
        fun row => row.projectRoot == root
      (store.stampFork session t issue
          ({ sel with tags := tags }, preds)).lastRunForTags root [g]
        = if known = true ∧ g ∈ tags then
            some ((store.lastRunForTags root [g]).elim t (max t))
          else store.lastRunForTags root [g] := by
  refine ⟨?_, ⟨tagsFromEnv_ne_nil _, tagsFromEnv_ne_nil _⟩, ?_⟩
  · rw [tags_upsertSession store
      { ev with
        enableTags := tagsFromEnv enableVar
        disableTags := tagsFromEnv disableVar } now,
      splitComma_tagsFromEnv, splitComma_tagsFromEnv]
  · intro v name session t issue sel preds root g tags known
    obtain ⟨r, hrun, hstarted, hcarries⟩ := carries_issued store root g
      session t (lastRunId store.runs) (x := { sel with tags := tags })
      fun _ => piece_of_mem_parseTagsYaml
    obtain ⟨_, _, _, _, honly⟩ := stampFork_only session t issue store
      ({ sel with tags := tags }, preds)
    have hruns := runs_stampFork store session t issue
      ({ sel with tags := tags }, preds)
    rw [hrun] at hruns
    obtain ⟨hfound, hkept⟩ :=
      lastRunForTags_append root g (by rw [honly]) hruns
    rw [hcarries, hstarted] at hfound
    rw [hcarries] at hkept
    split
    next h => exact hfound h
    next h => exact hkept h

end Autofork
