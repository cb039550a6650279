/-
What discovery finds, without its accumulator.

A traversal lists the files that count as forks by their place
(`candidates`), in an order the order of a folder's entries has no part
in (`candidates_perm`). The scan goes through that list
(`scanForksDir_eq`), and what it keeps of it is the first valid fork of
each name (`discovery_eq_reference`), the others being reported.
-/
import Autofork.Lib.Firsts
import Autofork.Discovery

namespace Autofork

open Lib

variable (fs : Files)

-- =========================================================== the reference

/-- A file that counts as a fork by its place. -/
structure Candidate where
  name : String
  path : Path
  root : Path

/-- The candidates in a folder, `levels` above the nesting cap: names in
order, each folder's own where the folder stands. -/
def candidates (root : Path) : Nat → Path → List Candidate
  | 0, _ => []
  | levels + 1, dir =>
      (sortedNames ((fs.readDir dir).getD [])).flatMap fun bytes =>
        match visibleName bytes with
        | none => []
        | some name =>
            let path := joinPath dir (String.ofList name)
            if fs.isDir path then
              if fs.isFile (joinPath path "FORK.md") then
                [⟨String.ofList name, joinPath path "FORK.md", root⟩]
              else candidates root levels path
            else match mdStem name with
              | some stem => [⟨String.ofList stem, path, root⟩]
              | none => []

/-- The candidates under a list of roots, one root after the other. -/
def candidatesOf (roots : List Path) : List Candidate :=
  roots.flatMap fun root => candidates fs root (maxForkNestingDepth + 1) root

/-- The fork a candidate is, if it can be read, parses, and is marked. -/
def validFork (c : Candidate) : Option FoundFork :=
  match fs.readToString c.path with
  | .error _ => none
  | .ok content => match fs.parseForkFile c.name content with
    | .fork parsed =>
        some { name := c.name, path := c.path, parsed, root := c.root }
    | .notFork _ | .invalid => none

-- ================================================================ the scan

variable {fs}

/-- One step of the scan, on a candidate. -/
def insertCandidate (fs : Files) (found : Found) (c : Candidate) : Found :=
  insertEntry fs found c.name c.path c.root

theorem scanForksDir_eq (root : Path) (levels : Nat) (dir : Path)
    (found : Found) :
    scanForksDir fs root levels dir found
      = (candidates fs root levels dir).foldl (insertCandidate fs) found := by
  induction levels generalizing dir found with
  | zero => rfl
  | succ levels ih =>
      rw [scanForksDir, candidates]
      cases fs.readDir dir with
      | none => rfl
      | some names =>
          rw [Option.getD_some, List.foldl_flatMap]
          apply List.foldl_ext
          intro found bytes _
          cases visibleName bytes with
          | none => rfl
          | some name =>
              dsimp only
              split
              · split
                · rfl
                · exact ih _ _
              · cases mdStem name <;> rfl

theorem scanRoots_eq (roots : List Path) :
    scanRoots fs roots
      = (candidatesOf fs roots).foldl (insertCandidate fs) {} := by
  rw [scanRoots, candidatesOf, List.foldl_flatMap]
  apply List.foldl_ext
  intro found root _
  exact scanForksDir_eq root _ root found

/-- A candidate that is no valid fork leaves the entries alone. -/
private theorem insertCandidate_none {found : Found} {c : Candidate}
    (h : validFork fs c = none) :
    (insertCandidate fs found c).entries = found.entries := by
  unfold validFork at h
  unfold insertCandidate insertEntry
  cases hread : fs.readToString c.path with
  | error e => rfl
  | ok content =>
      simp only [hread] at h ⊢
      cases hparse : fs.parseForkFile c.name content with
      | fork parsed => simp [hparse] at h
      | notFork forkLike => cases forkLike <;> rfl
      | invalid => rfl

private theorem insertCandidate_some {found : Found} {c : Candidate}
    {e : FoundFork} (h : validFork fs c = some e) :
    insertCandidate fs found c
      = match found.entries.find? fun x => x.name == e.name with
        | some existing =>
            if existing.path = e.path then found
            else found.warn (shadowedWarning e.name e.path existing.path)
        | none => { found with entries := found.entries ++ [e] } := by
  unfold validFork at h
  unfold insertCandidate insertEntry
  cases hread : fs.readToString c.path with
  | error e => simp [hread] at h
  | ok content =>
      simp only [hread] at h ⊢
      cases hparse : fs.parseForkFile c.name content with
      | fork parsed =>
          simp only [hparse, Option.some.injEq] at h
          subst h
          rfl
      | notFork | invalid => simp [hparse] at h

/-- The entries grow by what has a new name. -/
private theorem entries_insertCandidate (found : Found) (c : Candidate) :
    (insertCandidate fs found c).entries
      = (validFork fs c).toList.foldl (keepNew fun e => e.name)
          found.entries := by
  cases h : validFork fs c with
  | none => exact insertCandidate_none h
  | some e =>
      rw [insertCandidate_some h, Option.toList_some, List.foldl_cons,
        List.foldl_nil, keepNew]
      cases hfind : found.entries.find? fun x => x.name == e.name with
      | some existing =>
          have htaken : e.name ∈ found.entries.map fun x => x.name := by
            have hname := List.find?_some hfind
            exact List.mem_map.2 ⟨existing, List.mem_of_find?_eq_some hfind,
              eq_of_beq hname⟩
          rw [if_pos htaken]
          dsimp only
          split <;> rfl
      | none =>
          have hfree : e.name ∉ found.entries.map fun x => x.name := by
            intro htaken
            obtain ⟨x, hx, hname⟩ := List.mem_map.1 htaken
            exact absurd (beq_iff_eq.2 hname) (List.find?_eq_none.1 hfind x hx)
          rw [if_neg hfree]

private theorem entries_foldl (cs : List Candidate) (found : Found) :
    (cs.foldl (insertCandidate fs) found).entries
      = (cs.filterMap (validFork fs)).foldl (keepNew fun e => e.name)
          found.entries := by
  induction cs generalizing found with
  | nil => rfl
  | cons c cs ih =>
      rw [List.foldl_cons, ih, entries_insertCandidate]
      cases h : validFork fs c with
      | none => rw [List.filterMap_cons_none h]; rfl
      | some e => rw [List.filterMap_cons_some h]; rfl

/-- A valid fork is an entry, or lost its name to one and is reported. -/
private def Accounted (found : Found) (e : FoundFork) : Prop :=
  ∃ kept ∈ found.entries, kept.name = e.name
    ∧ (kept.path = e.path
      ∨ shadowedWarning e.name e.path kept.path ∈ found.warnings)

/-- What is found is not lost. -/
private theorem grows_insertCandidate (found : Found) (c : Candidate) :
    found.entries ⊆ (insertCandidate fs found c).entries
      ∧ found.warnings ⊆ (insertCandidate fs found c).warnings := by
  have hwarn : ∀ w, found.entries ⊆ (found.warn w).entries
      ∧ found.warnings ⊆ (found.warn w).warnings := fun w =>
    ⟨List.Subset.refl _, List.subset_append_left _ _⟩
  have hsame := And.intro (List.Subset.refl found.entries)
    (List.Subset.refl found.warnings)
  unfold insertCandidate insertEntry
  split
  · exact hwarn _
  · split
    · exact hwarn _
    · exact hsame
    · exact hwarn _
    · split
      · split
        · exact hsame
        · exact hwarn _
      · exact ⟨List.subset_append_left _ _, List.Subset.refl _⟩

private theorem Accounted.step {found : Found} {e : FoundFork}
    (h : Accounted found e) (c : Candidate) :
    Accounted (insertCandidate fs found c) e := by
  obtain ⟨kept, hkept, hname, hpath⟩ := h
  obtain ⟨hentries, hwarnings⟩ := @grows_insertCandidate fs found c
  exact ⟨kept, hentries hkept, hname, hpath.imp_right fun hw => hwarnings hw⟩

/-- A valid fork is accounted for as soon as it is reached. -/
private theorem accounted_insertCandidate (found : Found) {c : Candidate}
    {e : FoundFork} (h : validFork fs c = some e) :
    Accounted (insertCandidate fs found c) e := by
  rw [insertCandidate_some h]
  cases hfind : found.entries.find? fun x => x.name == e.name with
  | none =>
      exact ⟨e, List.mem_append_right _ (List.mem_singleton_self e), rfl,
        .inl rfl⟩
  | some existing =>
      have hmem := List.mem_of_find?_eq_some hfind
      have hname := List.find?_some hfind
      dsimp only
      split
      next hpath => exact ⟨existing, hmem, eq_of_beq hname, .inl hpath⟩
      next hpath =>
        refine ⟨existing, hmem, eq_of_beq hname, .inr ?_⟩
        exact List.mem_append_right _ (List.mem_singleton_self _)

private theorem accounted_foldl {cs : List Candidate} {e : FoundFork}
    (h : e ∈ cs.filterMap (validFork fs)) (found : Found) :
    Accounted (cs.foldl (insertCandidate fs) found) e := by
  have hkeeps : ∀ (cs : List Candidate) (found : Found), Accounted found e →
      Accounted (cs.foldl (insertCandidate fs) found) e := by
    intro cs
    induction cs with
    | nil => exact fun _ h => h
    | cons c cs ih => exact fun _ h => ih _ (h.step c)
  obtain ⟨c, hc, hvalid⟩ := List.mem_filterMap.1 h
  obtain ⟨before, after, rfl⟩ := List.append_of_mem hc
  rw [List.foldl_append, List.foldl_cons]
  exact hkeeps after _ (accounted_insertCandidate _ hvalid)

/-- Discovery keeps the first valid fork of each name that the traversal
comes by, in the traversal's order, and reports every other. -/
theorem discovery_eq_reference (fs : Files) (roots : List Path) :
    let found := scanRoots fs roots
    let valid := (candidatesOf fs roots).filterMap (validFork fs)
    found.entries = firsts (fun e => e.name) valid
      ∧ (found.entries.map fun e => e.name).Nodup
      ∧ (∀ e, e ∈ found.entries ↔ ∃ before after,
          valid = before ++ e :: after ∧ ∀ x ∈ before, x.name ≠ e.name)
      ∧ ∀ e ∈ valid, ∃ kept ∈ found.entries, kept.name = e.name
          ∧ (kept.path = e.path
            ∨ shadowedWarning e.name e.path kept.path ∈ found.warnings) := by
  intro found valid
  have hentries : found.entries = firsts (fun e => e.name) valid := by
    show (scanRoots fs roots).entries = _
    rw [scanRoots_eq, entries_foldl, foldl_keepNew_nil]
  refine ⟨hentries, ?_, ?_, ?_⟩
  · rw [hentries]
    exact nodup_firsts valid
  · intro e
    rw [hentries]
    exact mem_firsts_iff
  · intro e he
    show Accounted (scanRoots fs roots) e
    rw [scanRoots_eq]
    exact accounted_foldl he {}

-- ============================================== the order of the entries

/-- A folder's names are visited in the order of their bytes, and each of
them is. -/
theorem sortedNames_sorted (names : List (List UInt8)) :
    (sortedNames names).Pairwise (· ≤ ·) ∧ (sortedNames names).Perm names :=
  ⟨List.pairwise_insertionSort _ _, List.perm_insertionSort _ _⟩

/-- The order in which a folder lists its names does not matter. -/
theorem sortedNames_perm {names names' : List (List UInt8)}
    (h : names.Perm names') : sortedNames names = sortedNames names' := by
  obtain ⟨hsorted, hperm⟩ := sortedNames_sorted names
  obtain ⟨hsorted', hperm'⟩ := sortedNames_sorted names'
  apply @List.Perm.eq_of_pairwise _ (· ≤ ·)
  · intro x y _ _
    exact List.le_antisymm
  · exact hsorted
  · exact hsorted'
  · exact (hperm.trans h).trans hperm'.symm

/-- Two roots with folders in them, and a file that cannot be read. -/
private def grove : Files where
  readDir dir := ([
    ("/p", ["zeta.md", "deep", ".draft.md", "notes.txt", "alpha"]),
    ("/p/deep", ["b.md", "a.md"]),
    ("/u", ["omega.md", "b.md", "a.md"])].lookup dir).map fun names =>
      names.map fun name => encode name.toList
  isDir path := ["/p", "/p/deep", "/p/alpha", "/u"].contains path
  isFile path := path == "/p/alpha/FORK.md"
  readToString path :=
    if path = "/p/deep/b.md" then .error "denied" else .ok ""
  canonicalize := some
  parseForkFile _ _ := .fork ⟨{ runOn := [] }, "", []⟩

-- the file that cannot be read shadows nothing
example :
    ((scanRoots grove ["/p", "/u"]).entries.map fun e => e.path)
        = ["/p/alpha/FORK.md", "/p/deep/a.md", "/p/zeta.md", "/u/b.md",
          "/u/omega.md"]
      ∧ (scanRoots grove ["/p", "/u"]).warnings
        = ["failed to read /p/deep/b.md: denied",
          shadowedWarning "a" "/u/a.md" "/p/deep/a.md"] := by
  decide +kernel

/-- Folders that list the same names in another order have the same
candidates. -/
theorem candidates_perm {readDir : Path → Option (List (List UInt8))}
    (h : ∀ dir, ((fs.readDir dir).getD []).Perm ((readDir dir).getD []))
    (root : Path) (levels : Nat) (dir : Path) :
    candidates fs root levels dir
      = candidates { fs with readDir } root levels dir := by
  induction levels generalizing dir with
  | zero => rfl
  | succ levels ih =>
      rw [candidates, candidates, sortedNames_perm (h dir)]
      simp only [ih]

end Autofork
