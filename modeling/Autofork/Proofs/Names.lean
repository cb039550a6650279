/-
Fork names that are written down and read back.

A fork's name leaves the daemon in two texts it reads again. The spawn
prompt quotes it between apostrophes after a fingerprint, and the
transcript watcher takes what stands between the first fingerprint and
the next apostrophe; the path of the fork comes before the fingerprint.
So the name is read back exactly when it holds no apostrophe and the
path no fingerprint, or one that happens to announce the same name
(`fork_name_read_back_iff`). The predecessors of a held dependent are
joined with commas and read back as a tag list is, so exactly names
without a comma and without white space around them survive
(`preds_read_back_iff`). File names are not so restricted.
-/
import Autofork.Proofs.Releases
import Autofork.Transcript

namespace Autofork

open Lib

-- ========================================================== fingerprints

/-- What stands between a fork's path and the fingerprint. -/
def promptBody : String := " and follow the instructions in its body. "

/-- What the first fingerprint of a prompt that names this path quotes
is this name: it has no apostrophe, and a fingerprint in the path is
followed by it and an apostrophe. -/
def Legible (name path : String) : Prop :=
  name ≠ "" ∧ '\'' ∉ name.toList
    ∧ ∀ rest ∈ afterFirst spawnCtxPrefix.toList path.toList,
      name.toList ++ ['\''] <+: rest ++ (promptBody ++ spawnCtxPrefix).toList

/-- The characters of the fingerprint after the first, which does not
come again. -/
private def ctxTail : List Char := "ontext for this run: fork '".toList

private theorem ctx_cons : spawnCtxPrefix.toList = 'C' :: ctxTail := by decide

private theorem ctx_quote :
    spawnCtxPrefix.toList = "Context for this run: fork ".toList ++ ['\''] := by
  decide

/-- A fingerprint does not begin before the path, and does not end
between it and the genuine one. -/
private theorem infix_path_of_begins {path rest : List Char}
    (h : Begins spawnCtxPrefix.toList
      ("Read the file ".toList ++ (path ++ promptBody.toList))
      (spawnCtxPrefix.toList ++ rest)) :
    spawnCtxPrefix.toList <:+: path := by
  have hin : spawnCtxPrefix.toList
      <:+: "Read the file ".toList ++ (path ++ promptBody.toList) := by
    rw [ctx_cons] at h ⊢
    exact infix_of_begins (by decide) (by simp) h
  have hright : spawnCtxPrefix.toList <:+: path ++ promptBody.toList := by
    rw [ctx_cons] at hin ⊢
    exact infix_of_append_left (by decide) hin
  rw [ctx_quote] at hright ⊢
  exact infix_of_append_right (by decide) hright

/-- What follows the first fingerprint of a spawn prompt. -/
private theorem afterFirst_prompt (path rest : List Char) :
    afterFirst spawnCtxPrefix.toList ("Read the file ".toList
        ++ (path ++ (promptBody.toList ++ (spawnCtxPrefix.toList ++ rest))))
      = some (match afterFirst spawnCtxPrefix.toList path with
        | none => rest
        | some r => r ++ (promptBody ++ spawnCtxPrefix).toList ++ rest) := by
  have hne : spawnCtxPrefix.toList ≠ [] := by decide
  by_cases hin : spawnCtxPrefix.toList <:+: path
  · obtain ⟨u, r, rfl, hfirst⟩ := exists_first hne hin
    have hpath : afterFirst spawnCtxPrefix.toList
        (u ++ (spawnCtxPrefix.toList ++ r)) = some r := by
      have hskip := hfirst []
      rw [List.append_nil] at hskip
      rw [afterFirst_skip hskip, afterFirst_here]
    have hhead : ∀ t, ¬Begins spawnCtxPrefix.toList "Read the file ".toList t := by
      intro t h
      rw [ctx_cons] at h
      exact absurd (mem_of_begins h) (by decide)
    rw [hpath, afterFirst_skip (hhead _)]
    simp only [List.append_assoc, String.toList_append]
    rw [afterFirst_skip (hfirst _), afterFirst_here]
  · rw [afterFirst_absent hne hin]
    simp only [← List.append_assoc]
    rw [List.append_assoc _ _ rest, List.append_assoc "Read the file ".toList,
      afterFirst_skip fun h => hin (infix_path_of_begins h), afterFirst_here]

/-- The name a text goes on with, up to an apostrophe. -/
private theorem quoted_iff {name : String} {text : List Char} :
    ((beforeFirst ['\''] text).bind fun n =>
        if n = [] then none else some (String.ofList n)) = some name
      ↔ name ≠ "" ∧ '\'' ∉ name.toList ∧ name.toList ++ ['\''] <+: text := by
  rw [Option.bind_eq_some_iff]
  constructor
  · rintro ⟨n, hn, hname⟩
    split at hname
    next => cases hname
    next hne =>
      cases hname
      rw [String.toList_ofList]
      refine ⟨fun h => hne ?_, beforeFirst_char_iff.1 hn⟩
      simpa using congrArg String.toList h
  · rintro ⟨hne, hquoted⟩
    refine ⟨name.toList, beforeFirst_char_iff.2 hquoted, ?_⟩
    rw [if_neg fun h => hne (String.toList_eq_nil_iff.1 h), String.ofList_toList]

/-- A quoted name lies within a text that ends with an apostrophe, or
the text is its beginning. -/
private theorem quoted_within {name text more : List Char}
    (hname : '\'' ∉ name) :
    name ++ ['\''] <+: text ++ ['\''] ++ more
      ↔ name ++ ['\''] <+: text ++ ['\''] := by
  refine ⟨fun h => ?_, fun h => h.trans (List.prefix_append _ _)⟩
  rcases List.prefix_or_prefix_of_prefix h (List.prefix_append _ more) with h | h
  · exact h
  · rcases List.prefix_concat_iff.1 h with heq | hin
    · rw [heq]
    · exact absurd (hin.subset (by simp)) hname

/-- The fork name a prompt with this path and name is read to quote. -/
private theorem read_name_iff {name path : String} {rest : List Char} :
    forkNameFromPrompt (String.ofList ("Read the file ".toList
        ++ (path.toList ++ (promptBody.toList ++ (spawnCtxPrefix.toList
          ++ (name.toList ++ '\'' :: rest)))))) = some name
      ↔ Legible name path := by
  unfold forkNameFromPrompt Legible
  rw [String.toList_ofList, afterFirst_prompt, Option.bind_eq_bind,
    Option.bind_some]
  cases hpath : afterFirst spawnCtxPrefix.toList path.toList with
  | none =>
      refine quoted_iff.trans (and_congr_right fun _ => and_congr_right fun _ => ?_)
      have hhere : name.toList ++ ['\''] <+: name.toList ++ '\'' :: rest := by
        rw [List.prefix_append_right_inj]
        exact ⟨rest, rfl⟩
      simp [hhere]
  | some r =>
      refine quoted_iff.trans (and_congr_right fun _ => and_congr_right fun hname => ?_)
      simp only [Option.mem_some_iff, forall_eq', String.toList_append, ctx_quote]
      have hsplit : ∀ more : List Char,
          r ++ (promptBody.toList ++ ("Context for this run: fork ".toList
            ++ ['\''])) ++ more
          = r ++ promptBody.toList ++ "Context for this run: fork ".toList
            ++ ['\''] ++ more := by simp
      have hwhole := hsplit []
      rw [List.append_nil, List.append_nil] at hwhole
      rw [hsplit, hwhole]
      exact quoted_within hname

-- ============================================================== prompts

private theorem prefix_of_left {head : List Char} {s t : String}
    (h : head <+: s.toList) : head <+: (s ++ t).toList := by
  rw [String.toList_append]
  exact h.trans (List.prefix_append _ _)

private theorem prefix_of_right {head : List Char} {s t : String}
    (h : head <+: t.toList) : s.toList ++ head <+: (s ++ t).toList := by
  rw [String.toList_append]
  exact (List.prefix_append_right_inj _).2 h

/-- A spawn prompt, up to the name it quotes. -/
private theorem spawnPrompt_eq (fork : DueFork)
    (sessionId conversationId projectRoot extra : String) : ∃ rest,
      spawnPrompt fork sessionId conversationId projectRoot ++ extra
        = String.ofList ("Read the file ".toList ++ (fork.path.toList
          ++ (promptBody.toList ++ (spawnCtxPrefix.toList
            ++ (fork.name.toList ++ '\'' :: rest))))) := by
  have hquote : ['\''] <+: "', trigger '".toList := by decide
  have hname : ("Read the file " ++ fork.path ++ promptBody ++ spawnCtxPrefix
      ++ fork.name).toList = "Read the file ".toList ++ (fork.path.toList
        ++ (promptBody.toList ++ (spawnCtxPrefix.toList ++ fork.name.toList))) := by
    simp only [String.toList_append, List.append_assoc]
  have hstart : ("Read the file " ++ fork.path ++ promptBody ++ spawnCtxPrefix
      ++ fork.name).toList ++ ['\'']
      <+: (spawnPrompt fork sessionId conversationId projectRoot
        ++ extra).toList := by
    unfold spawnPrompt
    -- down to the apostrophe that ends the name
    iterate 12 refine prefix_of_left ?_
    exact prefix_of_right hquote
  obtain ⟨rest, hrest⟩ := hstart
  refine ⟨rest, String.toList_inj.1 ?_⟩
  rw [String.toList_ofList, ← hrest, hname]
  simp only [List.append_assoc, List.singleton_append]

private theorem contains_of_left {s t u : String} (h : contains s u = true) :
    contains (s ++ t) u = true := contains_trans (contains_append_left s t) h

private theorem contains_of_right {s t u : String} (h : contains t u = true) :
    contains (s ++ t) u = true := contains_trans (contains_append_right s t) h

/-- Every payload embeds the spawn prompt of each of its forks. -/
theorem payloads_embed {forks : List DueFork} {fork : DueFork}
    (h : fork ∈ forks) (sessionId conversationId projectRoot : String)
    (held : List HeldFork) :
    contains (buildWakePayload sessionId conversationId projectRoot forks held)
        (spawnPrompt fork sessionId conversationId projectRoot) = true
      ∧ contains (buildReleasePayload sessionId conversationId projectRoot forks)
        (spawnPrompt fork sessionId conversationId projectRoot) = true := by
  have hpayload : ∀ (block : DueFork → String) (tail : String),
      contains (block fork) (spawnPrompt fork sessionId conversationId projectRoot)
        = true →
      contains (join "\n\n" (forks.map block) ++ tail)
        (spawnPrompt fork sessionId conversationId projectRoot) = true := by
    intro block tail hblock
    have hjoin : contains (join "\n\n" (forks.map block)) (block fork) = true :=
      contains_join (List.mem_map.2 ⟨fork, h, rfl⟩)
    exact contains_of_left (contains_trans hjoin hblock)
  have hself : ∀ s : String, contains s s = true := fun s => by simp [contains]
  constructor
  · refine hpayload _ _ ?_
    unfold rootBlock
    refine contains_of_right (contains_of_left (contains_of_left ?_))
    exact contains_of_right (hself _)
  · refine hpayload _ _ ?_
    unfold releaseBlock
    refine contains_of_right ?_
    -- what follows the prompt goes first, then what precedes it
    iterate 8 refine contains_of_left ?_
    exact contains_of_right (hself _)

/-- For every fork, whatever else its prompt says and whatever follows
it: both payloads embed its prompt, and the watcher reads the fork's
name from it exactly when name and path are legible. -/
theorem fork_name_read_back_iff (fork : DueFork)
    (sessionId conversationId projectRoot extra : String) :
    (∀ forks held, fork ∈ forks →
      contains (buildWakePayload sessionId conversationId projectRoot forks held)
          (spawnPrompt fork sessionId conversationId projectRoot) = true
        ∧ contains (buildReleasePayload sessionId conversationId projectRoot forks)
          (spawnPrompt fork sessionId conversationId projectRoot) = true)
      ∧ (forkNameFromPrompt
          (spawnPrompt fork sessionId conversationId projectRoot ++ extra)
          = some fork.name ↔ Legible fork.name fork.path) := by
  refine ⟨fun forks held h => payloads_embed h _ _ _ held, ?_⟩
  obtain ⟨rest, hrest⟩ :=
    spawnPrompt_eq fork sessionId conversationId projectRoot extra
  rw [hrest]
  exact read_name_iff

/-- A fork filed under a name with an apostrophe is read back by a
shorter name. -/
theorem quoted_name_cut :
    ¬∀ dir name sessionId conversationId projectRoot extra : String,
      name ≠ "" →
      forkNameFromPrompt (spawnPrompt
        { name, path := dir ++ "/" ++ name ++ ".md", trigger := "idle"
          overlap := false, after := [] }
        sessionId conversationId projectRoot ++ extra) = some name := by
  intro h
  exact absurd (h "/p/.autofork/forks" "it's" "s" "c" "/p" "" (by decide))
    (by decide +kernel)

-- ========================================================= predecessors

/-- After a hold, the only new row is the one it wrote. -/
theorem mem_pending_insert {s : Store} {sessionId forkName : String}
    {forkPath : Path} {triggerLabel : String} {overlap : Bool}
    {preds : List String} {t : Int} {issue : Nat} {row : PendingRec} :
    row ∈ (s.insertPendingDep sessionId forkName forkPath triggerLabel overlap
        preds t issue).pending.rows
      ↔ (row ∈ s.pending.rows ∧ row.key ≠ (sessionId, forkName))
        ∨ row = { sessionId, forkName, forkPath, triggerLabel, overlap
                  preds := join "," preds, createdAt := t, issue } :=
  Table.mem_insertOrReplace _

/-- For every list of predecessors: whatever else is in the store, a
hold lists its fork with just these, and releases it once each has
completed since, exactly when no name has a comma in it or white space
around it. -/
theorem preds_read_back_iff (preds : List String) :
    (∀ (s : Store) (sessionId forkName : String) (forkPath : Path)
        (triggerLabel : String) (overlap : Bool) (t : Int) (issue : Nat),
      let s' := s.insertPendingDep sessionId forkName forkPath triggerLabel
        overlap preds t issue
      (∃ dep ∈ s'.listPendingDeps sessionId,
          dep.forkName = forkName ∧ dep.preds = preds)
        ∧ ∀ spawns, (∀ pred ∈ preds,
            { s' with spawns }.forkCompletedSince sessionId pred t = true) →
          ∃ dep ∈ { s' with spawns }.releasable sessionId,
            dep.forkName = forkName ∧ dep.preds = preds)
      ↔ ∀ pred ∈ preds, Piece pred := by
  constructor
  · intro h pred hpred
    obtain ⟨⟨dep, hdep, -, hpreds⟩, -⟩ :=
      h .openInMemory "" "" "" "" false 0 0
    obtain ⟨row, hrow, -, rfl⟩ := mem_listPendingDeps.1 hdep
    rw [← hpreds] at hpred
    exact piece_of_mem_splitComma hpred
  · intro h s sessionId forkName forkPath triggerLabel overlap t issue s'
    have hback := splitComma_join h
    let row : PendingRec :=
      { sessionId, forkName, forkPath, triggerLabel, overlap
        preds := join "," preds, createdAt := t, issue }
    have hrow : row ∈ s'.pending.rows := mem_pending_insert.2 (.inr rfl)
    refine ⟨⟨row.toDep, mem_listPendingDeps.2 ⟨row, hrow, rfl, rfl⟩, rfl, hback⟩,
      fun spawns hdone => ?_⟩
    refine ⟨row.toDep, mem_releasable.2 ⟨⟨row, hrow, rfl, rfl⟩, fun pred hpred => ?_⟩,
      rfl, hback⟩
    exact hdone pred (hback ▸ hpred)

/-- A predecessor with a comma in its name is read back as two. -/
theorem comma_name_split :
    ¬∀ (preds : List String) (s : Store) (sessionId forkName : String)
        (forkPath : Path) (triggerLabel : String) (overlap : Bool) (t : Int)
        (issue : Nat),
      preds ≠ [] → preds.Nodup → (∀ pred ∈ preds, pred ≠ "") →
      ∃ dep ∈ (s.insertPendingDep sessionId forkName forkPath triggerLabel
          overlap preds t issue).listPendingDeps sessionId,
        dep.forkName = forkName ∧ dep.preds = preds := by
  intro h
  exact absurd (h ["a,b"] .openInMemory "s" "c" "/c.md" "idle" false 0 0
    (by decide) (by decide) (by decide)) (by decide +kernel)

end Autofork
