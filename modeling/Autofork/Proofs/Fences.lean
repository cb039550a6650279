/-
The frontmatter's fences, by lines.

`byLines` says what a file divides into: its first line a fence, the
lines up to the next fence, the lines after it. The search of
`closeFrontmatter` passes over line after line (`closeFrontmatter_eq`),
but begins behind the opening fence's line break, so it never considers
the line next to it: the two divide a file alike unless that line is a
fence (`splitFrontmatter_eq_iff`).
-/
import Autofork.ForkFile

namespace Autofork

open Lib

-- =============================================================== lines

/-- A line that reads `---`, one trailing '\r' aside. -/
def isFence (line : List Char) : Bool :=
  line = "---".toList || line = "---\r".toList

/-- Lines as one text. -/
def joinLines (lines : List (List Char)) : List Char :=
  ['\n'].intercalate lines

/-- The lines before the first fence, and those after it. -/
def closingFence :
    List (List Char) → Option (List (List Char) × List (List Char))
  | [] => none
  | l :: ls =>
      if isFence l then some ([], ls)
      else (closingFence ls).map fun p => (l :: p.1, p.2)

/-- The division of a file by its lines: between its first line, a
fence, and the next fence is the frontmatter, without its final line
break. -/
def byLines (content : List Char) : Option (List Char) × List Char :=
  match content.splitOn '\n' with
  | [] => (none, content)
  | opening :: lines =>
      match if isFence opening then closingFence lines else none with
      | none => (none, content)
      | some (front, body) =>
          (some (stripCrSuffix (joinLines front)), joinLines body)

/-- The line next to the opening fence is a fence. -/
def EmptyBlock (content : List Char) : Prop :=
  ∃ opening second rest, content.splitOn '\n' = opening :: second :: rest
    ∧ isFence opening = true ∧ isFence second = true

private theorem joinLines_cons {l : List Char} {ls : List (List Char)}
    (h : ls ≠ []) : joinLines (l :: ls) = l ++ '\n' :: joinLines ls := by
  cases ls with
  | nil => exact absurd rfl h
  | cons m ls => simp [joinLines, List.intercalate_cons_cons]

-- ============================================================ searching

private theorem fence_eq : "\n---".toList = '\n' :: "---".toList := by decide

/-- A text without a line break is passed over. -/
private theorem not_begins {w t : List Char} (hw : '\n' ∉ w) :
    ¬Begins "\n---".toList w t := by
  rw [fence_eq]
  exact fun h => hw (mem_of_begins h)

/-- So is a line, break and all, unless the next begins with a fence. -/
private theorem not_begins_line {l t : List Char} (hl : '\n' ∉ l)
    (ht : ¬"---".toList <+: t) : ¬Begins "\n---".toList (l ++ ['\n']) t := by
  rintro ⟨u, v, huv, hv, hpat⟩
  rw [fence_eq] at hpat
  rcases List.append_eq_append_iff.1 huv with ⟨a, rfl, ha⟩ | ⟨a, rfl, rfl⟩
  · -- the occurrence begins at the line break or not at all
    cases a with
    | nil =>
        obtain rfl : v = ['\n'] := by simpa using ha.symm
        rw [List.cons_append, List.nil_append, List.cons_prefix_cons] at hpat
        exact ht hpat.2
    | cons x a =>
        obtain ⟨rfl, hav⟩ := List.cons_eq_cons.1 ha
        obtain ⟨rfl, rfl⟩ := List.append_eq_nil_iff.1 hav.symm
        exact hv rfl
  · cases a with
    | nil =>
        rw [List.nil_append, List.cons_append, List.nil_append,
          List.cons_prefix_cons] at hpat
        exact ht hpat.2
    | cons x a =>
        rw [List.cons_append, List.cons_append, List.cons_prefix_cons] at hpat
        exact hl (by simp [← hpat.1])

/-- Where the search begins does not matter within what it passes
over. -/
private theorem closeFrontmatter_shift {x w t : List Char} (rounds : Nat)
    (h : ¬Begins "\n---".toList w t) :
    closeFrontmatter (x ++ (w ++ t)) rounds x.length
      = closeFrontmatter (x ++ (w ++ t)) rounds (x.length + w.length) := by
  cases rounds with
  | zero => rfl
  | succ rounds =>
      have hdrop : (x ++ (w ++ t)).drop (x.length + w.length) = t := by
        rw [← List.append_assoc, ← List.length_append, List.drop_left]
      have hpos : findPos "\n---".toList (w ++ t)
          = (findPos "\n---".toList t).map (w.length + ·) := by
        unfold findPos
        rw [beforeFirst_skip h, Option.map_map, Option.map_map]
        congr 1
        funext s
        simp
      unfold closeFrontmatter
      rw [List.drop_left, hdrop, hpos]
      cases findPos "\n---".toList t with
      | none => rfl
      | some pos => simp only [Option.map_some, Nat.add_assoc]

/-- There are no more lines than characters, but for the first. -/
private theorem length_le_joinLines (l : List Char) (ls : List (List Char)) :
    ls.length ≤ (joinLines (l :: ls)).length := by
  induction ls generalizing l with
  | nil => exact Nat.zero_le _
  | cons m ls ih =>
      have := ih m
      rw [joinLines_cons (by simp), List.length_append, List.length_cons,
        List.length_cons]
      omega

private theorem joinLines_append (s l : List Char) (ls : List (List Char)) :
    joinLines ((s ++ l) :: ls) = s ++ joinLines (l :: ls) := by
  cases ls with
  | nil => simp [joinLines]
  | cons m ls => simp [joinLines, List.intercalate_cons_cons]

/-- A line's text begins as the text it heads does. -/
private theorem prefix_joinLines {pat l : List Char} {ls : List (List Char)}
    (hpat : '\n' ∉ pat) (h : pat <+: joinLines (l :: ls)) : pat <+: l := by
  cases ls with
  | nil => simpa [joinLines] using h
  | cons m ls =>
      rw [joinLines_cons (by simp)] at h
      rcases List.prefix_or_prefix_of_prefix h (List.prefix_append l _) with
        hl | ⟨w, rfl⟩
      · exact hl
      · rw [List.prefix_append_right_inj] at h
        cases w with
        | nil => simp
        | cons c w =>
            rw [List.cons_prefix_cons] at h
            exact absurd (by simp [h.1]) hpat

/-- What is left of a line whose first characters are those of a fence. -/
private theorem isFence_iff {l : List Char} :
    isFence ("---".toList ++ l) = true ↔ l = [] ∨ l = ['\r'] := by
  unfold isFence
  simp

private theorem prefix_of_isFence {l : List Char} (h : isFence l = true) :
    "---".toList <+: l := by
  unfold isFence at h
  simp only [Bool.or_eq_true, decide_eq_true_eq] at h
  rcases h with rfl | rfl <;> decide

/-- A candidate is the fence if nothing but a '\r' follows on its
line. -/
private theorem fenceEnd_joinLines {l : List Char} (hl : '\n' ∉ l)
    (ls : List (List Char)) :
    fenceEnd (joinLines (l :: ls))
      = if isFence ("---".toList ++ l) then some (joinLines ls) else none := by
  rw [if_congr isFence_iff rfl rfl]
  unfold fenceEnd
  cases l with
  | nil =>
      cases ls with
      | nil => rfl
      | cons m ls => simp [joinLines_cons, stripCrPrefix]
  | cons c l =>
      rw [show c :: l = [c] ++ l from rfl, joinLines_append]
      by_cases hc : c = '\r'
      · subst hc
        have hcr : stripCrPrefix (['\r'] ++ joinLines (l :: ls))
            = joinLines (l :: ls) := by simp [stripCrPrefix]
        rw [hcr]
        cases l with
        | nil =>
            cases ls with
            | nil => rfl
            | cons m ls => simp [joinLines_cons]
        | cons d l =>
            rw [show d :: l = [d] ++ l from rfl, joinLines_append]
            have hd : d ≠ '\n' := by rintro rfl; simp at hl
            simp [hd]
      · have hn : c ≠ '\n' := by rintro rfl; simp at hl
        simp [stripCrPrefix, hc, hn]

section
variable (x t : List Char) {first : List Char} (hfirst : '\n' ∉ first)
  (rounds : Nat)
include hfirst

/-- A search that meets a candidate. -/
private theorem closeFrontmatter_candidate :
    findPos "\n---".toList ((x ++ (first ++ '\n' :: ("---".toList ++ t))).drop
        x.length) = some first.length
      ∧ (x ++ (first ++ '\n' :: ("---".toList ++ t))).take
        (x.length + first.length) = x ++ first
      ∧ (x ++ (first ++ '\n' :: ("---".toList ++ t))).drop
        (x.length + first.length + 4) = t := by
  refine ⟨?_, ?_, ?_⟩
  · rw [List.drop_left]
    unfold findPos
    rw [beforeFirst_skip (not_begins hfirst), ← List.cons_append, ← fence_eq,
      beforeFirst_here]
    simp
  · rw [← List.append_assoc, ← List.length_append, List.take_left]
  · rw [← List.append_assoc, ← List.length_append, ← List.cons_append,
      ← fence_eq, ← List.append_assoc]
    exact List.drop_left' (by simp [Nat.add_assoc])

private theorem closeFrontmatter_hit {body : List Char}
    (h : fenceEnd t = some body) :
    closeFrontmatter (x ++ (first ++ '\n' :: ("---".toList ++ t)))
        (rounds + 1) x.length = some (stripCrSuffix (x ++ first), body) := by
  obtain ⟨hpos, htake, hdrop⟩ := closeFrontmatter_candidate x t hfirst
  rw [closeFrontmatter, hpos]
  simp only [htake, hdrop, h]

private theorem closeFrontmatter_miss (h : fenceEnd t = none) :
    closeFrontmatter (x ++ (first ++ '\n' :: ("---".toList ++ t)))
        (rounds + 1) x.length
      = closeFrontmatter (x ++ (first ++ '\n' :: ("---".toList ++ t))) rounds
        (x.length + first.length + 4) := by
  obtain ⟨hpos, -, hdrop⟩ := closeFrontmatter_candidate x t hfirst
  rw [closeFrontmatter, hpos]
  simp only [hdrop, h]

end

/-- The search goes by lines: it stops at the first fence after the line
it begins in. -/
private theorem closeFrontmatter_eq {lines : List (List Char)}
    (hlines : ∀ l ∈ lines, '\n' ∉ l) {first : List Char}
    (hfirst : '\n' ∉ first) (x : List Char) {rounds : Nat}
    (hrounds : lines.length < rounds) :
    closeFrontmatter (x ++ joinLines (first :: lines)) rounds x.length
      = (closingFence lines).map fun p =>
          (stripCrSuffix (x ++ joinLines (first :: p.1)), joinLines p.2) := by
  induction lines generalizing first x rounds with
  | nil =>
      have hnone : findPos "\n---".toList (joinLines [first]) = none := by
        unfold findPos
        rw [beforeFirst_absent (by decide), Option.map_none]
        intro hin
        rw [fence_eq] at hin
        exact hfirst (by simpa [joinLines] using hin.subset List.mem_cons_self)
      cases rounds with
      | zero => rfl
      | succ rounds =>
          unfold closeFrontmatter
          rw [List.drop_left, hnone]
          rfl
  | cons l ls ih =>
      obtain ⟨hl, hls⟩ := List.forall_mem_cons.1 hlines
      obtain ⟨rounds, rfl⟩ : ∃ r, rounds = r + 1 := ⟨rounds - 1, by omega⟩
      rw [List.length_cons] at hrounds
      have hassoc : ∀ u, x ++ (first ++ '\n' :: u)
          = (x ++ (first ++ ['\n'])) ++ u := by simp
      -- past a line that is no fence, the search is in the next one
      have hnext : isFence l = false → ∀ r, ls.length < r →
          closeFrontmatter (x ++ (first ++ '\n' :: joinLines (l :: ls))) r
              (x ++ (first ++ ['\n'])).length
            = (closingFence (l :: ls)).map fun p =>
              (stripCrSuffix (x ++ joinLines (first :: p.1)),
                joinLines p.2) := by
        intro hno r hr
        rw [hassoc, ih hls hl _ hr, closingFence, if_neg (by simp [hno]),
          Option.map_map]
        congr 1
        funext p
        rw [Function.comp_apply, joinLines_cons (l := first)
          (List.cons_ne_nil l p.1), hassoc (joinLines (l :: p.1))]
      rw [joinLines_cons (by simp)]
      by_cases hdash : "---".toList <+: l
      · obtain ⟨l, rfl⟩ := hdash
        have hl' : '\n' ∉ l := fun h => hl (List.mem_append_right _ h)
        have hend := fenceEnd_joinLines hl' ls
        rw [joinLines_append] at hnext ⊢
        cases hfence : isFence ("---".toList ++ l) with
        | true =>
            rw [hfence, if_pos rfl] at hend
            rw [closeFrontmatter_hit x _ hfirst rounds hend, closingFence,
              if_pos hfence]
            simp [joinLines]
        | false =>
            rw [hfence, if_neg (by simp)] at hend
            rw [closeFrontmatter_miss x _ hfirst rounds hend,
              ← hnext hfence rounds (by omega), hassoc]
            -- the rest of the line is behind the candidate's dashes
            have hshift := closeFrontmatter_shift (x := x ++ (first ++ ['\n']))
              (w := "---".toList) (t := joinLines (l :: ls)) rounds
              (not_begins (by decide))
            rw [hshift]
            congr 1
            simp
            omega
      · have hno : isFence l = false := by
          rw [Bool.eq_false_iff]
          exact fun h => hdash (prefix_of_isFence h)
        have hskip : ¬Begins "\n---".toList (first ++ ['\n'])
            (joinLines (l :: ls)) :=
          not_begins_line hfirst fun h => hdash (prefix_joinLines (by decide) h)
        have hshift := closeFrontmatter_shift (x := x) (rounds + 1) hskip
        rw [← List.length_append, List.append_assoc first] at hshift
        exact hshift.trans (hnext hno _ (by omega))

-- ============================================================ agreement

/-- The opening fence is a first line that has another after it. -/
private theorem openFrontmatter_eq {opening : List Char}
    (hopening : '\n' ∉ opening) (lines : List (List Char)) :
    openFrontmatter (joinLines (opening :: lines))
      = if isFence opening = true ∧ lines ≠ [] then some (joinLines lines)
        else none := by
  unfold openFrontmatter
  by_cases hdash : "---".toList <+: opening
  · obtain ⟨l, rfl⟩ := hdash
    have hl : '\n' ∉ l := fun h => hopening (List.mem_append_right _ h)
    rw [joinLines_append, stripPrefix, if_pos (List.prefix_append _ _),
      List.drop_left, Option.bind_some]
    simp only [isFence_iff]
    cases l with
    | nil =>
        cases lines with
        | nil => decide
        | cons m ls =>
            rw [joinLines_cons (by simp)]
            simp [stripPrefix]
    | cons c l =>
        rw [show c :: l = [c] ++ l from rfl, joinLines_append]
        have hn : '\n' ≠ c := by rintro rfl; simp at hl
        cases l with
        | nil =>
            cases lines with
            | nil => simp [stripPrefix, joinLines, hn]
            | cons m ls =>
                rw [joinLines_cons (by simp)]
                by_cases hc : c = '\r'
                · simp [stripPrefix, hc]
                · simp [stripPrefix, hc, Ne.symm hc, hn]
        | cons d l =>
            rw [show d :: l = [d] ++ l from rfl, joinLines_append]
            have hd : '\n' ≠ d := by rintro rfl; simp at hl
            simp [stripPrefix, hn, hd]
  · have hno : isFence opening = false := by
      rw [Bool.eq_false_iff]
      exact fun h => hdash (prefix_of_isFence h)
    rw [stripPrefix, if_neg fun h => hdash (prefix_joinLines (by decide) h)]
    simp [hno]

/-- What begins with a fence is not empty without a '\r' at its end. -/
private theorem stripCrSuffix_fence_ne_nil {l : List Char}
    (hl : isFence l = true) (ls : List (List Char)) :
    stripCrSuffix (joinLines (l :: ls)) ≠ [] := by
  obtain ⟨m, rfl⟩ := prefix_of_isFence hl
  rw [joinLines_append]
  unfold stripCrSuffix
  split
  · intro hnil
    have hlen := congrArg List.length hnil
    rw [List.length_dropLast, List.length_append] at hlen
    simp at hlen
  · simp

/-- The search divides a file as its lines do, unless the line next to
the opening fence is a fence. -/
theorem splitFrontmatter_eq_iff (content : List Char) :
    splitFrontmatter content = byLines content ↔ ¬EmptyBlock content := by
  have hjoin : joinLines (content.splitOn '\n') = content :=
    List.intercalate_splitOn '\n'
  have hmem : ∀ l ∈ content.splitOn '\n', '\n' ∉ l := fun _ => not_mem_splitOn
  unfold EmptyBlock byLines splitFrontmatter
  cases hlines : content.splitOn '\n' with
  | nil => exact absurd hlines (List.splitOn_ne_nil _ _)
  | cons opening lines =>
      rw [hlines] at hjoin hmem
      obtain ⟨hopening, hmem⟩ := List.forall_mem_cons.1 hmem
      have hopen := openFrontmatter_eq hopening lines
      rw [hjoin] at hopen
      rw [hopen]
      cases hfence : isFence opening with
      | false => simp [hfence]
      | true =>
          cases lines with
          | nil => simp [closingFence]
          | cons second ls =>
              obtain ⟨hsecond, hls⟩ := List.forall_mem_cons.1 hmem
              have hclose := closeFrontmatter_eq hls hsecond []
                (Nat.lt_succ_of_le (length_le_joinLines second ls))
              simp only [List.nil_append, List.length_nil] at hclose
              simp only [hclose, hfence, ne_eq, List.cons_ne_nil,
                not_false_eq_true, and_self, if_true, closingFence]
              cases hnext : isFence second with
              | false =>
                  simp only [Bool.false_eq_true, if_false]
                  cases closingFence ls with
                  | none => simp [hnext]
                  | some p => simp [hnext]
              | true =>
                  have hne := stripCrSuffix_fence_ne_nil hnext
                  simp only [if_true]
                  constructor
                  · intro heq
                    cases hclosing : closingFence ls with
                    | none => simp [hclosing] at heq
                    | some p =>
                        simp only [hclosing, Option.map_some, Prod.mk.injEq,
                          Option.some.injEq] at heq
                        exact absurd heq.1 (hne p.1)
                  · intro hno
                    exact absurd ⟨_, _, _, rfl, hfence, hnext⟩ hno

/-- An empty block is not seen as frontmatter. -/
theorem splitFrontmatter_empty_block :
    splitFrontmatter "---\n---\nbody\n".toList
        = (none, "---\n---\nbody\n".toList)
      ∧ byLines "---\n---\nbody\n".toList = (some [], "body\n".toList) := by
  decide +kernel

end Autofork
