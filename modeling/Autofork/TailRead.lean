/-
The transcript file as the bytes it holds, and one read of it.

The reader takes the file line by line as text, and gives up on the
first line that is none, the unfinished one at the end included; what
it had scanned by then is dropped. So a read depends on the rest of the
file as a whole (`readDeltaBytes_eq`), and from a file that is a text
it reads what `readDelta` does (`readDeltaBytes_encode`).
-/
import Autofork.Lib.Utf8
import Autofork.Transcript

namespace Autofork

open Lib

/-- The byte that ends a line. -/
def newline : UInt8 := '\n'.val.toUInt8

section reading

variable (fromStr : String → Option Json)

/-- The loop over the lines as the reader hands them out. -/
def readLines (delta : Delta) : List (List UInt8) → Option Delta
  | [] => some delta
  | line :: lines => match decode line with
      | none => none
      | some text =>
          if text.getLast? = some '\n' then
            readLines (scanLine fromStr delta text) lines
          else some delta

/-- Where a read starts: a file that has shrunk is read again. -/
def readStart (file : List UInt8) (offset : Nat) : Nat :=
  if file.length < offset then 0 else offset

/-- Read a transcript from an offset up to its last complete line. -/
def readDeltaBytes (file : List UInt8) (offset : Nat) : Option Delta :=
  let start := readStart file offset
  readLines fromStr { newOffset := start } (allLines newline (file.drop start))

end reading

variable {fromStr : String → Option Json}

-- ========================================================== the loop

theorem utf8Size_newline : '\n'.utf8Size = 1 := by decide

/-- Lines of text: the complete ones are scanned. -/
private theorem readLines_text (text : List Char) (delta : Delta) :
    readLines fromStr delta ((allLines '\n' text).map encode)
      = some ((completeLines '\n' text).foldl (scanLine fromStr) delta) := by
  have hlast : (lastPart '\n' text).getLast? ≠ some '\n' := getLast?_lastPart text
  have hloop : ∀ (lines : List (List Char)) (delta : Delta),
      (∀ line ∈ lines, line.getLast? = some '\n') →
      readLines fromStr delta
          ((lines ++ if lastPart '\n' text = [] then [] else [lastPart '\n' text]).map encode)
        = some (lines.foldl (scanLine fromStr) delta) := by
    intro lines
    induction lines with
    | nil =>
        intro delta _
        split
        · rfl
        · simp only [List.nil_append, List.map_cons, List.map_nil, readLines,
            decode_encode, if_neg hlast]
          rfl
    | cons line lines ih =>
        intro delta h
        rw [List.cons_append, List.map_cons, readLines, decode_encode]
        simp only [if_pos (h line List.mem_cons_self)]
        exact ih _ fun l hl => h l (List.mem_cons_of_mem _ hl)
  rw [allLines_eq]
  exact hloop _ delta fun line hline => whole_of_mem hline

/-- A line that is no text ends the read, whatever came before it. -/
private theorem readLines_none {lines : List (List UInt8)} {last : List UInt8}
    (h : ∀ line ∈ lines, line.getLast? = some newline)
    (hbad : (∃ line ∈ lines, ¬IsText line) ∨ ¬IsText last)
    (delta : Delta) :
    readLines fromStr delta
      (lines ++ if last = [] then [] else [last]) = none := by
  induction lines generalizing delta with
  | nil =>
      have hlast : ¬IsText last := by
        rcases hbad with ⟨_, hmem, _⟩ | hlast
        · cases hmem
        · exact hlast
      have hne : last ≠ [] := fun he => hlast (he ▸ isText_encode [])
      rw [if_neg hne, List.nil_append, readLines, decode_eq_none_iff.2 hlast]
  | cons line lines ih =>
      rw [List.cons_append, readLines]
      cases htext : decode line with
      | none => rfl
      | some text =>
          have hline : IsText line := ⟨text, decode_eq_some_iff.1 htext⟩
          have hrest : (∃ l ∈ lines, ¬IsText l) ∨ ¬IsText last := by
            rcases hbad with ⟨l, hmem, hl⟩ | hlast
            · rcases List.mem_cons.1 hmem with rfl | hmem
              · exact absurd hline hl
              · exact .inl ⟨l, hmem, hl⟩
            · exact .inr hlast
          have hbreak : text.getLast? = some '\n' := by
            rw [← getLast?_encode utf8Size_newline, decode_eq_some_iff.1 htext]
            exact h line List.mem_cons_self
          simp only [if_pos hbreak]
          exact ih (fun l hl => h l (List.mem_cons_of_mem _ hl)) hrest _

/-- A read takes all that follows as text, or fails. -/
theorem readDeltaBytes_eq (file : List UInt8) (offset : Nat) :
    readDeltaBytes fromStr file offset
      = (decode (file.drop (readStart file offset))).map fun text =>
          (completeLines '\n' text).foldl (scanLine fromStr)
            { newOffset := readStart file offset } := by
  show readLines fromStr _ (allLines newline (file.drop (readStart file offset))) = _
  generalize file.drop (readStart file offset) = rest
  cases hrest : decode rest with
  | some text =>
      rw [← decode_eq_some_iff.1 hrest, newline, allLines_encode utf8Size_newline,
        readLines_text]
      rfl
  | none =>
      have hbad : ¬IsText rest := decode_eq_none_iff.1 hrest
      rw [isText_iff_lines utf8Size_newline, not_and_or] at hbad
      rw [allLines_eq]
      apply readLines_none fun line hline => whole_of_mem hline
      refine hbad.imp (fun hlines => ?_) id
      obtain ⟨line, hline⟩ := not_forall.1 hlines
      exact ⟨line, Classical.not_imp.1 hline⟩

-- ================================================ files that are texts

private theorem decode_drop (text : List Char) (n : Nat) :
    decode ((encode text).drop n) = dropBytes text n := by
  induction text generalizing n with
  | nil =>
      rw [encode_nil, List.drop_nil]
      cases n <;> exact decode_encode []
  | cons c text ih =>
      cases n with
      | zero => exact decode_encode _
      | succ n =>
          have hlen : (String.utf8EncodeChar c).length = c.utf8Size :=
            String.length_utf8EncodeChar c
          rw [dropBytes, encode_cons, List.drop_append, hlen]
          split
          next hfit =>
            rw [List.drop_eq_nil_of_le (hlen ▸ hfit), List.nil_append]
            exact ih _
          next hinside =>
            apply decode_eq_none_iff.2
            exact not_isText_of_tail (Nat.succ_pos n) (by omega) _

/-- On a file that is a text, the read of the text. -/
theorem readDeltaBytes_encode (file : List Char) (offset : Nat) :
    readDeltaBytes fromStr (encode file) offset
      = readDelta fromStr file offset := by
  rw [readDeltaBytes_eq, decode_drop, readStart, length_encode]
  rfl

end Autofork
