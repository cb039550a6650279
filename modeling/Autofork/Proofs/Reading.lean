/-
Reading a transcript piece by piece.

Scanning appends to what was scanned before (`scan_append`), so deltas
of consecutive lines join into the delta of them all. A read that
succeeds ends between two lines of the file, and a failed one moves
nothing: whatever prefixes of a growing text are read, the deltas join
into the delta of one read of the whole (`incremental_eq_whole`).

A read fails when what follows the offset is not text. That is the only
way a bad line is not skipped, and then no line is
(`bad_lines_skipped_iff`), in any later state of the file either
(`bad_line_blocks`).
-/
import Autofork.TailRead

namespace Autofork

open Lib

-- ====================================================== joining deltas

/-- One delta after another. -/
def Delta.andThen (a b : Delta) : Delta where
  newOffset := b.newOffset
  promptTokens := b.promptTokens <|> a.promptTokens
  model := b.model <|> a.model
  spawns := a.spawns ++ b.spawns
  taskIds := a.taskIds ++ b.taskIds
  notifications := a.notifications ++ b.notifications

/-- Deltas read one after the other, as one. -/
def Delta.joined (deltas : List Delta) : Delta :=
  deltas.foldl Delta.andThen { newOffset := 0 }

namespace Delta

/-- Nothing read. -/
theorem andThen_offset (a : Delta) (n : Nat) :
    a.andThen { newOffset := n } = { a with newOffset := n } := by
  simp only [andThen, List.append_nil, Option.orElse_eq_orElse,
    Option.orElse_eq_or, Option.none_or]

end Delta

variable {fromStr : String → Option Json}

private theorem scanAssistant_append (value : Json) (a b : Delta) :
    scanAssistant value (a.andThen b) = a.andThen (scanAssistant value b) := by
  simp only [scanAssistant, Delta.andThen, List.append_assoc,
    Option.orElse_eq_orElse, Option.orElse_eq_or, Option.or_assoc]

private theorem scanUserBlock_append (a b : Delta) (block : Json) :
    scanUserBlock (a.andThen b) block = a.andThen (scanUserBlock b block) := by
  unfold scanUserBlock
  split
  · split
    · simp only [Delta.andThen, List.append_assoc]
    · rfl
  · simp only [Delta.andThen, List.append_assoc]
  · rfl

private theorem scanUser_append (value : Json) (a b : Delta) :
    scanUser value (a.andThen b) = a.andThen (scanUser value b) := by
  unfold scanUser
  split
  · simp only [Delta.andThen, List.append_assoc]
  · exact List.foldl_hom a.andThen fun b block => scanUserBlock_append a b block
  · rfl

theorem scanEntry_append (value : Json) (a b : Delta) :
    scanEntry value (a.andThen b) = a.andThen (scanEntry value b) := by
  unfold scanEntry
  split
  · exact scanAssistant_append value a b
  · exact scanUser_append value a b
  · rfl

private theorem scanLine_append (a b : Delta) (line : List Char) :
    scanLine fromStr (a.andThen b) line
      = a.andThen (scanLine fromStr b line) := by
  unfold scanLine
  have hoffset : { a.andThen b with newOffset := (a.andThen b).newOffset + utf8Len line }
      = a.andThen { b with newOffset := b.newOffset + utf8Len line } := rfl
  rw [hoffset]
  cases fromStr (String.ofList line) with
  | none => rfl
  | some value => exact scanEntry_append value a _

/-- What lines add does not depend on what was scanned before them. -/
theorem scan_append (a : Delta) (lines : List (List Char)) :
    lines.foldl (scanLine fromStr) a
      = a.andThen (lines.foldl (scanLine fromStr) { newOffset := a.newOffset }) := by
  rw [← List.foldl_hom a.andThen fun b line => scanLine_append a b line,
    Delta.andThen_offset]

-- ============================================================ many reads

section reads

variable (fromStr)

/-- The deltas of reading a file time after time, each time from where
the last read that succeeded ended. -/
def readEach (offset : Nat) : List (List UInt8) → List Delta
  | [] => []
  | file :: files => match readDeltaBytes fromStr file offset with
      | none => readEach offset files
      | some delta => delta :: readEach delta.newOffset files

/-- A delta is what some lines give, each scanned whole and in order. -/
def ReadOf (lines : List (List Char)) (delta : Delta) : Prop :=
  ∃ start, delta = lines.foldl (scanLine fromStr) { newOffset := start }

end reads

/-- A read from where a text was read to. -/
private theorem read_after (u t : List Char) :
    readDeltaBytes fromStr (encode (u ++ t)) (utf8Len u)
      = some ((completeLines '\n' t).foldl (scanLine fromStr)
          { newOffset := utf8Len u }) := by
  have hlen : ¬utf8Len (u ++ t) < utf8Len u := by
    rw [utf8Len_append]
    omega
  rw [readDeltaBytes_encode, readDelta, if_neg hlen, dropBytes_append]
  rfl

/-- A read of a part of a text: it fails, or the part is a text too. -/
private theorem read_part {u v : List Char} {file : List UInt8}
    (hfrom : encode u <+: file) (hto : file <+: encode (u ++ v)) :
    readDeltaBytes fromStr file (utf8Len u) = none
      ∨ ∃ t, t <+: v ∧ file = encode (u ++ t) := by
  obtain ⟨rest, rfl⟩ := hfrom
  have hlen : (encode u).length = utf8Len u := length_encode u
  have hstart : readStart (encode u ++ rest) (utf8Len u) = (encode u).length := by
    rw [readStart, if_neg (by rw [List.length_append]; omega), hlen]
  rw [readDeltaBytes_eq, hstart, List.drop_left]
  cases htext : decode rest with
  | none => exact .inl rfl
  | some t =>
      have hrest : encode t = rest := decode_eq_some_iff.1 htext
      rw [encode_append, ← hrest, List.prefix_append_right_inj] at hto
      refine .inr ⟨t, prefix_of_encode hto, ?_⟩
      rw [encode_append, hrest]

private theorem readEach_text (qs : List (List UInt8)) (u v : List Char)
    (acc : Delta) (hacc : acc.newOffset = utf8Len u)
    (hfrom : ∀ q ∈ qs, encode u <+: q)
    (hto : ∀ q ∈ qs, q <+: encode (u ++ v))
    (hgrow : qs.Pairwise (· <+: ·)) :
    (readEach fromStr (utf8Len u) (qs ++ [encode (u ++ v)])).foldl
        Delta.andThen acc
      = (completeLines '\n' v).foldl (scanLine fromStr) acc
    ∧ ∃ blocks : List (List (List Char)),
        blocks.flatten = completeLines '\n' v
          ∧ List.Forall₂ (ReadOf fromStr) blocks
            (readEach fromStr (utf8Len u) (qs ++ [encode (u ++ v)])) := by
  induction qs generalizing u v acc with
  | nil =>
      rw [List.nil_append, readEach, read_after]
      refine ⟨?_, [completeLines '\n' v], List.append_nil _, ?_⟩
      · rw [scan_append acc, hacc]
        rfl
      · exact .cons ⟨_, rfl⟩ .nil
  | cons q qs ih =>
      obtain ⟨hq, hrest⟩ := List.pairwise_cons.1 hgrow
      rw [List.cons_append, readEach]
      rcases @read_part fromStr u v q (hfrom q List.mem_cons_self)
        (hto q List.mem_cons_self) with hnone | ⟨t, ht, rfl⟩
      · rw [hnone]
        apply ih u v acc hacc _ _ hrest
        · exact fun p hp => hfrom p (List.mem_cons_of_mem _ hp)
        · exact fun p hp => hto p (List.mem_cons_of_mem _ hp)
      · -- the lines of `t` are done, and the next read starts after them
        let w := wholePart '\n' t
        obtain ⟨v', hv⟩ : w <+: v := (prefix_wholePart t).trans ht
        have hlines : completeLines '\n' v
            = completeLines '\n' t ++ completeLines '\n' v' := by
          rw [← hv, completeLines_append (whole_wholePart t),
            completeLines_wholePart]
        have huv : u ++ v = u ++ w ++ v' := by
          rw [← hv, List.append_assoc]
        let delta := (completeLines '\n' t).foldl (scanLine fromStr)
          { newOffset := utf8Len u }
        have hend : delta.newOffset = utf8Len (u ++ w) :=
          (newOffset_scan _ _).trans (utf8Len_append u w).symm
        have hread : encode (u ++ w) <+: encode (u ++ t) := by
          rw [encode_append, encode_append, List.prefix_append_right_inj]
          obtain ⟨rest, hrest⟩ : w <+: t := prefix_wholePart t
          exact ⟨encode rest, by rw [← encode_append, hrest]⟩
        obtain ⟨hjoin, blocks, hflat, hreads⟩ :=
          ih (u ++ w) v' (acc.andThen delta) hend
            (fun p hp => hread.trans (hq p hp))
            (fun p hp => huv ▸ hto p (List.mem_cons_of_mem _ hp)) hrest
        rw [read_after, huv]
        show List.foldl _ (acc.andThen delta)
            (readEach fromStr delta.newOffset (qs ++ [encode (u ++ w ++ v')])) = _
          ∧ ∃ blocks : List (List (List Char)), _ ∧ List.Forall₂ _ blocks
              (delta :: readEach fromStr delta.newOffset (qs ++ [encode (u ++ w ++ v')]))
        rw [hend, hjoin, hlines, List.foldl_append]
        refine ⟨?_, completeLines '\n' t :: blocks, ?_, .cons ⟨_, rfl⟩ hreads⟩
        · rw [scan_append acc, hacc]
        · rw [List.flatten_cons, hflat]

/-- Reading a growing transcript piece by piece, wherever the pieces
end, gives what one read of the whole gives, and each of its complete
lines to exactly one of the reads, whole. -/
theorem incremental_eq_whole (fromStr : String → Option Json)
    {content : List UInt8} {parts : List (List UInt8)}
    (htext : IsText content) (hgrow : parts.Pairwise (· <+: ·))
    (hlast : parts.getLast? = some content) :
    readDeltaBytes fromStr content 0
        = some (Delta.joined (readEach fromStr 0 parts))
      ∧ ∃ blocks : List (List (List Char)),
          blocks.flatten.map encode = completeLines newline content
            ∧ List.Forall₂ (ReadOf fromStr) blocks
              (readEach fromStr 0 parts) := by
  obtain ⟨text, rfl⟩ := htext
  obtain ⟨qs, rfl⟩ := List.getLast?_eq_some_iff.1 hlast
  have hto := (List.pairwise_append.1 hgrow).2.2
  obtain ⟨hjoin, blocks, hflat, hreads⟩ := @readEach_text fromStr qs [] text
    { newOffset := 0 } rfl (fun q _ => List.nil_prefix)
    (fun q hq => hto q hq _ (List.mem_singleton_self _))
    (List.pairwise_append.1 hgrow).1
  refine ⟨?_, blocks, ?_, hreads⟩
  · exact (@read_after fromStr [] text).trans (congrArg some hjoin.symm)
  · rw [hflat, newline, completeLines_encode utf8Size_newline]

/-- A parser that knows these lines: each is an entry that spawns a fork,
under this id. -/
private def spawnParser (ids : List (String × String)) (line : String) :
    Option Json :=
  (ids.lookup line).map fun id => .object [("type", .string "assistant"),
    ("message", .object [("content", .array [.object [
      ("type", .string "tool_use"), ("name", .string "Agent"),
      ("id", .string id),
      ("input", .object [("subagent_type", .string "fork")])]])])]

private def twoSpawns : String → Option Json :=
  spawnParser [("é\n", "u"), ("x\n", "v")]

/-- One spawn is read first when only half of its first character is
there, and the other when its line is not complete. -/
theorem incremental_eq_whole_split :
    let content := [0xC3, 0xA9, 0x0A, 0x78, 0x0A]
    let parts := [[0xC3], [0xC3, 0xA9, 0x0A, 0x78], content]
    (readDeltaBytes twoSpawns content 0).map Delta.spawns
        = some [("u", none), ("v", none)]
      ∧ readDeltaBytes twoSpawns content 0
        = some (Delta.joined (readEach twoSpawns 0 parts))
      ∧ ∃ blocks : List (List (List Char)),
          blocks.flatten.map encode = completeLines newline content
            ∧ List.Forall₂ (ReadOf twoSpawns) blocks
              (readEach twoSpawns 0 parts) :=
  ⟨by decide +kernel, incremental_eq_whole twoSpawns
    ⟨['é', '\n', 'x', '\n'], by decide⟩ (by decide) rfl⟩

-- ============================================================= bad lines

section recognised

variable (fromStr)

/-- The values of the complete lines that are text and parse. -/
def recognised (bytes : List UInt8) : List Json :=
  (completeLines newline bytes).filterMap fun line =>
    (decode line).bind fun text => fromStr (String.ofList text)

/-- The entries of the complete lines that are recognised, as read up to
`offset`. -/
def entriesOf (bytes : List UInt8) (offset : Nat) : Delta :=
  (recognised fromStr bytes).foldl (fun delta value => scanEntry value delta)
    { newOffset := offset }

end recognised

/-- A delta, with another place to go on from. -/
def Delta.endingAt (n : Nat) (d : Delta) : Delta :=
  { d with newOffset := n }

/-- Where a read ends is no part of what it extracts. -/
private theorem scanEntry_endingAt (value : Json) (n : Nat) (d : Delta) :
    scanEntry value (d.endingAt n) = (scanEntry value d).endingAt n := by
  have hblock : ∀ (d : Delta) (block : Json),
      scanUserBlock (d.endingAt n) block
        = (scanUserBlock d block).endingAt n := by
    intro d block
    unfold scanUserBlock
    split
    · split <;> rfl
    · rfl
    · rfl
  unfold scanEntry
  split
  · rfl
  · unfold scanUser
    split
    · rfl
    · exact List.foldl_hom (Delta.endingAt n) hblock
    · rfl
  · rfl

private theorem scan_values (lines : List (List Char)) (d : Delta) (n : Nat) :
    (lines.foldl (scanLine fromStr) d).endingAt n
      = (lines.filterMap fun line => fromStr (String.ofList line)).foldl
          (fun delta value => scanEntry value delta) (d.endingAt n) := by
  induction lines generalizing d with
  | nil => rfl
  | cons line lines ih =>
      rw [List.foldl_cons, ih, List.filterMap_cons, scanLine]
      cases fromStr (String.ofList line) with
      | none => rfl
      | some value =>
          show List.foldl _ (Delta.endingAt n (scanEntry value _)) _ = _
          rw [← scanEntry_endingAt]
          rfl

/-- A read from a line boundary skips the lines that are not recognised,
and no others, if and only if all that follows the boundary is text. -/
theorem bad_lines_skipped_iff (fromStr : String → Option Json)
    {before rest : List UInt8} (h : Whole newline before) :
    readDeltaBytes fromStr (before ++ rest) before.length
        = some (entriesOf fromStr rest
            (wholePart newline (before ++ rest)).length)
      ↔ IsText rest := by
  have hstart : readStart (before ++ rest) before.length = before.length := by
    rw [readStart, if_neg (by rw [List.length_append]; omega)]
  rw [readDeltaBytes_eq, hstart, List.drop_left]
  cases hrest : decode rest with
  | none =>
      rw [← Option.not_isSome_iff_eq_none, ← isText_iff_decode] at hrest
      constructor
      · intro hread
        cases hread
      · exact fun htext => absurd htext hrest
  | some text =>
      obtain rfl : encode text = rest := decode_eq_some_iff.1 hrest
      refine ⟨fun _ => isText_encode text, fun _ => congrArg some ?_⟩
      have hvalues : recognised fromStr (encode text)
          = (completeLines '\n' text).filterMap fun line =>
              fromStr (String.ofList line) := by
        rw [recognised, newline, completeLines_encode utf8Size_newline,
          List.filterMap_map]
        apply List.filterMap_congr
        intro line _
        simp only [Function.comp_apply, decode_encode, Option.bind_some]
      have hend : (wholePart newline (before ++ encode text)).length
          = before.length + utf8Len (wholePart '\n' text) := by
        rw [wholePart_append h, newline, wholePart_encode utf8Size_newline,
          List.length_append, length_encode]
        rfl
      have hscan := @newOffset_scan fromStr (completeLines '\n' text)
        { newOffset := before.length }
      have hmoved := @scan_values fromStr (completeLines '\n' text)
        { newOffset := before.length }
        (before.length + utf8Len (wholePart '\n' text))
      rw [entriesOf, hvalues, hend]
      exact Eq.trans (congrArg (Delta.endingAt · _) hscan) hmoved

/-- A line that does not parse, a spawn, and a last line still without its
break, which is one of those that count. -/
theorem bad_lines_skipped_plain :
    let bytes := [0x7B, 0x0A, 0x78, 0x0A, 0x7B]
    (entriesOf twoSpawns bytes 5).spawns = [("v", none)]
      ∧ (readDeltaBytes twoSpawns ([0x0A] ++ bytes) 1
          = some (entriesOf twoSpawns bytes
              (wholePart newline ([0x0A] ++ bytes)).length)
        ↔ IsText bytes) :=
  ⟨by decide +kernel, bad_lines_skipped_iff twoSpawns (.inr rfl)⟩

/-- A complete line with a byte that occurs in no text is not skipped. -/
theorem bad_line_not_skipped :
    Whole newline []
      ∧ readDeltaBytes (fun _ => none) [0xFF, 0x0A, 0x7B, 0x7D, 0x0A] 0
        ≠ some (entriesOf (fun _ => none) [0xFF, 0x0A, 0x7B, 0x7D, 0x0A]
            (wholePart newline [0xFF, 0x0A, 0x7B, 0x7D, 0x0A]).length) := by
  refine ⟨.inl rfl, fun hread => ?_⟩
  have hbad : ¬IsText [0xFF, 0x0A, 0x7B, 0x7D, 0x0A] := fun htext =>
    absurd htext.isUTF8FirstByte (by decide)
  rw [readDeltaBytes_eq] at hread
  have hnone : decode (List.drop (readStart [0xFF, 0x0A, 0x7B, 0x7D, 0x0A] 0)
      [0xFF, 0x0A, 0x7B, 0x7D, 0x0A]) = none := decode_eq_none_iff.2 hbad
  rw [hnone] at hread
  cases hread

/-- Past a complete line that is no text there is no reading, however
the file grows. -/
theorem bad_line_blocks (fromStr : String → Option Json)
    {before rest line : List UInt8} (hline : line ∈ completeLines newline rest)
    (hbad : ¬IsText line) (more : List UInt8) :
    readDeltaBytes fromStr (before ++ rest ++ more) before.length = none := by
  have hstart : readStart (before ++ rest ++ more) before.length
      = before.length := by
    rw [readStart, if_neg (by simp only [List.length_append]; omega)]
  rw [readDeltaBytes_eq, hstart, List.append_assoc, List.drop_left]
  have htext : ¬IsText (rest ++ more) := by
    intro htext
    apply hbad
    apply ((isText_iff_lines utf8Size_newline _).1 htext).1
    exact (prefix_completeLines rest more).subset hline
  rw [decode_eq_none_iff.2 htext]
  rfl

end Autofork
