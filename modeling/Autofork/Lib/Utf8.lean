/-
Texts as the bytes that encode them in UTF-8, and the lines of either.

Bytes are a list, their decoding the core library's. The byte of a
character below 128 stands for that character wherever it occurs, so a
file cut at such bytes is a text cut at such characters: the complete
lines of an encoded text are its complete lines, encoded
(`completeLines_encode`), and bytes are a text exactly when each of
their lines is one (`isText_iff_lines`).
-/
import Mathlib.Algebra.Order.Ring.Nat
import Autofork.Lib.Lines

namespace Autofork.Lib

-- ================================================ encoding and decoding

/-- The bytes of a text. -/
def encode (text : List Char) : List UInt8 :=
  text.flatMap String.utf8EncodeChar

/-- The text of some bytes, if they are one. -/
def decode (bytes : List UInt8) : Option (List Char) :=
  bytes.toByteArray.utf8Decode?.map Array.toList

@[simp] theorem encode_nil : encode [] = [] := rfl

theorem encode_cons (c : Char) (text : List Char) :
    encode (c :: text) = String.utf8EncodeChar c ++ encode text := rfl

@[simp] theorem encode_append (s t : List Char) :
    encode (s ++ t) = encode s ++ encode t := List.flatMap_append

theorem encode_flatten (lines : List (List Char)) :
    encode lines.flatten = (lines.map encode).flatten := by
  induction lines with
  | nil => rfl
  | cons line lines ih =>
      rw [List.flatten_cons, encode_append, ih, List.map_cons,
        List.flatten_cons]

theorem length_encode (text : List Char) :
    (encode text).length = (text.map Char.utf8Size).sum := by
  induction text with
  | nil => rfl
  | cons c text ih =>
      rw [encode_cons, List.length_append, String.length_utf8EncodeChar, ih,
        List.map_cons, List.sum_cons]

@[simp] theorem decode_encode (text : List Char) :
    decode (encode text) = some text := by
  have hutf8 : (encode text).toByteArray = text.utf8Encode := rfl
  rw [decode, hutf8, List.utf8Decode?_utf8Encode]
  rfl

theorem decode_eq_some_iff {bytes : List UInt8} {text : List Char} :
    decode bytes = some text ↔ encode text = bytes := by
  constructor
  · intro h
    have hsome : bytes.toByteArray.utf8Decode?.isSome := by
      rw [decode] at h
      obtain ⟨chars, hchars, -⟩ := Option.map_eq_some_iff.1 h
      exact hchars ▸ rfl
    obtain ⟨m, hm⟩ := ByteArray.isSome_utf8Decode?_iff.1 hsome
    have hbytes : bytes = encode m := List.toByteArray_inj.1 hm
    rw [hbytes, decode_encode] at h
    rw [hbytes, Option.some.inj h]
  · rintro rfl
    exact decode_encode text

theorem encode_injective {s t : List Char} (h : encode s = encode t) :
    s = t := by
  have hs := decode_encode s
  rw [h, decode_encode] at hs
  exact (Option.some.inj hs).symm

theorem prefix_of_encode {s t : List Char} (h : encode s <+: encode t) :
    s <+: t := by
  obtain ⟨rest, hrest⟩ := h
  have hutf8 : s.utf8Encode ++ rest.toByteArray = t.utf8Encode := by
    show (encode s).toByteArray ++ rest.toByteArray = (encode t).toByteArray
    rw [← List.toByteArray_append, hrest]
  exact List.isPrefix_of_utf8Encode_append_eq_utf8Encode _ hutf8

/-- Some bytes are the encoding of a text. -/
def IsText (bytes : List UInt8) : Prop := ∃ text, encode text = bytes

theorem isText_encode (text : List Char) : IsText (encode text) :=
  ⟨text, rfl⟩

theorem isText_iff_decode {bytes : List UInt8} :
    IsText bytes ↔ (decode bytes).isSome := by
  rw [Option.isSome_iff_exists]
  exact exists_congr fun text => decode_eq_some_iff.symm

theorem decode_eq_none_iff {bytes : List UInt8} :
    decode bytes = none ↔ ¬IsText bytes := by
  rw [isText_iff_decode, Option.not_isSome_iff_eq_none]

theorem IsText.append {s t : List UInt8} (hs : IsText s) (ht : IsText t) :
    IsText (s ++ t) := by
  obtain ⟨s, rfl⟩ := hs
  obtain ⟨t, rfl⟩ := ht
  exact ⟨s ++ t, encode_append s t⟩

theorem IsText.flatten {lines : List (List UInt8)}
    (h : ∀ line ∈ lines, IsText line) : IsText lines.flatten := by
  induction lines with
  | nil => exact isText_encode []
  | cons line lines ih =>
      rw [List.flatten_cons]
      apply (h line List.mem_cons_self).append
      exact ih fun l hl => h l (List.mem_cons_of_mem _ hl)

/-- A text begins with the first byte of a character. -/
theorem IsText.isUTF8FirstByte {b : UInt8} {bytes : List UInt8}
    (h : IsText (b :: bytes)) : b.IsUTF8FirstByte := by
  obtain ⟨text, htext⟩ := h
  cases text with
  | nil => cases htext
  | cons c text =>
      have hlen : 0 < (String.utf8EncodeChar c).length := by
        rw [String.length_utf8EncodeChar]
        exact c.utf8Size_pos
      have hhead := congrArg List.head? htext
      rw [encode_cons, List.head?_append, List.head?_eq_getElem?,
        List.getElem?_eq_getElem hlen] at hhead
      have hbyte : (String.utf8EncodeChar c)[0] = b := Option.some.inj hhead
      rw [← hbyte]
      exact UInt8.isUTF8FirstByte_getElem_utf8EncodeChar.2 rfl

/-- No text begins inside a character. -/
theorem not_isText_of_tail {c : Char} {n : Nat} (h : 0 < n)
    (hn : n < c.utf8Size) (bytes : List UInt8) :
    ¬IsText ((String.utf8EncodeChar c).drop n ++ bytes) := by
  intro htext
  have hlen : n < (String.utf8EncodeChar c).length := by
    rwa [String.length_utf8EncodeChar]
  rw [List.drop_eq_getElem_cons hlen] at htext
  have hfirst := htext.isUTF8FirstByte
  rw [UInt8.isUTF8FirstByte_getElem_utf8EncodeChar] at hfirst
  omega

-- =========================================================== separators

/-- The bytes of a longer character are all above 127. -/
private theorem le_toNat_of_mem {c : Char} {b : UInt8} (h : c.utf8Size ≠ 1)
    (hb : b ∈ String.utf8EncodeChar c) : 128 ≤ b.toNat := by
  have hpad : ∀ n k m : Nat, 0 < k → 128 ≤ m → k + m ≤ 256 →
      128 ≤ (UInt8.ofNat (n % k + m)).toNat := by
    intro n k m hk hm hkm
    have hlt := Nat.mod_lt n hk
    rw [UInt8.toNat_ofNat', Nat.mod_eq_of_lt (by omega)]
    omega
  rw [← String.length_utf8EncodeChar] at h
  revert h hb
  fun_cases String.utf8EncodeChar c with
  | case1 => exact fun h _ => absurd rfl h
  | case2 =>
      intro _ hb
      simp only [List.mem_cons, List.not_mem_nil, or_false] at hb
      rcases hb with rfl | rfl <;> apply hpad <;> omega
  | case3 =>
      intro _ hb
      simp only [List.mem_cons, List.not_mem_nil, or_false] at hb
      rcases hb with rfl | rfl | rfl <;> apply hpad <;> omega
  | case4 =>
      intro _ hb
      simp only [List.mem_cons, List.not_mem_nil, or_false] at hb
      rcases hb with rfl | rfl | rfl | rfl <;> apply hpad <;> omega

variable {sep : Char}

private theorem toNat_sep (h : sep.utf8Size = 1) :
    sep.val.toUInt8.toNat = sep.val.toNat ∧ sep.val.toNat ≤ 127 := by
  have hle : sep.val.toNat ≤ 127 := Char.utf8Size_eq_one_iff.1 h
  rw [UInt32.toNat_toUInt8]
  exact ⟨Nat.mod_eq_of_lt (by omega), hle⟩

/-- The byte of a character below 128 occurs in no other character. -/
theorem mem_utf8EncodeChar (h : sep.utf8Size = 1) (c : Char) :
    sep.val.toUInt8 ∈ String.utf8EncodeChar c ↔ c = sep := by
  obtain ⟨hsep, hle⟩ := toNat_sep h
  constructor
  · intro hmem
    by_cases hc : c.utf8Size = 1
    · rw [String.utf8EncodeChar_eq_singleton hc, List.mem_singleton] at hmem
      have heq := congrArg UInt8.toNat hmem
      rw [hsep, (toNat_sep hc).1] at heq
      exact Char.ext (UInt32.toNat_inj.1 heq.symm)
    · have hlarge := le_toNat_of_mem hc hmem
      omega
  · rintro rfl
    rw [String.utf8EncodeChar_eq_singleton h]
    exact List.mem_singleton_self _

/-- An encoded text ends with a separator's byte when it ends with the
separator. -/
theorem getLast?_encode (h : sep.utf8Size = 1) (text : List Char) :
    (encode text).getLast? = some sep.val.toUInt8
      ↔ text.getLast? = some sep := by
  rcases List.eq_nil_or_concat' text with rfl | ⟨init, c, rfl⟩
  · simp
  rw [List.getLast?_concat, encode_append, encode_cons, encode_nil,
    List.append_nil, Option.some_inj]
  constructor
  · intro hlast
    rw [List.getLast?_append_of_ne_nil _ String.utf8EncodeChar_ne_nil] at hlast
    exact (mem_utf8EncodeChar h c).1 (List.mem_of_getLast? hlast)
  · rintro rfl
    rw [String.utf8EncodeChar_eq_singleton h, List.getLast?_concat]

/-- The lines of an encoded text are its lines. -/
theorem completeLines_encode (h : sep.utf8Size = 1) (text : List Char) :
    completeLines sep.val.toUInt8 (encode text)
      = (completeLines sep text).map encode := by
  induction text with
  | nil => rfl
  | cons c text ih =>
      rw [encode_cons, completeLines]
      split
      next hc =>
        rw [hc, String.utf8EncodeChar_eq_singleton h, List.singleton_append,
          completeLines, if_pos rfl, ih, List.map_cons, encode_cons,
          String.utf8EncodeChar_eq_singleton h]
        rfl
      next hc =>
        rw [completeLines_append_of_not_mem
          (fun hmem => hc ((mem_utf8EncodeChar h c).1 hmem)), ih]
        cases completeLines sep text <;> rfl

theorem wholePart_encode (h : sep.utf8Size = 1) (text : List Char) :
    wholePart sep.val.toUInt8 (encode text)
      = encode (wholePart sep text) := by
  rw [wholePart, completeLines_encode h, wholePart, encode_flatten]

theorem lastPart_encode (h : sep.utf8Size = 1) (text : List Char) :
    lastPart sep.val.toUInt8 (encode text) = encode (lastPart sep text) := by
  have hbytes : wholePart sep.val.toUInt8 (encode text) ++ _ = encode text :=
    wholePart_append_lastPart _
  have htext : wholePart sep text ++ lastPart sep text = text :=
    wholePart_append_lastPart text
  rw [wholePart_encode h] at hbytes
  apply List.append_cancel_left (hbytes.trans _)
  rw [← encode_append, htext]

theorem allLines_encode (h : sep.utf8Size = 1) (text : List Char) :
    allLines sep.val.toUInt8 (encode text) = (allLines sep text).map encode := by
  rw [allLines_eq, allLines_eq, completeLines_encode h, lastPart_encode h,
    List.map_append]
  by_cases hlast : lastPart sep text = []
  · rw [hlast, encode_nil, if_pos rfl, if_pos rfl, List.map_nil]
  · have hbytes : encode (lastPart sep text) ≠ [] := fun he =>
      hlast (encode_injective (he.trans encode_nil.symm))
    rw [if_neg hlast, if_neg hbytes, List.map_singleton]

/-- Bytes are a text when each of their lines is, the last one with
them. -/
theorem isText_iff_lines (h : sep.utf8Size = 1) (bytes : List UInt8) :
    IsText bytes
      ↔ (∀ line ∈ completeLines sep.val.toUInt8 bytes, IsText line)
        ∧ IsText (lastPart sep.val.toUInt8 bytes) := by
  constructor
  · rintro ⟨text, rfl⟩
    rw [completeLines_encode h, lastPart_encode h]
    refine ⟨fun line hline => ?_, isText_encode _⟩
    obtain ⟨line, -, rfl⟩ := List.mem_map.1 hline
    exact isText_encode line
  · rintro ⟨hlines, hlast⟩
    have htext := (IsText.flatten hlines).append hlast
    have hbytes : wholePart sep.val.toUInt8 bytes ++ _ = bytes :=
      wholePart_append_lastPart bytes
    rwa [← wholePart, hbytes] at htext

end Autofork.Lib
