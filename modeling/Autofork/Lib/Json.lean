/-
JSON values as the Rust JSON crate hands them over, and their text.

An object keeps its entries in the order of the text, repeated keys
included. Of a number that is no integer of 64 bits only that is kept:
nothing here has a place for it.

`TextForm` says what is relied on of a way to write and read them. One
is given: `render` writes a value without blanks, as the crate does, and
`parse` reads what is written like that (`textForm`).
-/
import Autofork.Lib.Text

namespace Autofork.Lib

/-- An integer that has a 64-bit type, signed or unsigned. -/
structure JsonInt where
  val : Int
  low : -9223372036854775808 ≤ val
  high : val < 18446744073709551616
  deriving DecidableEq, Repr

inductive JsonDoc
  | null
  | bool (b : Bool)
  | int (n : JsonInt)
  | float
  | str (s : String)
  | arr (items : List JsonDoc)
  | obj (entries : List (String × JsonDoc))

/-- Values are written in one line each and read back, and a text that
is blank is of no value. -/
structure TextForm (render : JsonDoc → String)
    (parse : String → Option JsonDoc) : Prop where
  no_newline : ∀ j, '\n' ∉ (render j).toList
  parse_render : ∀ j, parse (render j) = some j
  parse_blank : ∀ s, trim s.toList = [] → parse s = none

namespace JsonDoc

-- =============================================================== text

/-- The characters with an escape of their own, and its letter. -/
def escapes : List (Char × Char) :=
  [('"', '"'), ('\\', '\\'), ('\n', 'n'), ('\r', 'r'), ('\t', 't'),
    ('\x08', 'b'), ('\x0c', 'f')]

def escape (c : Char) : List Char :=
  match escapes.find? (·.1 = c) with
  | some e => ['\\', e.2]
  | none =>
      if c.toNat < 32 then
        ['\\', 'u', '0', '0', Nat.digitChar (c.toNat / 16),
          Nat.digitChar (c.toNat % 16)]
      else [c]

/-- A text between its quotes. -/
def quote (s : List Char) : List Char := '"' :: s.flatMap escape ++ ['"']

def digits (n : Int) : List Char :=
  if n < 0 then '-' :: Nat.toDigits 10 n.natAbs else Nat.toDigits 10 n.natAbs

mutual

def chars : JsonDoc → List Char
  | .null => ['n', 'u', 'l', 'l']
  | .bool true => ['t', 'r', 'u', 'e']
  | .bool false => ['f', 'a', 'l', 's', 'e']
  | .int n => digits n.val
  | .float => ['0', '.', '0']
  | .str s => quote s.toList
  | .arr [] => ['[', ']']
  | .arr (j :: js) => '[' :: (chars j ++ itemChars js)
  | .obj [] => ['{', '}']
  | .obj ((k, j) :: es) =>
      '{' :: (quote k.toList ++ ':' :: (chars j ++ entryChars es))

/-- The items after the first, and the bracket. -/
def itemChars : List JsonDoc → List Char
  | [] => [']']
  | j :: js => ',' :: (chars j ++ itemChars js)

/-- The entries after the first, and the bracket. -/
def entryChars : List (String × JsonDoc) → List Char
  | [] => ['}']
  | (k, j) :: es =>
      ',' :: (quote k.toList ++ ':' :: (chars j ++ entryChars es))

end

/-- The text of a value. -/
def render (j : JsonDoc) : String := String.ofList (chars j)

-- ============================================================= parser

/-- The value of a hexadecimal digit. -/
def hexVal (c : Char) : Option Nat :=
  (List.range 16).find? (Nat.digitChar · = c)

/-- The control character of four digits. -/
def controlOf (a b hi lo : Char) : Option Char :=
  if a = '0' ∧ b = '0' then
    (hexVal hi).bind fun hi => (hexVal lo).map fun lo =>
      Char.ofNat (16 * hi + lo)
  else none

/-- One character of a text, as it is written, and what follows it. -/
def unescape : List Char → Option (Char × List Char)
  | '\\' :: 'u' :: a :: b :: hi :: lo :: s =>
      (controlOf a b hi lo).map fun c => (c, s)
  | '\\' :: letter :: s =>
      (escapes.find? (·.2 = letter)).map fun e => (e.1, s)
  | c :: s => if c.toNat < 32 then none else some (c, s)
  | [] => none

/-- A text after its opening quote, and what follows it. -/
def parseStr : Nat → List Char → Option (List Char × List Char)
  | 0, _ => none
  | n + 1, s =>
      if s.head? = some '"' then some ([], s.tail)
      else (unescape s).bind fun p =>
        (parseStr n p.2).map fun q => (p.1 :: q.1, q.2)

/-- An integer out of range is a float, and so is minus zero. -/
def ofSigned (negative : Bool) (n : Nat) : JsonDoc :=
  let val : Int := if negative then -n else n
  if h : -9223372036854775808 ≤ val ∧ val < 18446744073709551616
      ∧ (negative = true → n ≠ 0) then
    .int ⟨val, h.1, h.2.1⟩
  else .float

/-- Digits, perhaps with a fraction. -/
def parseUnsigned (negative : Bool) (s : List Char) :
    Option (JsonDoc × List Char) :=
  let digits := s.takeWhile Char.isDigit
  let rest := s.dropWhile Char.isDigit
  if digits = [] then none
  else if rest.head? = some '.' then
    if rest.tail.takeWhile Char.isDigit = [] then none
    else some (.float, rest.tail.dropWhile Char.isDigit)
  else some (ofSigned negative (Nat.ofDigitChars 10 digits 0), rest)

def parseNumber (s : List Char) : Option (JsonDoc × List Char) :=
  if s.head? = some '-' then parseUnsigned true s.tail
  else parseUnsigned false s

/-- `j` where the text goes on with `word`. -/
def parseWord (word : List Char) (j : JsonDoc) (s : List Char) :
    Option (JsonDoc × List Char) :=
  if word <+: s then some (j, s.drop word.length) else none

mutual

/-- A value at the start of a text, and what follows it. -/
def parseVal : Nat → List Char → Option (JsonDoc × List Char)
  | 0, _ => none
  | _ + 1, [] => none
  | n + 1, c :: s =>
      if c = '"' then
        (parseStr s.length s).map fun p => (.str (String.ofList p.1), p.2)
      else if c = '[' then
        if s.head? = some ']' then some (.arr [], s.tail)
        else do
          let (j, s) ← parseVal n s
          let (js, rest) ← parseItems n s
          some (.arr (j :: js), rest)
      else if c = '{' then
        if s.head? = some '}' then some (.obj [], s.tail)
        else do
          let (e, s) ← parseEntry n s
          let (es, rest) ← parseEntries n s
          some (.obj (e :: es), rest)
      else if c = 'n' then parseWord ['u', 'l', 'l'] .null s
      else if c = 't' then parseWord ['r', 'u', 'e'] (.bool true) s
      else if c = 'f' then parseWord ['a', 'l', 's', 'e'] (.bool false) s
      else parseNumber (c :: s)

def parseItems : Nat → List Char → Option (List JsonDoc × List Char)
  | n + 1, c :: s =>
      if c = ']' then some ([], s)
      else if c = ',' then do
        let (j, s) ← parseVal n s
        let (js, rest) ← parseItems n s
        some (j :: js, rest)
      else none
  | _, _ => none

def parseEntry : Nat → List Char → Option ((String × JsonDoc) × List Char)
  | n + 1, c :: s =>
      if c = '"' then do
        let (k, s) ← parseStr s.length s
        if s.head? = some ':' then do
          let (j, rest) ← parseVal n s.tail
          some ((String.ofList k, j), rest)
        else none
      else none
  | _, _ => none

def parseEntries :
    Nat → List Char → Option (List (String × JsonDoc) × List Char)
  | n + 1, c :: s =>
      if c = '}' then some ([], s)
      else if c = ',' then do
        let (e, s) ← parseEntry n s
        let (es, rest) ← parseEntries n s
        some (e :: es, rest)
      else none
  | _, _ => none

end

/-- The value a text is of. -/
def parse (s : String) : Option JsonDoc :=
  match parseVal s.toList.length s.toList with
  | some (j, []) => some j
  | _ => none

-- ======================================================== round trip

section strings

theorem hexVal_digitChar :
    ∀ d < 16, hexVal (Nat.digitChar d) = some d := by decide

/-- A control character comes back from its two hexadecimal digits. -/
theorem controlOf_digits {c : Char} (hc : c.toNat < 32) :
    controlOf '0' '0' (Nat.digitChar (c.toNat / 16))
      (Nat.digitChar (c.toNat % 16)) = some c := by
  have hval : 16 * (c.toNat / 16) + c.toNat % 16 = c.toNat := by omega
  unfold controlOf
  rw [hexVal_digitChar _ (by omega), hexVal_digitChar _ (by omega)]
  simp only [and_self, ↓reduceIte, Option.bind_some, Option.map_some, hval,
    Char.ofNat_toNat]

/-- A character comes back from its escape. -/
theorem unescape_escape (c : Char) (s : List Char) :
    unescape (escape c ++ s) = some (c, s) := by
  unfold escape
  -- one of the short escapes, a control character, or the character itself
  split
  next e he =>
      obtain rfl : e.1 = c := by simpa using List.find?_some he
      have hmem := List.mem_of_find?_eq_some he
      simp only [escapes, List.mem_cons, List.not_mem_nil, or_false] at hmem
      rcases hmem with rfl | rfl | rfl | rfl | rfl | rfl | rfl <;>
        simp [unescape, escapes]
  next hnone =>
      have hne : ∀ e ∈ escapes, e.1 ≠ c := by simpa using hnone
      have hslash : c ≠ '\\' := fun h => hne ('\\', '\\') (by decide) h.symm
      split
      next hc =>
          simp only [List.cons_append, List.nil_append, unescape,
            controlOf_digits hc, Option.map_some]
      next hc =>
          rw [List.singleton_append, unescape.eq_def]
          simp [hslash, hc]

/-- No escape begins with the quote that ends a text. -/
theorem head?_escape (c : Char) (s : List Char) :
    (escape c ++ s).head? ≠ some '"' := by
  unfold escape
  split
  next => simp
  next hnone =>
      have hne : ∀ e ∈ escapes, e.1 ≠ c := by simpa using hnone
      split
      next => simp
      next => simpa using fun h => hne ('"', '"') (by decide) h.symm

/-- A text comes back from between its quotes. -/
theorem parseStr_quoted (t s : List Char) {n : Nat} (hn : t.length < n) :
    parseStr n (t.flatMap escape ++ '"' :: s) = some (t, s) := by
  induction t generalizing n with
  | nil =>
      cases n with
      | zero => omega
      | succ n => rfl
  | cons c t ih =>
      cases n with
      | zero => omega
      | succ n =>
          rw [List.length_cons] at hn
          rw [List.flatMap_cons, List.append_assoc, parseStr,
            if_neg (head?_escape c _), unescape_escape, Option.bind_some,
            ih (by omega)]
          rfl

end strings

section numbers

/-- What follows a number does not go on with it. -/
def Follows (s : List Char) : Prop :=
  ∀ c ∈ s.head?, c.isDigit = false ∧ c ≠ '.'

theorem follows_nil : Follows [] := nofun

theorem follows_cons {c : Char} (s : List Char) (hdigit : c.isDigit = false)
    (hdot : c ≠ '.') : Follows (c :: s) := by
  intro d hd
  obtain rfl : c = d := by simpa using hd
  exact ⟨hdigit, hdot⟩

/-- A number ends where it should. -/
theorem Follows.takeWhile {s : List Char} (hs : Follows s) :
    s.takeWhile Char.isDigit = [] := by
  cases s with
  | nil => rfl
  | cons c s => simp [(hs c rfl).1]

theorem Follows.dropWhile {s : List Char} (hs : Follows s) :
    s.dropWhile Char.isDigit = s := by
  cases s with
  | nil => rfl
  | cons c s => simp [(hs c rfl).1]

/-- Digits come back as their number. -/
theorem parseUnsigned_toDigits (negative : Bool) (n : Nat) {s : List Char}
    (hs : Follows s) :
    parseUnsigned negative (Nat.toDigits 10 n ++ s)
      = some (ofSigned negative n, s) := by
  have hdigits : ∀ c ∈ Nat.toDigits 10 n, c.isDigit = true := fun c hc =>
    Nat.isDigit_of_mem_toDigits (by decide) (by decide) hc
  have hdot : s.head? ≠ some '.' := fun h => (hs '.' h).2 rfl
  unfold parseUnsigned
  simp only [List.takeWhile_append_of_pos hdigits,
    List.dropWhile_append_of_pos hdigits, hs.takeWhile, hs.dropWhile,
    List.append_nil]
  -- no point and no further digit follow
  rw [if_neg Nat.toDigits_ne_nil, if_neg hdot, Nat.ofDigitChars_ten_toDigits]

/-- How a number begins. -/
def Numeric (c : Char) : Prop := c = '-' ∨ c.isDigit = true

instance (c : Char) : Decidable (Numeric c) :=
  inferInstanceAs (Decidable (_ ∨ _))

/-- A number is written with a first character, a sign or a digit. -/
theorem digits_cons (n : Int) : ∃ c s, digits n = c :: s ∧ Numeric c := by
  unfold digits
  split
  · exact ⟨_, _, rfl, .inl rfl⟩
  · have hne : Nat.toDigits 10 n.natAbs ≠ [] := Nat.toDigits_ne_nil
    obtain ⟨c, s, hcons⟩ := List.exists_cons_of_ne_nil hne
    refine ⟨c, s, hcons, .inr ?_⟩
    exact Nat.isDigit_of_mem_toDigits (by decide) (by decide)
      (hcons ▸ List.mem_cons_self)

/-- A number comes back from its digits, with what follows left. -/
theorem parseNumber_digits (n : JsonInt) {s : List Char} (hs : Follows s) :
    parseNumber (digits n.val ++ s) = some (.int n, s) := by
  have hlow := n.low
  have hhigh := n.high
  unfold digits
  -- a sign is written only below zero
  split
  next hneg =>
      have hval : -(n.val.natAbs : Int) = n.val := by omega
      rw [List.cons_append, parseNumber, if_pos List.head?_cons,
        List.tail_cons,
        parseUnsigned_toDigits true _ hs, ofSigned]
      simp only [↓reduceIte, hval]
      rw [dif_pos ⟨hlow, hhigh, fun _ => by omega⟩]
  next hpos =>
      have hval : (n.val.natAbs : Int) = n.val := by omega
      have hhead : (Nat.toDigits 10 n.val.natAbs ++ s).head? ≠ some '-' := by
        intro h
        rw [List.head?_append_of_ne_nil _ Nat.toDigits_ne_nil] at h
        have hdigit := Nat.isDigit_of_mem_toDigits (by decide) (by decide)
          (List.mem_of_mem_head? h)
        revert hdigit
        decide
      rw [parseNumber, if_neg hhead, parseUnsigned_toDigits false _ hs,
        ofSigned]
      simp only [Bool.false_eq_true, ↓reduceIte, hval]
      rw [dif_pos ⟨hlow, hhigh, nofun⟩]

/-- A number with a fraction is one, but not a whole one. -/
theorem parseNumber_fraction {s : List Char} (hs : Follows s) :
    parseNumber ('0' :: '.' :: '0' :: s) = some (.float, s) := by
  have hzero : Char.isDigit '0' = true := by decide
  have hdot : Char.isDigit '.' = false := by decide
  simp [parseNumber, parseUnsigned, hzero, hdot, hs.dropWhile]

/-- How the values that are no numbers begin. -/
def starts : List Char := ['"', '[', '{', 'n', 't', 'f']

/-- What begins like no other value is read as a number. -/
theorem parseVal_of_notMem (n : Nat) {c : Char} {s : List Char}
    (hc : c ∉ starts) : parseVal (n + 1) (c :: s) = parseNumber (c :: s) := by
  simp only [starts, List.mem_cons, List.not_mem_nil, or_false, not_or] at hc
  obtain ⟨hquote, hbracket, hbrace, hn, ht, hf⟩ := hc
  rw [parseVal, if_neg hquote, if_neg hbracket, if_neg hbrace, if_neg hn,
    if_neg ht, if_neg hf]

/-- A text that begins like a number is read as one. -/
theorem parseVal_number (n : Nat) {c : Char} {s : List Char}
    (hc : Numeric c) : parseVal (n + 1) (c :: s) = parseNumber (c :: s) := by
  have hstarts : starts.all (fun d => !decide (Numeric d)) = true := by decide
  refine parseVal_of_notMem n fun hmem => ?_
  simpa [hc] using List.all_eq_true.1 hstarts c hmem

/-- A number comes back as a value. -/
theorem parseVal_digits (n : Nat) (k : JsonInt) {s : List Char}
    (hs : Follows s) :
    parseVal (n + 1) (digits k.val ++ s) = some (.int k, s) := by
  obtain ⟨c, rest, hcons, hc⟩ := digits_cons k.val
  rw [← parseNumber_digits k hs, hcons, List.cons_append,
    parseVal_number n hc]

end numbers

section values

/-- Escaping makes no text shorter. -/
theorem length_le_flatMap_escape (t : List Char) :
    t.length ≤ (t.flatMap escape).length := by
  induction t with
  | nil => exact Nat.le_refl 0
  | cons c t ih =>
      have hc : 0 < (escape c).length := by
        unfold escape
        split
        · exact Nat.succ_pos _
        · split <;> exact Nat.succ_pos _
      rw [List.flatMap_cons, List.length_append, List.length_cons]
      omega

/-- The text after an opening quote, with all of it as fuel. -/
theorem parseStr_body (t s : List Char) :
    parseStr (t.flatMap escape ++ '"' :: s).length
      (t.flatMap escape ++ '"' :: s) = some (t, s) := by
  refine parseStr_quoted t s ?_
  have ht := length_le_flatMap_escape t
  rw [List.length_append, List.length_cons]
  omega

/-- A quoted text is an opening quote, the escapes and a closing one. -/
theorem quote_append (t s : List Char) :
    quote t ++ s = '"' :: (t.flatMap escape ++ '"' :: s) := by
  simp [quote]

/-- Every value is written with something. -/
theorem chars_ne_nil (j : JsonDoc) : chars j ≠ [] := by
  cases j with
  | bool b => cases b <;> exact List.cons_ne_nil _ _
  | int n =>
      obtain ⟨c, s, hcons, -⟩ := digits_cons n.val
      rw [chars, hcons]
      exact List.cons_ne_nil _ _
  | arr js => cases js <;> exact List.cons_ne_nil _ _
  | obj es => cases es <;> exact List.cons_ne_nil _ _
  | _ => exact List.cons_ne_nil _ _

/-- After an item comes a comma or the end of the array. -/
theorem follows_itemChars (js : List JsonDoc) (s : List Char) :
    Follows (itemChars js ++ s) := by
  cases js <;> exact follows_cons _ (by decide) (by decide)

/-- After an entry comes a comma or the end of the object. -/
theorem follows_entryChars (es : List (String × JsonDoc)) (s : List Char) :
    Follows (entryChars es ++ s) := by
  rcases es with - | ⟨⟨k, j⟩, es⟩ <;>
    exact follows_cons _ (by decide) (by decide)

/-- No value begins like the end of an array. -/
theorem head?_chars (j : JsonDoc) (s : List Char) :
    (chars j ++ s).head? ≠ some ']' := by
  rw [List.head?_append_of_ne_nil _ (chars_ne_nil j)]
  cases j with
  | bool b => cases b <;> decide
  | int n =>
      obtain ⟨c, s, hcons, hc⟩ := digits_cons n.val
      rw [chars, hcons, List.head?_cons]
      intro h
      rw [Option.some.inj h] at hc
      revert hc
      decide
  | arr js => cases js <;> exact fun h => absurd (Option.some.inj h) (by decide)
  | obj es => cases es <;> exact fun h => absurd (Option.some.inj h) (by decide)
  | str s => exact fun h => absurd (Option.some.inj h) (by decide)
  | _ => decide

/-- An entry, where its value comes back. -/
theorem parseEntry_quote (k : String) {j : JsonDoc} {n : Nat} {s t : List Char}
    (hj : ∀ m, n = m + 1 → parseVal m t = some (j, s))
    (hn : (quote k.toList).length ≤ n) :
    parseEntry n (quote k.toList ++ ':' :: t) = some ((k, j), s) := by
  cases n with
  | zero => simp [quote] at hn
  | succ n =>
      rw [quote_append, parseEntry, if_pos rfl, parseStr_body]
      simp only [Option.bind_eq_bind, Option.bind_some, List.head?_cons,
        ↓reduceIte, List.tail_cons, hj n rfl, String.ofList_toList]

mutual

/-- A value comes back from its text, with fuel for all of it. -/
theorem parseVal_chars (j : JsonDoc) (n : Nat) {s : List Char}
    (hn : (chars j).length ≤ n) (hs : Follows s) :
    parseVal n (chars j ++ s) = some (j, s) := by
  have hpos := List.length_pos_of_ne_nil (chars_ne_nil j)
  obtain ⟨n, rfl⟩ := Nat.exists_eq_add_of_lt (Nat.lt_of_lt_of_le hpos hn)
  rw [Nat.zero_add] at hn ⊢
  match j with
  | .null => rfl
  | .bool true => rfl
  | .bool false => rfl
  | .int k => exact parseVal_digits n k hs
  | .float =>
      show parseVal (n + 1) ('0' :: _) = _
      rw [parseVal_number n (.inr (by decide))]
      exact parseNumber_fraction hs
  | .str t =>
      rw [chars, quote_append, parseVal, if_pos rfl, parseStr_body]
      simp only [Option.map_some, String.ofList_toList]
  | .arr [] => rfl
  | .arr (j :: js) =>
      simp only [chars, List.length_cons, List.length_append] at hn
      have hj := parseVal_chars j n (by omega) (follows_itemChars js s)
      have hjs := parseItems_chars js n (by omega) (s := s)
      rw [chars, List.cons_append, List.append_assoc, parseVal,
        if_neg (by decide), if_pos rfl, if_neg (head?_chars j _), hj]
      simp only [Option.bind_eq_bind, Option.bind_some, hjs]
  | .obj [] => rfl
  | .obj ((k, j) :: es) =>
      simp only [chars, List.length_cons, List.length_append] at hn
      have he := parseEntry_quote k (n := n) (fun m hm =>
        parseVal_chars j m (by omega) (follows_entryChars es s)) (by omega)
      have hes := parseEntries_chars es n (by omega) (s := s)
      rw [chars, List.cons_append, List.append_assoc, List.cons_append,
        List.append_assoc, parseVal, if_neg (by decide), if_neg (by decide),
        if_pos rfl, if_neg (by simp [quote]), he]
      simp only [Option.bind_eq_bind, Option.bind_some, hes]

/-- So do the items of an array. -/
theorem parseItems_chars (js : List JsonDoc) (n : Nat) {s : List Char}
    (hn : (itemChars js).length ≤ n) :
    parseItems n (itemChars js ++ s) = some (js, s) := by
  cases n with
  | zero => cases js <;> simp [itemChars] at hn
  | succ n =>
      match js with
      | [] => rfl
      | j :: js =>
          simp only [itemChars, List.length_cons, List.length_append] at hn
          have hj := parseVal_chars j n (by omega) (follows_itemChars js s)
          have hjs := parseItems_chars js n (by omega) (s := s)
          rw [itemChars, List.cons_append, List.append_assoc, parseItems,
            if_neg (by decide), if_pos rfl, hj]
          simp only [Option.bind_eq_bind, Option.bind_some, hjs]

/-- So do the entries of an object. -/
theorem parseEntries_chars (es : List (String × JsonDoc)) (n : Nat)
    {s : List Char} (hn : (entryChars es).length ≤ n) :
    parseEntries n (entryChars es ++ s) = some (es, s) := by
  cases n with
  | zero => rcases es with - | ⟨⟨k, j⟩, es⟩ <;> simp [entryChars] at hn
  | succ n =>
      match es with
      | [] => rfl
      | (k, j) :: es =>
          simp only [entryChars, List.length_cons, List.length_append] at hn
          have he := parseEntry_quote k (n := n) (fun m hm =>
            parseVal_chars j m (by omega) (follows_entryChars es s)) (by omega)
          have hes := parseEntries_chars es n (by omega) (s := s)
          rw [entryChars, List.cons_append, List.append_assoc,
            List.cons_append, List.append_assoc, parseEntries,
            if_neg (by decide), if_pos rfl, he]
          simp only [Option.bind_eq_bind, Option.bind_some, hes]

end

/-- A value comes back from its text. -/
theorem parse_render (j : JsonDoc) : parse (render j) = some j := by
  have hval := parseVal_chars j (chars j).length (Nat.le_refl _) follows_nil
  rw [List.append_nil] at hval
  unfold parse render
  rw [String.toList_ofList, hval]

/-- White space alone is no value. -/
theorem parse_blank (s : String) (hs : trim s.toList = []) :
    parse s = none := by
  have hblank := trim_eq_nil_iff.1 hs
  have hval : parseVal s.toList.length s.toList = none := by
    cases hl : s.toList with
    | nil => rfl
    | cons c t =>
        have hc : isWhitespace c = true := hblank c (hl ▸ List.mem_cons_self)
        have hstarts : starts.all (fun d => !isWhitespace d) = true := by
          decide
        have hc' : c ∉ starts := fun hmem => by
          simpa [hc] using List.all_eq_true.1 hstarts c hmem
        have hminus : c ≠ '-' := by
          rintro rfl
          revert hc
          decide
        have hdigit : c.isDigit = false := by
          by_contra hdigit
          rw [Bool.not_eq_false, Char.isDigit_iff_toNat] at hdigit
          have hlow : 48 ≤ c.toNat := hdigit.1
          have hhigh : c.toNat ≤ 57 := hdigit.2
          simp only [isWhitespace, Bool.or_eq_true, Bool.and_eq_true,
            decide_eq_true_eq, beq_iff_eq] at hc
          omega
        rw [List.length_cons, parseVal_of_notMem _ hc', parseNumber,
          if_neg (by simpa using hminus)]
        simp [parseUnsigned, hdigit]
  unfold parse
  rw [hval]

end values

section printable

/-- No control characters. -/
def Printable (s : List Char) : Prop := ∀ c ∈ s, 32 ≤ c.toNat

instance (s : List Char) : Decidable (Printable s) :=
  List.decidableBAll _ s

/-- Printable texts can be joined. -/
theorem Printable.append {s t : List Char} (hs : Printable s)
    (ht : Printable t) : Printable (s ++ t) := by
  intro c hc
  rcases List.mem_append.1 hc with hc | hc
  · exact hs c hc
  · exact ht c hc

theorem Printable.cons {c : Char} {s : List Char} (hc : 32 ≤ c.toNat)
    (hs : Printable s) : Printable (c :: s) := by
  intro d hd
  rcases List.mem_cons.1 hd with rfl | hd
  · exact hc
  · exact hs d hd

/-- Escapes are printable: a control character is written in digits. -/
theorem printable_escape (c : Char) : Printable (escape c) := by
  unfold escape
  split
  next e he =>
      have hall : ∀ e ∈ escapes, Printable ['\\', e.2] := by decide
      exact hall e (List.mem_of_find?_eq_some he)
  next =>
      split
      next hc =>
          have hdigit : ∀ d < 32, 32 ≤ (Nat.digitChar d).toNat := by decide
          refine .cons (by decide) (.cons (by decide) (.cons (by decide)
            (.cons (by decide) (.cons (hdigit _ ?_) (.cons (hdigit _ ?_)
              nofun)))))
          · omega
          · omega
      next hc => exact .cons (by omega) nofun

theorem printable_quote (t : List Char) : Printable (quote t) := by
  refine .cons (by decide) (.append ?_ (.cons (by decide) nofun))
  intro c hc
  obtain ⟨d, -, hd⟩ := List.mem_flatMap.1 hc
  exact printable_escape d c hd

theorem printable_digits (n : Int) : Printable (digits n) := by
  have hdigits : Printable (Nat.toDigits 10 n.natAbs) := by
    intro c hc
    have hdigit := Nat.isDigit_of_mem_toDigits (by decide) (by decide) hc
    rw [Char.isDigit_iff_toNat] at hdigit
    have hlow : 48 ≤ c.toNat := hdigit.1
    omega
  unfold digits
  split
  · exact .cons (by decide) hdigits
  · exact hdigits

mutual

/-- A document is printed on one line. -/
theorem printable_chars : ∀ j : JsonDoc, Printable (chars j)
  | .null | .bool true | .bool false | .float | .arr [] | .obj [] => by decide
  | .int n => printable_digits n.val
  | .str s => printable_quote s.toList
  | .arr (j :: js) => .cons (by decide)
      (.append (printable_chars j) (printable_itemChars js))
  | .obj ((k, j) :: es) => .cons (by decide)
      (.append (printable_quote k.toList) (.cons (by decide)
        (.append (printable_chars j) (printable_entryChars es))))

theorem printable_itemChars : ∀ js : List JsonDoc, Printable (itemChars js)
  | [] => by decide
  | j :: js => .cons (by decide)
      (.append (printable_chars j) (printable_itemChars js))

theorem printable_entryChars :
    ∀ es : List (String × JsonDoc), Printable (entryChars es)
  | [] => by decide
  | (k, j) :: es => .cons (by decide)
      (.append (printable_quote k.toList) (.cons (by decide)
        (.append (printable_chars j) (printable_entryChars es))))

end

/-- The text of a value has no control character. -/
theorem printable_render (j : JsonDoc) : Printable (render j).toList := by
  unfold render
  rw [String.toList_ofList]
  exact printable_chars j

end printable

/-- Rendering and parsing are a text form: what is rendered is one line, not
blank, and comes back. -/
theorem textForm : TextForm render parse where
  no_newline j h := absurd (printable_render j '\n' h) (by decide)
  parse_render := parse_render
  parse_blank := parse_blank

end JsonDoc

end Autofork.Lib
