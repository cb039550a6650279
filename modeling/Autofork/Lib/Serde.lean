/-
How the Rust derive macros write records and enums as JSON and read them
back, as combinators that carry the round trip.

A record writes its fields in order, without those it skips, and reads
each from the one entry under its name. It ignores the entries it does
not know, and refuses a name that is there twice. A tagged enum writes
the name of its variant under a key of its own, before the variant's
fields. A record that flattens an enum has the fields of both in one
object, each reading only its own.

So a name may not be both a record's own and one of the enum's
(`Record.flatten`), and what a field skips has to be what it takes when
its entry is missing (`Field.missing_of_skip`).
-/
import Mathlib.Data.List.Nodup
import Autofork.Lib.Json

namespace Autofork.Lib

-- ============================================================== codecs

theorem mapM_map_of_inverse {α β : Type} {f : β → Option α} {g : α → β}
    (h : ∀ a, f (g a) = some a) (as : List α) :
    (as.map g).mapM f = some as := by
  induction as with
  | nil => rfl
  | cons a as ih =>
      rw [List.map_cons, List.mapM_cons, ih, h]
      rfl

/-- How the values of a type are written and read. -/
structure Codec (α : Type) where
  ser : α → JsonDoc
  de : JsonDoc → Option α
  de_ser : ∀ a, de (ser a) = some a

namespace Codec

variable {α : Type}

def string : Codec String where
  ser := .str
  de
    | .str s => some s
    | _ => none
  de_ser _ := rfl

def bool : Codec Bool where
  ser := .bool
  de
    | .bool b => some b
    | _ => none
  de_ser _ := rfl

/-- An integer type whose values are those from `low` up to `high`. -/
def integer (low high : Int) (toInt : α → Int) (ofInt : Int → α)
    (range : ∀ a, low ≤ toInt a ∧ toInt a < high)
    (inverse : ∀ a, ofInt (toInt a) = a)
    (fits : -9223372036854775808 ≤ low ∧ high ≤ 18446744073709551616) :
    Codec α where
  ser a := .int ⟨toInt a, Int.le_trans fits.1 (range a).1,
    Int.lt_of_lt_of_le (range a).2 fits.2⟩
  de
    | .int n => if low ≤ n.val ∧ n.val < high then some (ofInt n.val) else none
    | _ => none
  de_ser a := by
    show (if low ≤ toInt a ∧ toInt a < high then _ else _) = _
    rw [if_pos (range a), inverse]

def u32 : Codec UInt32 :=
  integer 0 4294967296 (fun n => n.toNat) (fun n => .ofNat n.toNat)
    (fun n => ⟨by omega, by have := n.toNat_lt; omega⟩)
    (fun n => UInt32.ofNat_toNat) (by decide)

def u64 : Codec UInt64 :=
  integer 0 18446744073709551616 (fun n => n.toNat) (fun n => .ofNat n.toNat)
    (fun n => ⟨by omega, by have := n.toNat_lt; omega⟩)
    (fun n => UInt64.ofNat_toNat) (by decide)

def i64 : Codec Int64 :=
  integer (-9223372036854775808) 9223372036854775808 Int64.toInt Int64.ofInt
    (fun n => ⟨n.le_toInt, n.toInt_lt⟩) Int64.ofInt_toInt (by decide)

def list (c : Codec α) : Codec (List α) where
  ser as := .arr (as.map c.ser)
  de
    | .arr js => js.mapM c.de
    | _ => none
  de_ser := mapM_map_of_inverse c.de_ser

/-- An optional value is null when it is none. -/
def option (c : Codec α) (notNull : ∀ a, c.ser a ≠ .null) :
    Codec (Option α) where
  ser
    | none => .null
    | some a => c.ser a
  de
    | .null => some none
    | j => (c.de j).map some
  de_ser a := by
    cases a with
    | none => rfl
    | some a =>
        show (match c.ser a with | .null => _ | j => _) = _
        split
        next hnull => exact absurd hnull (notNull a)
        next => rw [c.de_ser, Option.map_some]

/-- The name of a variant that holds nothing. -/
def unitVariant : JsonDoc → Option String
  | .str name => some name
  | .obj [(name, .null)] => some name
  | .obj [(name, .obj [])] => some name
  | _ => none

/-- An enum whose variants hold nothing. -/
def variants (all : List α) (name : α → String)
    (known : ∀ a, all.find? (name · = name a) = some a) : Codec α where
  ser a := .str (name a)
  de j := (unitVariant j).bind fun s => all.find? (name · = s)
  de_ser := known

end Codec

-- ============================================================= entries

/-- The entries of an object. -/
abbrev Entries := List (String × JsonDoc)

/-- The values under a name. -/
def valuesAt (name : String) (es : Entries) : List JsonDoc :=
  (es.filter (·.1 = name)).map Prod.snd

theorem valuesAt_append (name : String) (es es' : Entries) :
    valuesAt name (es ++ es') = valuesAt name es ++ valuesAt name es' := by
  rw [valuesAt, List.filter_append, List.map_append]
  rfl

theorem valuesAt_of_notMem {name : String} {es : Entries}
    (h : name ∉ es.map Prod.fst) : valuesAt name es = [] := by
  rw [valuesAt, List.filter_eq_nil_iff.2, List.map_nil]
  intro e he hname
  exact h (List.mem_map.2 ⟨e, he, of_decide_eq_true hname⟩)

/-- Under a name that is there once, the order of the entries is of no
account. -/
theorem valuesAt_perm {es es' : Entries} (name : String) (h : es.Perm es')
    (hnodup : (es.map Prod.fst).Nodup) :
    valuesAt name es = valuesAt name es' := by
  have hperm : (valuesAt name es).Perm (valuesAt name es') :=
    (h.filter _).map _
  have hlen : (valuesAt name es).length ≤ 1 := by
    rw [valuesAt, List.length_map, ← List.countP_eq_length_filter]
    have hcount := List.nodup_iff_count_le_one.1 hnodup name
    rw [List.count_eq_countP, List.countP_map] at hcount
    refine Nat.le_trans (Nat.le_of_eq (List.countP_congr fun e _ => ?_)) hcount
    simp
  match hvals : valuesAt name es, hlen with
  | [], _ =>
      rw [hvals] at hperm
      exact hperm.nil_eq
  | [j], _ =>
      rw [hvals] at hperm
      exact (List.perm_singleton.1 hperm.symm).symm
  | _ :: _ :: _, hlen =>
      simp only [List.length_cons] at hlen
      omega

-- ============================================================== fields

/-- A field of a record, and what its attributes say. -/
structure Field (α : Type) where
  name : String
  codec : Codec α
  /-- `skip_serializing_if`. -/
  skip : α → Bool
  /-- What is read where an object has no entry. -/
  missing : Option α
  /-- What is read where an array has ended. -/
  ended : Option α
  missing_of_skip : ∀ a, skip a = true → missing = some a

namespace Field

variable {α : Type}

def required (name : String) (codec : Codec α) : Field α where
  name
  codec
  skip _ := false
  missing := none
  ended := none
  missing_of_skip _ h := by cases h

/-- An optional field may be missing. -/
def optional (name : String) (codec : Codec (Option α)) :
    Field (Option α) where
  name
  codec
  skip _ := false
  missing := some none
  ended := none
  missing_of_skip _ h := by cases h

/-- `default`. -/
def defaulted (name : String) (codec : Codec α) (default : α) : Field α where
  name
  codec
  skip _ := false
  missing := some default
  ended := some default
  missing_of_skip _ h := by cases h

/-- `default, skip_serializing_if = "Option::is_none"`. -/
def skipNone (name : String) (codec : Codec (Option α)) :
    Field (Option α) where
  name
  codec
  skip := Option.isNone
  missing := some none
  ended := some none
  missing_of_skip a h := by
    cases a with
    | none => rfl
    | some a => cases h

def write (f : Field α) (a : α) : Entries :=
  if f.skip a then [] else [(f.name, f.codec.ser a)]

def read (f : Field α) (es : Entries) : Option α :=
  match valuesAt f.name es with
  | [] => f.missing
  | [j] => f.codec.de j
  | _ => none

theorem keys_write (f : Field α) (a : α) :
    ((f.write a).map Prod.fst).Sublist [f.name] := by
  unfold write
  split
  · exact List.nil_sublist _
  · exact List.Sublist.refl _

theorem read_write (f : Field α) (a : α) : f.read (f.write a) = some a := by
  unfold write
  split
  next hskip => exact f.missing_of_skip a hskip
  next =>
      have hvals : valuesAt f.name [(f.name, f.codec.ser a)]
          = [f.codec.ser a] := by simp [valuesAt]
      unfold read
      rw [hvals]
      exact f.codec.de_ser a

theorem read_congr (f : Field α) {es es' : Entries}
    (h : valuesAt f.name es = valuesAt f.name es') :
    f.read es = f.read es' := by
  unfold read
  rw [h]

end Field

-- ============================================================= records

/-- The fields of a record `σ`, as far as those of an `α`. -/
structure Record (σ α : Type) where
  names : List String
  write : σ → Entries
  read : Entries → Option α
  /-- Positionally, with what is left of the array. -/
  readSeq : List JsonDoc → Option (α × List JsonDoc)
  /-- What is read back. -/
  value : σ → α
  nodup : names.Nodup
  keys_write : ∀ s, ((write s).map Prod.fst).Sublist names
  read_congr : ∀ {es es'}, (∀ n ∈ names, valuesAt n es = valuesAt n es') →
    read es = read es'
  read_write : ∀ s, read (write s) = some (value s)

namespace Record

variable {σ α β γ : Type}

/-- No fields yet. -/
def empty (a : α) : Record σ α where
  names := []
  write _ := []
  read _ := some a
  readSeq js := some (a, js)
  value _ := a
  nodup := List.nodup_nil
  keys_write _ := List.Sublist.refl _
  read_congr _ := rfl
  read_write _ := rfl

theorem notMem_write (r : Record σ α) {name : String} (h : name ∉ r.names)
    (s : σ) : name ∉ (r.write s).map Prod.fst :=
  fun hmem => h ((r.keys_write s).subset hmem)

/-- One more field. -/
def field (r : Record σ (β → γ)) (f : Field β) (proj : σ → β)
    (fresh : f.name ∉ r.names := by decide) : Record σ γ where
  names := r.names ++ [f.name]
  write s := r.write s ++ f.write (proj s)
  read es := (r.read es).bind fun g => (f.read es).map g
  readSeq js := (r.readSeq js).bind fun p =>
    match p.2 with
    | [] => f.ended.map fun b => (p.1 b, [])
    | j :: js => (f.codec.de j).map fun b => (p.1 b, js)
  value s := r.value s (proj s)
  nodup := List.nodup_append.2 ⟨r.nodup, List.nodup_singleton _, by
    rintro n hn m hm rfl
    exact fresh (List.mem_singleton.1 hm ▸ hn)⟩
  keys_write s := by
    rw [List.map_append]
    exact (r.keys_write s).append (f.keys_write (proj s))
  read_congr h := by
    rw [r.read_congr fun n hn => h n (List.mem_append_left _ hn),
      f.read_congr (h f.name (List.mem_append_right _ List.mem_cons_self))]
  read_write s := by
    have hr : r.read (r.write s ++ f.write (proj s)) = some (r.value s) := by
      rw [← r.read_write s]
      refine r.read_congr fun n hn => ?_
      have hnotMem : n ∉ (f.write (proj s)).map Prod.fst := by
        intro hmem
        obtain rfl := List.mem_singleton.1 ((f.keys_write _).subset hmem)
        exact fresh hn
      rw [valuesAt_append, valuesAt_of_notMem hnotMem, List.append_nil]
    have hf : f.read (r.write s ++ f.write (proj s)) = some (proj s) := by
      rw [← f.read_write (proj s)]
      refine f.read_congr ?_
      rw [valuesAt_append, valuesAt_of_notMem (r.notMem_write fresh s),
        List.nil_append]
    rw [hr, Option.bind_some, hf, Option.map_some]

/-- A record that is a value of its own. -/
def codec (r : Record σ σ) (same : ∀ s, r.value s = s) : Codec σ where
  ser s := .obj (r.write s)
  de
    | .obj es => r.read es
    | .arr js => match r.readSeq js with
        | some (s, []) => some s
        | _ => none
    | _ => none
  de_ser s := (r.read_write s).trans (congrArg some (same s))

end Record

-- ========================================================= tagged enums

/-- What a variant of an enum holds, as it is written. -/
structure Shape where
  variant : String
  /-- The names of the variant's fields. -/
  names : List String
  entries : Entries
  nodup : names.Nodup
  keys : (entries.map Prod.fst).Sublist names

namespace Shape

def unit (variant : String) : Shape where
  variant
  names := []
  entries := []
  nodup := List.nodup_nil
  keys := List.Sublist.refl _

def of {σ α : Type} (variant : String) (r : Record σ α) (s : σ) : Shape where
  variant
  names := r.names
  entries := r.write s
  nodup := r.nodup
  keys := r.keys_write s

end Shape

/-- A variant as it is read, from the entries besides the tag. -/
structure Variant (β : Type) where
  name : String
  read : Entries → Option β
  read_congr : ∀ {es es'}, (∀ n, valuesAt n es = valuesAt n es') →
    read es = read es'

namespace Variant

variable {α β : Type}

def unit (name : String) (b : β) : Variant β where
  name
  read _ := some b
  read_congr _ := rfl

def of {σ : Type} (name : String) (r : Record σ α) (make : α → β) :
    Variant β where
  name
  read es := (r.read es).map make
  read_congr h := congrArg _ (r.read_congr fun n _ => h n)

theorem read_of {σ : Type} (name : String) (r : Record σ α) (make : α → β)
    (s : σ) : (of name r make).read (r.write s) = some (make (r.value s)) :=
  congrArg (Option.map make) (r.read_write s)

end Variant

/-- An enum whose variants are told apart by the name under `tag`. -/
structure Tagged (β : Type) where
  tag : String
  variants : List (Variant β)
  shape : β → Shape
  tag_notMem : ∀ b, tag ∉ (shape b).names
  read_shape : ∀ b, ∃ v,
    variants.find? (·.name = (shape b).variant) = some v
      ∧ v.read (shape b).entries = some b

namespace Tagged

variable {β : Type} (t : Tagged β)

/-- The keys of a variant's object. -/
def names (b : β) : List String := t.tag :: (t.shape b).names

/-- A variant is given by name, or by number. -/
def variantOf : JsonDoc → Option (Variant β)
  | .str name => t.variants.find? (·.name = name)
  | .int n => if 0 ≤ n.val then t.variants[n.val.toNat]? else none
  | _ => none

def ser (b : β) : Entries :=
  (t.tag, .str (t.shape b).variant) :: (t.shape b).entries

def de (es : Entries) : Option β :=
  match valuesAt t.tag es with
  | [j] => (t.variantOf j).bind fun v =>
      v.read (es.filter fun e => e.1 ≠ t.tag)
  | _ => none

theorem nodup_names (b : β) : (t.names b).Nodup :=
  List.nodup_cons.2 ⟨t.tag_notMem b, (t.shape b).nodup⟩

/-- The object of a variant is apart from a record when its fields are,
and its tag is. -/
theorem apart_of_notMem {b : β} {own : List String} (htag : t.tag ∉ own)
    (h : ∀ n ∈ (t.shape b).names, n ∉ own ++ [t.tag]) :
    ∀ n ∈ t.names b, n ∉ own := by
  intro n hn hown
  rcases List.mem_cons.1 hn with rfl | hn
  · exact htag hown
  · exact h n hn (List.mem_append_left _ hown)

theorem keys_ser (b : β) : ((t.ser b).map Prod.fst).Sublist (t.names b) :=
  (t.shape b).keys.cons_cons _

theorem de_ser (b : β) : t.de (t.ser b) = some b := by
  have hnotMem : t.tag ∉ (t.shape b).entries.map Prod.fst :=
    fun h => t.tag_notMem b ((t.shape b).keys.subset h)
  have hvals : valuesAt t.tag (t.ser b) = [.str (t.shape b).variant] := by
    have happend := valuesAt_append t.tag
      [(t.tag, .str (t.shape b).variant)] (t.shape b).entries
    rw [valuesAt_of_notMem hnotMem, List.append_nil] at happend
    refine happend.trans ?_
    simp [valuesAt]
  have hrest : (t.ser b).filter (fun e => e.1 ≠ t.tag)
      = (t.shape b).entries := by
    rw [ser, List.filter_cons_of_neg (by simp), List.filter_eq_self]
    intro e he
    refine decide_eq_true fun htag => hnotMem ?_
    exact List.mem_map.2 ⟨e, he, htag⟩
  obtain ⟨v, hfind, hread⟩ := t.read_shape b
  unfold de
  rw [hvals]
  show (t.variants.find? _).bind _ = _
  rw [hfind, Option.bind_some, hrest, hread]

theorem de_perm {es es' : Entries} (h : es.Perm es')
    (hnodup : (es.map Prod.fst).Nodup) : t.de es = t.de es' := by
  have hrest : ∀ v : Variant β, v.read (es.filter fun e => e.1 ≠ t.tag)
      = v.read (es'.filter fun e => e.1 ≠ t.tag) := fun v =>
    v.read_congr fun n => valuesAt_perm n (h.filter _)
      (hnodup.sublist (List.filter_sublist.map Prod.fst))
  unfold de
  rw [valuesAt_perm t.tag h hnodup]
  simp only [hrest]

end Tagged

-- ============================================================ flattening

namespace Record

variable {σ β : Type} (r : Record σ (β → σ)) (t : Tagged β) (proj : σ → β)

/-- The record reads its own fields, and the enum what is left. -/
def readFlat (es : Entries) : Option σ :=
  (r.read es).bind fun g => (t.de (es.filter fun e => e.1 ∉ r.names)).map g

theorem readFlat_perm {es es' : Entries} (h : es.Perm es')
    (hnodup : (es.map Prod.fst).Nodup) :
    r.readFlat t es = r.readFlat t es' := by
  unfold readFlat
  rw [r.read_congr fun n _ => valuesAt_perm n h hnodup,
    t.de_perm (h.filter _) (hnodup.sublist (List.filter_sublist.map Prod.fst))]

/-- The names of a flattened record are all different. -/
theorem nodup_flat (apart : ∀ b, ∀ n ∈ t.names b, n ∉ r.names) (s : σ) :
    ((r.write s ++ t.ser (proj s)).map Prod.fst).Nodup := by
  rw [List.map_append]
  refine List.Nodup.sublist ((r.keys_write s).append (t.keys_ser (proj s))) ?_
  refine List.nodup_append.2 ⟨r.nodup, t.nodup_names _, ?_⟩
  rintro n hn m hm rfl
  exact apart _ n hm hn

/-- `flatten`. -/
def flatten (apart : ∀ b, ∀ n ∈ t.names b, n ∉ r.names)
    (same : ∀ s, r.value s (proj s) = s) : Codec σ where
  ser s := .obj (r.write s ++ t.ser (proj s))
  de
    | .obj es => r.readFlat t es
    | _ => none
  de_ser s := by
    have hkeys : ∀ n ∈ (t.ser (proj s)).map Prod.fst, n ∉ r.names :=
      fun n hn => apart _ n ((t.keys_ser _).subset hn)
    have hr : r.read (r.write s ++ t.ser (proj s)) = some (r.value s) := by
      rw [← r.read_write s]
      refine r.read_congr fun n hn => ?_
      have hnotMem : n ∉ (t.ser (proj s)).map Prod.fst :=
        fun hmem => hkeys n hmem hn
      rw [valuesAt_append, valuesAt_of_notMem hnotMem, List.append_nil]
    have hrest : (r.write s ++ t.ser (proj s)).filter (fun e => e.1 ∉ r.names)
        = t.ser (proj s) := by
      rw [List.filter_append, List.filter_eq_nil_iff.2, List.nil_append,
        List.filter_eq_self.2]
      · exact fun e he => decide_eq_true (hkeys _ (List.mem_map_of_mem he))
      · intro e he hout
        exact of_decide_eq_true hout
          ((r.keys_write s).subset (List.mem_map_of_mem he))
    show r.readFlat t _ = _
    unfold readFlat
    rw [hr, Option.bind_some, hrest, t.de_ser, Option.map_some, same]

/-- A frame is read back in any order of its entries. -/
theorem de_flatten_of_perm {r : Record σ (β → σ)} {t : Tagged β} {proj : σ → β}
    {apart : ∀ b, ∀ n ∈ t.names b, n ∉ r.names}
    {same : ∀ s, r.value s (proj s) = s} {es : Entries} {s : σ}
    (h : es.Perm (r.write s ++ t.ser (proj s))) :
    (r.flatten t proj apart same).de (.obj es) = some s := by
  rw [← (r.flatten t proj apart same).de_ser s]
  exact (r.readFlat_perm t h.symm (r.nodup_flat t proj apart s)).symm

end Record

end Autofork.Lib
