/-
What a notification's payload can do to its ids.

Each tag of the envelope is searched for in the whole text, so the
payload speaks for every tag the header leaves open. `Shut` says of one
tag when it does not: the header has a closed element of that name, or
one it opens and the payload does not close, or none and the payload
quotes none. A notification parses to the ids and the status of its
header exactly when all three tags are shut (`envelope_only_iff`).
-/
import Autofork.Hook

namespace Autofork

open Lib

-- ============================================================= elements

def openTag (name : String) : List Char := ("<" ++ name ++ ">").toList

def closeTag (name : String) : List Char := ("</" ++ name ++ ">").toList

/-- The text between the first opening tag and the next closing one. -/
def elementText (name : String) (text : List Char) : Option (List Char) :=
  (afterFirst (openTag name) text).bind (beforeFirst (closeTag name))

/-- A value as it is read: trimmed, and none if nothing is left. -/
def filled (value : List Char) : Option String :=
  if trim value = [] then none else some (String.ofList (trim value))

theorem tagValue_eq (text name : String) :
    tagValue text name = (elementText name text.toList).bind filled := by
  unfold tagValue elementText filled
  rw [Option.bind_assoc]
  rfl

section tag

variable {name : String} {text header payload : List Char}

/-- The characters after an opening angle bracket. -/
private theorem openTag_cons (name : String) :
    openTag name = '<' :: (name.toList ++ ['>']) := by
  simp [openTag, String.toList_append]

private theorem closeTag_cons (name : String) :
    closeTag name = '<' :: '/' :: (name.toList ++ ['>']) := by
  simp [closeTag, String.toList_append]

private theorem openTag_ne_nil (name : String) : openTag name ≠ [] := by
  rw [openTag_cons]
  exact List.cons_ne_nil _ _

private theorem closeTag_ne_nil (name : String) : closeTag name ≠ [] := by
  rw [closeTag_cons]
  exact List.cons_ne_nil _ _

/-- Tags have one opening angle bracket, so none begins in one text and
ends in another that starts with one. -/
private theorem openTag_apart (hname : '<' ∉ name.toList)
    (ht : ∀ x ∈ payload.head?, x = '<') (h : ¬openTag name <:+: text) :
    ¬Begins (openTag name) text payload := by
  rw [openTag_cons] at h ⊢
  exact fun hb => h (infix_of_begins (by simpa using hname) ht hb)

private theorem closeTag_apart (hname : '<' ∉ name.toList)
    (ht : ∀ x ∈ payload.head?, x = '<') (h : ¬closeTag name <:+: text) :
    ¬Begins (closeTag name) text payload := by
  rw [closeTag_cons] at h ⊢
  exact fun hb => h (infix_of_begins (by simpa using hname) ht hb)

/-- The text contains a closed element of that name. -/
def Closes (name : String) (text : List Char) : Prop :=
  ∃ v, openTag name ++ (v ++ closeTag name) <:+: text

/-- The first opening tag of a closed element has its closing one after
it. -/
private theorem closeTag_after_first (hname : '<' ∉ name.toList)
    {u r : List Char} (hfirst : ¬Begins (openTag name) u (openTag name ++ r))
    (h : Closes name (u ++ (openTag name ++ r))) : closeTag name <:+: r := by
  obtain ⟨v, a, b, hab⟩ := h
  have hclose : closeTag name <:+: openTag name ++ (v ++ (closeTag name ++ b)) :=
    (List.infix_append' v _ _).trans (List.suffix_append _ _).isInfix
  simp only [List.append_assoc] at hab
  rcases List.append_eq_append_iff.1 hab with ⟨x, hu, hx⟩ | ⟨x, -, hx⟩
  · -- the closed element opens within `u`, or just where `u` ends
    cases x with
    | nil =>
        rw [List.nil_append, List.append_cancel_left_eq] at hx
        rw [← hx]
        exact List.infix_append' v _ _
    | cons y x =>
        refine absurd ⟨a, y :: x, hu, by simp, ?_⟩ hfirst
        rw [← hx]
        exact List.prefix_append _ _
  · rcases List.append_eq_append_iff.1 hx with ⟨z, -, hz⟩ | ⟨z, hopen, hz⟩
    · rw [hz]
      exact hclose.trans (List.suffix_append z _).isInfix
    · -- only the whole of a tag starts as a tag does
      cases x with
      | nil =>
          rw [List.nil_append] at hopen
          rw [← hopen, List.append_cancel_left_eq] at hz
          rw [← hz]
          exact List.infix_append' v _ _
      | cons y x =>
          cases z with
          | nil =>
              rw [List.nil_append] at hz
              rw [← hz]
              exact hclose
          | cons c z =>
              rw [openTag_cons, List.cons_append, List.cons_append,
                List.cons_eq_cons] at hz
              rw [openTag_cons, List.cons_append, List.cons_eq_cons] at hopen
              have hin : '<' ∈ name.toList ++ ['>'] := by
                rw [hopen.2, hz.1]
                simp
              exact absurd (by simpa using hin) hname

/-- The value of an element the header closes does not depend on what
follows. -/
theorem elementText_closed (hname : '<' ∉ name.toList)
    (h : Closes name header) :
    ∃ v, ∀ payload, elementText name (header ++ payload) = some v := by
  obtain ⟨v, hv⟩ := h
  have hopen : openTag name <:+: header :=
    (List.prefix_append _ _).isInfix.trans hv
  obtain ⟨u, r, rfl, hfirst⟩ := exists_first (openTag_ne_nil name) hopen
  have hclose : closeTag name <:+: r := by
    have hhere := hfirst []
    rw [List.append_nil] at hhere
    exact closeTag_after_first hname hhere ⟨v, hv⟩
  obtain ⟨value, w, rfl, hvalue⟩ := exists_first (closeTag_ne_nil name) hclose
  refine ⟨value, fun payload => ?_⟩
  unfold elementText
  simp only [List.append_assoc]
  have hopened := hfirst payload
  simp only [List.append_assoc] at hopened
  rw [afterFirst_skip hopened, afterFirst_here, Option.bind_some,
    beforeFirst_skip (hvalue payload), beforeFirst_here, Option.map_some,
    List.append_nil]

/-- A tag the header does not open is the payload's. -/
theorem elementText_absent (hname : '<' ∉ name.toList)
    (ht : ∀ x ∈ payload.head?, x = '<') (h : ¬openTag name <:+: header) :
    elementText name (header ++ payload) = elementText name payload := by
  unfold elementText
  rw [afterFirst_skip (openTag_apart hname ht h)]

/-- The value of an element the header opens and does not close runs on
into the payload. -/
theorem elementText_open (hname : '<' ∉ name.toList)
    (ht : ∀ x ∈ payload.head?, x = '<') (hopen : openTag name <:+: header)
    (h : ¬Closes name header) : ∃ r,
      elementText name (header ++ payload)
        = (beforeFirst (closeTag name) payload).map (r ++ ·) := by
  obtain ⟨u, r, rfl, hfirst⟩ := exists_first (openTag_ne_nil name) hopen
  have hclose : ¬closeTag name <:+: r := by
    rintro ⟨v, w, rfl⟩
    refine h ⟨v, u, w, ?_⟩
    simp
  refine ⟨r, ?_⟩
  unfold elementText
  simp only [List.append_assoc]
  rw [afterFirst_skip (hfirst payload), afterFirst_here, Option.bind_some,
    beforeFirst_skip (closeTag_apart hname ht hclose)]

theorem elementText_unclosed (hname : '<' ∉ name.toList)
    (h : ¬Closes name text) : elementText name text = none := by
  have hnothing : elementText name [] = none := by
    rw [elementText, afterFirst, if_neg (openTag_ne_nil name), Option.bind_none]
  rw [← List.append_nil text]
  by_cases hopen : openTag name <:+: text
  · obtain ⟨r, hr⟩ := @elementText_open _ _ [] hname (by simp) hopen h
    rw [hr, beforeFirst, if_neg (closeTag_ne_nil name), Option.map_none]
  · rw [elementText_absent hname (by simp) hopen, hnothing]

-- ============================================================ payloads

/-- The first element of that name in the text is closed, and not
empty. -/
def Quotes (name : String) (text : List Char) : Prop :=
  ∃ u v w, text = u ++ (openTag name ++ (v ++ (closeTag name ++ w)))
    ∧ ¬openTag name <:+: u ∧ ¬closeTag name <:+: v
    ∧ ∃ c ∈ v, isWhitespace c = false

theorem Quotes.opens (h : Quotes name text) : openTag name <:+: text := by
  obtain ⟨u, v, w, rfl, -⟩ := h
  exact List.infix_append' u _ _

theorem filled_eq_none_iff {v : List Char} :
    filled v = none ↔ ∀ c ∈ v, isWhitespace c = true := by
  unfold filled
  split
  next h => exact iff_of_true rfl (trim_eq_nil_iff.1 h)
  next h => exact iff_of_false (by simp) (mt trim_eq_nil_iff.2 h)

/-- An element has a value exactly when the text quotes it. -/
theorem value_eq_none_iff (hname : '<' ∉ name.toList) :
    (elementText name text).bind filled = none ↔ ¬Quotes name text := by
  have hheadOpen : ∀ s, ∀ x ∈ (openTag name ++ s).head?, x = '<' := by
    simp [openTag_cons]
  have hheadClose : ∀ s, ∀ x ∈ (closeTag name ++ s).head?, x = '<' := by
    simp [closeTag_cons]
  rw [← not_iff_not, not_not, Option.bind_eq_none_iff]
  push Not
  constructor
  · rintro ⟨v, hv, hfilled⟩
    have hclosed : Closes name text := by
      by_contra h
      rw [elementText_unclosed hname h] at hv
      cases hv
    have hopen : openTag name <:+: text := by
      obtain ⟨x, hx⟩ := hclosed
      exact (List.prefix_append _ _).isInfix.trans hx
    obtain ⟨u, r, rfl, hfirst⟩ := exists_first (openTag_ne_nil name) hopen
    have hhere := hfirst []
    rw [List.append_nil] at hhere
    obtain ⟨value, w, rfl, hvalue⟩ := exists_first (closeTag_ne_nil name)
      (closeTag_after_first hname hhere hclosed)
    have hrest := hvalue []
    rw [List.append_nil] at hrest
    rw [elementText, afterFirst_skip hhere, afterFirst_here, Option.bind_some,
      beforeFirst_skip hrest, beforeFirst_here, Option.map_some, List.append_nil,
      Option.some.injEq] at hv
    subst hv
    refine ⟨u, value, w, rfl,
      fun h => hhere (begins_within (openTag_ne_nil name) h _),
      fun h => hrest (begins_within (closeTag_ne_nil name) h _), ?_⟩
    rw [ne_eq, filled_eq_none_iff] at hfilled
    push Not at hfilled
    simpa using hfilled
  · rintro ⟨u, v, w, rfl, hu, hv, c, hc, hblank⟩
    refine ⟨v, ?_, fun h => ?_⟩
    · rw [elementText, afterFirst_skip (openTag_apart hname (hheadOpen _) hu),
        afterFirst_here, Option.bind_some,
        beforeFirst_skip (closeTag_apart hname (hheadClose _) hv),
        beforeFirst_here, Option.map_some, List.append_nil]
    · rw [filled_eq_none_iff] at h
      simp [h c hc] at hblank

/-- The payload has no say in the value of a tag: the header has a
closed element of that name, or one it opens and the payload does not
close, or none and the payload quotes none. -/
def Shut (name : String) (header payload : List Char) : Prop :=
  Closes name header
    ∨ (openTag name <:+: header ∧ ¬closeTag name <:+: payload)
    ∨ (¬openTag name <:+: header ∧ ¬Quotes name payload)

/-- A payload begins with an opening angle bracket, and not with a
closing tag. -/
def Payload (text : List Char) : Prop :=
  "<summary>".toList <+: text ∨ "<result>".toList <+: text

private theorem Payload.head (h : Payload payload) :
    ∃ c rest, payload = '<' :: c :: rest ∧ c ≠ '/' := by
  rcases h with ⟨rest, rfl⟩ | ⟨rest, rfl⟩
  · exact ⟨'s', _, rfl, by decide⟩
  · exact ⟨'r', _, rfl, by decide⟩

/-- A tag's value is the header's exactly when the payload has no say. -/
theorem value_header_iff (hname : '<' ∉ name.toList) (hp : Payload payload) :
    (elementText name (header ++ payload)).bind filled
        = (elementText name header).bind filled
      ↔ Shut name header payload := by
  obtain ⟨c, rest, hpayload, hc⟩ := hp.head
  have ht : ∀ x ∈ payload.head?, x = '<' := by simp [hpayload]
  unfold Shut
  by_cases hclosed : Closes name header
  · obtain ⟨v, hv⟩ := elementText_closed hname hclosed
    have hheader := hv []
    rw [List.append_nil] at hheader
    rw [hv, hheader]
    exact iff_of_true rfl (.inl hclosed)
  · rw [elementText_unclosed hname hclosed, Option.bind_none]
    by_cases hopen : openTag name <:+: header
    · obtain ⟨r, hr⟩ := elementText_open hname ht hopen hclosed
      have hopened : ¬Closes name header → (Closes name header
          ∨ (openTag name <:+: header ∧ ¬closeTag name <:+: payload)
          ∨ (¬openTag name <:+: header ∧ ¬Quotes name payload)
          ↔ ¬closeTag name <:+: payload) := by
        intro h
        simp [h, hopen]
      rw [hopened hclosed, hr]
      constructor
      · intro hnone hin
        obtain ⟨b, w, hb, hfirst⟩ := exists_first (closeTag_ne_nil name) hin
        have hrest := hfirst []
        rw [List.append_nil] at hrest
        rw [hb, beforeFirst_skip hrest, beforeFirst_here, Option.map_some,
          List.append_nil, Option.map_some, Option.bind_some,
          filled_eq_none_iff] at hnone
        rw [hpayload] at hb
        cases b with
        | nil =>
            rw [closeTag_cons, List.nil_append, List.cons_append,
              List.cons_append, List.cons_eq_cons, List.cons_eq_cons] at hb
            exact hc hb.2.1
        | cons x b =>
            rw [List.cons_append, List.cons_eq_cons] at hb
            have hblank := hnone x (by simp)
            rw [← hb.1] at hblank
            exact absurd hblank (by decide)
      · intro hno
        rw [beforeFirst_absent (closeTag_ne_nil name) hno]
        rfl
    · rw [elementText_absent hname ht hopen, value_eq_none_iff hname]
      simp [hclosed, hopen]

end tag

-- ======================================================== notifications

/-- What is read of an envelope. -/
def envelopeTags : List String := ["tool-use-id", "task-id", "status"]

/-- A text that starts with the notification tag. -/
theorem parseTaskNotification_of_start {text : String}
    (h : taskNotificationPrefix.toList <+: text.toList) :
    parseTaskNotification text = some {
      toolUseId := tagValue text "tool-use-id"
      taskId := tagValue text "task-id"
      status := tagValue text "status" } := by
  have htrim : trimStart text.toList = text.toList := by
    obtain ⟨rest, hrest⟩ := h
    rw [← hrest, trimStart]
    exact List.dropWhile_cons_of_neg (by decide)
  have hpre : taskNotificationPrefix.toList.isPrefixOf text.toList = true :=
    List.isPrefixOf_iff_prefix.2 h
  simp only [parseTaskNotification, htrim, String.ofList_toList, hpre, if_true]

/-- For every header and every payload: ids and status are those of the
header alone exactly when the payload has no say in any of the three
tags. -/
theorem envelope_only_iff {header payload : String}
    (hheader : taskNotificationPrefix.toList <+: header.toList)
    (hpayload : Payload payload.toList) :
    parseTaskNotification (header ++ payload) = parseTaskNotification header
      ↔ ∀ name ∈ envelopeTags, Shut name header.toList payload.toList := by
  have hwhole : taskNotificationPrefix.toList <+: (header ++ payload).toList := by
    rw [String.toList_append]
    exact hheader.trans (List.prefix_append _ _)
  have hname : ∀ name ∈ envelopeTags, '<' ∉ name.toList := by decide
  have hvalue : ∀ name ∈ envelopeTags,
      tagValue (header ++ payload) name = tagValue header name
        ↔ Shut name header.toList payload.toList := by
    intro name hmem
    rw [tagValue_eq, tagValue_eq, String.toList_append]
    exact value_header_iff (hname name hmem) hpayload
  rw [parseTaskNotification_of_start hwhole, parseTaskNotification_of_start hheader,
    Option.some.injEq, TaskNotification.mk.injEq]
  simp only [envelopeTags, List.forall_mem_cons] at hvalue ⊢
  rw [hvalue.1, hvalue.2.1, hvalue.2.2.1]
  simp

/-- A header without a tool-use id, as a teardown has it. -/
private def teardown : String :=
  "<task-notification>\n<task-id>abc</task-id>\n<status>stopped</status>\n"

/-- A payload that quotes no tag leaves the header's ids alone. -/
theorem envelope_only_plain :
    parseTaskNotification (teardown ++ "<summary>No record was found</summary>")
      = parseTaskNotification teardown := by
  refine (envelope_only_iff (by decide) (.inl (by decide))).2 ?_
  simp only [envelopeTags, List.forall_mem_cons]
  refine ⟨.inr (.inr ⟨by decide +kernel, fun h => ?_⟩), .inl ⟨"abc".toList, ?_⟩,
    .inl ⟨"stopped".toList, ?_⟩, by simp⟩
  · exact absurd h.opens (by decide +kernel)
  · decide +kernel
  · decide +kernel

/-- A summary that quotes another notification lends its id to a header
that has none. -/
theorem envelope_quotes_id :
    ¬∀ header payload : String,
      taskNotificationPrefix.toList <+: header.toList → Payload payload.toList →
      parseTaskNotification (header ++ payload) = parseTaskNotification header := by
  intro h
  exact absurd (h teardown "<summary>saw <tool-use-id>toolu_1</tool-use-id></summary>"
    (by decide) (.inl (by decide))) (by decide +kernel)

end Autofork
