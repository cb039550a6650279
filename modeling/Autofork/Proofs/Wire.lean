/-
The wire format: frames survive their passage as lines of one stream.

The derived codecs carry their round trip, and the crate's text form is
assumed to have its own (`TextForm`). What is left is the stream: a text
without newlines, followed by one, is the first line of whatever
follows.

A shutdown frame is read in any order of its entries, and goes to
`dispatch` whatever protocol its sender speaks.
-/
import Autofork.Server

namespace Autofork

open Lib

namespace Protocol

variable {α : Type} {render : JsonDoc → String}
  {parse : String → Option JsonDoc}

-- ================================================================ stream

theorem lines_append {s : String} (h : '\n' ∉ s.toList) (t : String) :
    lines (s ++ "\n" ++ t) = s :: lines t := by
  have hne : ∀ c ∈ s.toList, decide (c ≠ '\n') = true := by
    rintro c hc
    refine decide_eq_true ?_
    rintro rfl
    exact h hc
  have hlines : (s ++ "\n" ++ t).toList = s.toList ++ '\n' :: t.toList := by
    simp only [String.toList_append, List.append_assoc]
    rfl
  unfold lines
  rw [hlines, allLines_append_cons h, List.map_cons,
    List.takeWhile_append_of_pos hne]
  simp only [ne_eq, not_true_eq_false, decide_false, List.takeWhile_cons,
    Bool.false_eq_true, ↓reduceIte, List.append_nil, String.ofList_toList]

/-- The lines of a stream of frames are the frames' texts. -/
theorem lines_encode (h : TextForm render parse) (c : Codec α)
    (frames : List α) :
    lines (String.join (frames.map (encode c render)))
      = frames.map fun frame => render (c.ser frame) := by
  induction frames with
  | nil => rfl
  | cons frame frames ih =>
      rw [List.map_cons, String.join_cons, encode,
        lines_append (h.no_newline _), ih, List.map_cons]

theorem decode_render (h : TextForm render parse) (c : Codec α) (frame : α) :
    decode c parse (render (c.ser frame)) = some frame := by
  rw [decode, h.parse_render, Option.bind_some, c.de_ser]

theorem decode_lines (h : TextForm render parse) (c : Codec α)
    (frames : List α) :
    (lines (String.join (frames.map (encode c render)))).mapM (decode c parse)
      = some frames := by
  rw [lines_encode h]
  exact mapM_map_of_inverse (decode_render h c) frames

-- ============================================================== shutdown

/-- The entries of a shutdown frame. -/
def shutdownFrame (proto : UInt32) (id : UInt64) (drain : Bool) : Entries :=
  [("proto", Codec.u32.ser proto), ("id", Codec.u64.ser id),
    ("type", .str "shutdown"), ("drain", .bool drain)]

theorem decode_shutdown {proto : UInt32} {id : UInt64} {drain : Bool}
    {es : Entries} {line : String}
    (hes : es.Perm (shutdownFrame proto id drain))
    (hline : parse line = some (.obj es)) :
    decode request parse line = some ⟨proto, id, .shutdown drain⟩ := by
  rw [decode, hline, Option.bind_some]
  exact Record.de_flatten_of_perm hes

theorem reaction_shutdown (proto : UInt32) (id : UInt64) (drain : Bool) :
    Request.reaction ⟨proto, id, .shutdown drain⟩
      = .dispatched id (.shutdown drain) :=
  if_neg fun h => Bool.noConfusion h.2

theorem handleLine_of_decode (h : TextForm render parse)
    {complaint : String → String} {line : String} {req : Request}
    (hreq : decode request parse line = some req) :
    handleLine parse complaint line = req.reaction := by
  have hblank : trim line.toList ≠ [] := by
    intro hblank
    rw [decode, h.parse_blank line hblank] at hreq
    cases hreq
  rw [handleLine, if_neg hblank, hreq]

end Protocol

open Protocol

/-- The wire format round-trips as a stream, its bodies share no name
with its frames, and a daemon can always be shut down. -/
theorem wire_round_trips {render : JsonDoc → String}
    {parse : String → Option JsonDoc} (h : TextForm render parse) :
    (∀ requests : List Request,
      (lines (String.join (requests.map (encode request render)))).mapM
        (decode request parse) = some requests)
    ∧ (∀ responses : List Response,
      (lines (String.join (responses.map (encode response render)))).mapM
        (decode response parse) = some responses)
    ∧ (∀ body, ∀ name ∈ (requestBody.shape body).names,
      name ∉ ["proto", "id", "type"])
    ∧ (∀ body, ∀ name ∈ (responseBody.shape body).names,
      name ∉ ["proto", "id", "type"])
    ∧ ∀ proto id drain es line,
      es.Perm (shutdownFrame proto id drain) →
      parse line = some (.obj es) →
        decode request parse line = some ⟨proto, id, .shutdown drain⟩
        ∧ ∀ complaint,
          handleLine parse complaint line
            = .dispatched id (.shutdown drain) := by
  refine ⟨decode_lines h request, decode_lines h response,
    requestShape_notMem, responseShape_notMem, ?_⟩
  intro proto id drain es line hes hline
  have hdecode := decode_shutdown hes hline
  refine ⟨hdecode, fun complaint => ?_⟩
  rw [handleLine_of_decode h hdecode, reaction_shutdown]

/-- Through the text form of `JsonDoc`: a poll whose strings have quotes and
newlines in them, and a shutdown of another protocol, backwards. -/
theorem wire_round_trips_json :
    let poll : Request := ⟨1, 7, .stopWait {
      event := .stop
      sessionId := "a\"\n"
      transcriptPath := some "/t.jsonl"
      cwd := "/p"
      projectRoot := "/p" }⟩
    (lines (String.join ([poll, ⟨1, 8, .status⟩].map
        (encode request JsonDoc.render)))).mapM (decode request JsonDoc.parse)
        = some [poll, ⟨1, 8, .status⟩]
      ∧ handleLine JsonDoc.parse id
          (JsonDoc.render (.obj (shutdownFrame 2 9 true).reverse))
        = .dispatched 9 (.shutdown true) := by
  obtain ⟨hrequests, -, -, -, hshutdown⟩ := wire_round_trips JsonDoc.textForm
  refine ⟨hrequests _, ?_⟩
  exact (hshutdown 2 9 true _ _ (List.reverse_perm _)
    (JsonDoc.textForm.parse_render _)).2 id

-- the shape that must parse forever
example :
    let line :=
      "\x7b\"proto\":1,\"id\":1,\"type\":\"shutdown\",\"drain\":true\x7d"
    let req : Request := ⟨1, 1, .shutdown true⟩
    JsonDoc.render (request.ser req) = line
      ∧ decode request JsonDoc.parse line = some req := by decide +kernel

end Autofork
