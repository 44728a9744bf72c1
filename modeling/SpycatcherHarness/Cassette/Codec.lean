import SpycatcherHarness.Cassette.Types
import SpycatcherHarness.Json.Derive

/-!
# Cassettes as JSON documents

The derived serialization of the cassette schema, type by type in the order of the fields; the two
enumerations carry a `kind`.

* `Cassette.fromReader`, `Cassette.writeTo` : the two directions on the bytes of a file.
* `Codec.codes_cassette` : what is read back from a written document (`Cassette.Reread`).
* `Codec.depth_encodeCassette_le` : how deep a document is nested, field by field.
-/

namespace SpycatcherHarness

namespace Codec

/-! ### Writing -/

/-- A byte string: an array of numbers. -/
def encodeBytes (bytes : Bytes) : Json := .array (bytes.map fun b => encodeNat64 b.toUInt64)

def encodeHeader (header : String × String) : Json := .array [.string header.1, .string header.2]

def encodeHeaders (headers : Headers) : Json := .array (headers.map encodeHeader)

def encodeEvent : StreamEvent → Json
  | .comment text => .object [("kind", .string "comment"), ("text", .string text)]
  | .data raw parsedJson =>
    .object [("kind", .string "data"), ("raw", .string raw),
      ("parsed_json", encodeOption id parsedJson)]

def encodeTiming (timing : StreamTiming) : Json :=
  .object [("ttft_ms", encodeNat64 timing.ttftMs),
    ("chunk_offsets_ms", .array (timing.chunkOffsetsMs.map encodeNat64))]

def encodeRequest (request : RecordedRequest) : Json :=
  .object [
    ("method", .string request.method),
    ("path", .string request.path),
    ("query", .string request.query),
    ("headers", encodeHeaders request.headers),
    ("body", encodeBytes request.body),
    ("parsed_json", encodeOption id request.parsedJson),
    ("canonical_request", encodeOption id request.canonicalRequest),
    ("stable_hash", encodeOption .string request.stableHash)]

def encodeResponse : RecordedResponse → Json
  | .nonStream status headers body parsedJson =>
    .object [
      ("kind", .string "non_stream"),
      ("status", encodeNat64 status.toUInt64),
      ("headers", encodeHeaders headers),
      ("body", encodeBytes body),
      ("parsed_json", encodeOption id parsedJson)]
  | .stream status headers events rawTranscript timing =>
    .object [
      ("kind", .string "stream"),
      ("status", encodeNat64 status.toUInt64),
      ("headers", encodeHeaders headers),
      ("events", .array (events.map encodeEvent)),
      ("raw_transcript", encodeBytes rawTranscript),
      ("timing", encodeOption encodeTiming timing)]

def encodeMetadata (metadata : InteractionMetadata) : Json :=
  .object [
    ("protocol_id", .string metadata.protocolId),
    ("upstream_id", .string metadata.upstreamId),
    ("recorded_at", .string metadata.recordedAt),
    ("relative_offset_ms", encodeNat64 metadata.relativeOffsetMs)]

def encodeInteraction (interaction : Interaction) : Json :=
  .object [
    ("request", encodeRequest interaction.request),
    ("response", encodeResponse interaction.response),
    ("metadata", encodeMetadata interaction.metadata)]

def encodeCassette (cassette : Cassette) : Json :=
  .object [
    ("format_version", encodeNat64 cassette.formatVersion.toUInt64),
    ("interactions", .array (cassette.interactions.map encodeInteraction))]

/-! ### Reading -/

def decodeHeader : Decoder (String × String)
  | d + 1, .array [k, v] => do some (← decodeString d k, ← decodeString d v)
  | _, _ => none

def decodeEvent : Decoder StreamEvent := fun d doc => do
  let (tag, content) ← tagged "kind" d doc
  -- events are part of the content of a response
  match ← decodeVariant ["comment", "data"] tag with
  | "comment" =>
    let f ← fields ["text"] d content
    some (.comment (← field "text" decodeString f))
  | "data" =>
    let f ← fields ["raw", "parsed_json"] d content
    some (.data (← field "raw" decodeString f) (← optField "parsed_json" decodeValue f))
  | _ => none

def decodeTiming : Decoder StreamTiming := fun d doc => do
  let f ← fields ["ttft_ms", "chunk_offsets_ms"] d doc
  some
    { ttftMs := ← field "ttft_ms" decodeNat64 f
      chunkOffsetsMs := ← field "chunk_offsets_ms" (decodeList decodeNat64) f }

def decodeRequest : Decoder RecordedRequest := fun d doc => do
  let f ← fields ["method", "path", "query", "headers", "body", "parsed_json",
    "canonical_request", "stable_hash"] d doc
  some
    { method := ← field "method" decodeString f
      path := ← field "path" decodeString f
      query := ← field "query" decodeString f
      headers := ← field "headers" (decodeList decodeHeader) f
      body := ← field "body" (decodeList decodeNat8) f
      parsedJson := ← optField "parsed_json" decodeValue f
      canonicalRequest := ← optField "canonical_request" decodeValue f
      stableHash := ← optField "stable_hash" decodeString f }

def decodeResponse : Decoder RecordedResponse := fun d doc => do
  let (tag, content) ← tagged "kind" d doc
  match ← decodeString d tag with
  | "non_stream" =>
    let f ← fields ["status", "headers", "body", "parsed_json"] d content
    some (.nonStream (← field "status" decodeNat16 f)
      (← field "headers" (decodeList decodeHeader) f) (← field "body" (decodeList decodeNat8) f)
      (← optField "parsed_json" decodeValue f))
  | "stream" =>
    let f ← fields ["status", "headers", "events", "raw_transcript", "timing"] d content
    some (.stream (← field "status" decodeNat16 f)
      (← field "headers" (decodeList decodeHeader) f) (← field "events" (decodeList decodeEvent) f)
      (← field "raw_transcript" (decodeList decodeNat8) f) (← optField "timing" decodeTiming f))
  | _ => none

def decodeMetadata : Decoder InteractionMetadata := fun d doc => do
  let f ← fields ["protocol_id", "upstream_id", "recorded_at", "relative_offset_ms"] d doc
  some
    { protocolId := ← field "protocol_id" decodeString f
      upstreamId := ← field "upstream_id" decodeString f
      recordedAt := ← field "recorded_at" decodeString f
      relativeOffsetMs := ← field "relative_offset_ms" decodeNat64 f }

def decodeInteraction : Decoder Interaction := fun d doc => do
  let f ← fields ["request", "response", "metadata"] d doc
  some
    { request := ← field "request" decodeRequest f
      response := ← field "response" decodeResponse f
      metadata := ← field "metadata" decodeMetadata f }

def decodeCassette : Decoder Cassette := fun d doc => do
  let f ← fields ["format_version", "interactions"] d doc
  some
    { formatVersion := ← field "format_version" decodeNat32 f
      interactions := ← field "interactions" (decodeList decodeInteraction) f }

end Codec

namespace Cassette

variable (S : SerdeJson)

/-- `Cassette::from_reader`, on the bytes of a file. -/
def fromReader (bytes : Bytes) : HarnessResult Cassette :=
  match (S.read bytes).bind (Codec.decodeCassette maxDepth) with
  | none => .error (.invalidCassette .malformed)
  | some cassette => do
    cassette.validate
    pure cassette

/-- `Cassette::write_to`. -/
def writeTo (cassette : Cassette) : Bytes := S.toWriterPretty (Codec.encodeCassette cassette)

end Cassette

/-! ### What is read back -/

/-- An optional value as it is read back: `null` comes back as an absent one. -/
inductive RereadValue : Option Json → Option Json → Prop
  | none : RereadValue none none
  | null : RereadValue (some .null) none
  | some {v w : Json} : v ≠ .null → Json.ReadBack v w → RereadValue (some v) (some w)

inductive StreamEvent.Reread : StreamEvent → StreamEvent → Prop
  | comment (text : String) : Reread (.comment text) (.comment text)
  | data (raw : String) {p p' : Option Json} :
      RereadValue p p' → Reread (.data raw p) (.data raw p')

inductive RecordedResponse.Reread : RecordedResponse → RecordedResponse → Prop
  | nonStream (status : UInt16) (headers : Headers) (body : Bytes) {p p' : Option Json} :
      RereadValue p p' →
      Reread (.nonStream status headers body p) (.nonStream status headers body p')
  | stream (status : UInt16) (headers : Headers) {events events' : List StreamEvent}
      (rawTranscript : Bytes) (timing : Option StreamTiming) :
      List.Forall₂ StreamEvent.Reread events events' →
      Reread (.stream status headers events rawTranscript timing)
        (.stream status headers events' rawTranscript timing)

/-- The values of a request may change; everything else stays. -/
structure RecordedRequest.Reread (r r' : RecordedRequest) : Prop where
  rest : r' = { r with parsedJson := r'.parsedJson, canonicalRequest := r'.canonicalRequest }
  parsedJson : RereadValue r.parsedJson r'.parsedJson
  canonicalRequest : RereadValue r.canonicalRequest r'.canonicalRequest

structure Interaction.Reread (i i' : Interaction) : Prop where
  request : i.request.Reread i'.request
  response : i.response.Reread i'.response
  metadata : i.metadata = i'.metadata

/-- A cassette as it is read back from its document. -/
structure Cassette.Reread (c c' : Cassette) : Prop where
  formatVersion : c.formatVersion = c'.formatVersion
  interactions : List.Forall₂ Interaction.Reread c.interactions c'.interactions

namespace Codec

open Json (ReadBack)

theorem codes_bytes : Codes encodeBytes (decodeList decodeNat8) Eq := codes_list_eq codes_nat8

theorem codes_header : Codes encodeHeader decodeHeader Eq where
  decodes header doc d hdoc hd := by
    obtain ⟨docs, rfl, hall⟩ := Rereads.array hdoc
    obtain ⟨a, rest, ha, hrest, rfl⟩ := List.forall₂_cons_left_iff.1 hall
    obtain ⟨b, _, hb, ⟨⟩, rfl⟩ := List.forall₂_cons_left_iff.1 hrest
    cases d with
    | zero => simp [encodeHeader, Json.depth] at hd
    | succ d => exact ⟨header, by rw [ha.eq_string, hb.eq_string]; rfl, rfl⟩
  bounded header doc d y hdoc hdec := by
    cases d with
    | zero => cases doc <;> cases hdec
    | succ d => exact Json.depth_array_le.2 (by simp)

theorem codes_headers : Codes encodeHeaders (decodeList decodeHeader) Eq :=
  codes_list_eq codes_header

theorem codes_value : Codes (encodeOption id) (decodeOption decodeValue) RereadValue where
  decodes o doc d hdoc hd := by
    cases o with
    | none => exact ⟨none, by rw [Rereads.eq_null hdoc, decodeOption], .none⟩
    | some v =>
      obtain ⟨w, hread, hvalue⟩ := hdoc.depth
      by_cases hv : v = .null
      · subst hv
        exact ⟨none, by rw [Rereads.eq_null hdoc, decodeOption], .null⟩
      · refine ⟨some w, ?_, .some hv hread⟩
        rw [decodeOption_of_ne (Rereads.ne_null hdoc hv), decodeValue, hvalue, if_pos hd]
        rfl
  bounded o doc d y hdoc hdec := by
    cases o with
    | none => exact Nat.zero_le d
    | some v =>
      obtain ⟨w, -, hvalue⟩ := hdoc.depth
      by_cases hv : v = .null
      · subst hv
        exact Nat.zero_le d
      · rw [decodeOption_of_ne (Rereads.ne_null hdoc hv), decodeValue, hvalue] at hdec
        by_contra hd
        rw [if_neg hd] at hdec
        cases hdec

/-! ### Type by type -/

/-- The fields of a written structure, with the levels that are left for them. -/
theorem fields_of_decoded {es : List (String × Json)} {doc : Doc} {names : List String} {d : ℕ}
    {f : Fields} (h : Rereads (.object es) doc) (hkeys : es.map Prod.fst = names)
    (hf : fields names d doc = some f) : ∃ n, d = n + 1 ∧ Written es n f := by
  obtain rfl := depth_of_fields hf
  obtain ⟨g, hg, hwritten⟩ := fields_of_rereads h hkeys f.depth
  obtain rfl := Option.some.inj (hf.symm.trans hg)
  exact ⟨f.depth, rfl, hwritten⟩

theorem codes_event : Codes encodeEvent decodeEvent StreamEvent.Reread where
  decodes e doc d hdoc hd := by
    cases e with
    | comment text =>
      obtain ⟨content, htag, hcontent, hshallow⟩ := tagged_of_rereads hdoc hd
      obtain ⟨n, f, hf, hw, hn⟩ := fields_of_depth hcontent rfl hshallow
      simp only [List.map_cons, List.map_nil, List.forall_mem_cons] at hf hn
      have htext := hw.field_eq codes_string (k := "text") (x := text) rfl hn.1
      exact ⟨.comment text, by simp [decodeEvent, htag, decodeVariant, hf, htext], .comment text⟩
    | data raw parsedJson =>
      obtain ⟨content, htag, hcontent, hshallow⟩ := tagged_of_rereads hdoc hd
      obtain ⟨n, f, hf, hw, hn⟩ := fields_of_depth hcontent rfl hshallow
      simp only [List.map_cons, List.map_nil, List.forall_mem_cons] at hf hn
      have hraw := hw.field_eq codes_string (k := "raw") (x := raw) rfl hn.1
      obtain ⟨p, hp, hR⟩ := (hw.optField codes_value (k := "parsed_json") (x := parsedJson)
        rfl).1 hn.2.1
      exact ⟨.data raw p, by simp [decodeEvent, htag, decodeVariant, hf, hraw, hp], .data raw hR⟩
  bounded e doc d y hdoc hdec := by
    simp only [decodeEvent, Option.bind_eq_bind, Option.bind_eq_some_iff] at hdec
    obtain ⟨_, htag, -⟩ := hdec
    cases e <;> exact depth_of_tagged hdoc htag

theorem codes_timing : Codes encodeTiming decodeTiming Eq where
  decodes timing doc d hdoc hd := by
    obtain ⟨n, f, hf, hw, hn⟩ := fields_of_depth hdoc rfl hd
    simp only [List.map_cons, List.map_nil, List.forall_mem_cons] at hf hn
    have h1 := hw.field_eq codes_nat64 (k := "ttft_ms") (x := timing.ttftMs) rfl hn.1
    have h2 := hw.field_eq (codes_list_eq codes_nat64) (k := "chunk_offsets_ms")
      (x := timing.chunkOffsetsMs) rfl hn.2.1
    exact ⟨timing, by simp [decodeTiming, hf, h1, h2], rfl⟩
  bounded timing doc d y hdoc hdec := by
    simp only [decodeTiming, Option.bind_eq_bind, Option.bind_eq_some_iff] at hdec
    obtain ⟨f, hf, _, -, _, h2, -⟩ := hdec
    obtain ⟨n, rfl, hw⟩ := fields_of_decoded hdoc rfl hf
    have hoffsets := (hw.field (codes_list_eq codes_nat64) (k := "chunk_offsets_ms")
      (x := timing.chunkOffsetsMs) rfl).2 _ h2
    simpa [encodeTiming, Json.depth_object_le, encodeNat64] using hoffsets

theorem codes_metadata : Codes encodeMetadata decodeMetadata Eq where
  decodes metadata doc d hdoc hd := by
    obtain ⟨n, f, hf, hw, hn⟩ := fields_of_depth hdoc rfl hd
    simp only [List.map_cons, List.map_nil, List.forall_mem_cons] at hf hn
    have h1 := hw.field_eq codes_string (k := "protocol_id") (x := metadata.protocolId) rfl hn.1
    have h2 := hw.field_eq codes_string (k := "upstream_id") (x := metadata.upstreamId)
      rfl hn.2.1
    have h3 := hw.field_eq codes_string (k := "recorded_at") (x := metadata.recordedAt)
      rfl hn.2.2.1
    have h4 := hw.field_eq codes_nat64 (k := "relative_offset_ms")
      (x := metadata.relativeOffsetMs) rfl hn.2.2.2.1
    exact ⟨metadata, by simp [decodeMetadata, hf, h1, h2, h3, h4], rfl⟩
  bounded metadata doc d y hdoc hdec := by
    simp only [decodeMetadata, Option.bind_eq_bind, Option.bind_eq_some_iff] at hdec
    obtain ⟨f, hf, -⟩ := hdec
    obtain ⟨n, rfl, -⟩ := fields_of_decoded hdoc rfl hf
    simp [encodeMetadata, Json.depth_object_le, encodeNat64]

theorem codes_request : Codes encodeRequest decodeRequest RecordedRequest.Reread where
  decodes r doc d hdoc hd := by
    obtain ⟨n, f, hf, hw, hn⟩ := fields_of_depth hdoc rfl hd
    simp only [List.map_cons, List.map_nil, List.forall_mem_cons] at hf hn
    obtain ⟨hd1, hd2, hd3, hd4, hd5, hd6, hd7, hd8, -⟩ := hn
    have h1 := hw.field_eq codes_string (k := "method") (x := r.method) rfl hd1
    have h2 := hw.field_eq codes_string (k := "path") (x := r.path) rfl hd2
    have h3 := hw.field_eq codes_string (k := "query") (x := r.query) rfl hd3
    have h4 := hw.field_eq codes_headers (k := "headers") (x := r.headers) rfl hd4
    have h5 := hw.field_eq codes_bytes (k := "body") (x := r.body) rfl hd5
    obtain ⟨p, h6, hp⟩ := (hw.optField codes_value (k := "parsed_json") (x := r.parsedJson)
      rfl).1 hd6
    obtain ⟨c, h7, hc⟩ := (hw.optField codes_value (k := "canonical_request")
      (x := r.canonicalRequest) rfl).1 hd7
    have h8 := hw.optField_eq (codes_option codes_string (by simp)) (k := "stable_hash")
      (x := r.stableHash) rfl hd8
    exact ⟨{ r with parsedJson := p, canonicalRequest := c }, by
      simp [decodeRequest, hf, h1, h2, h3, h4, h5, h6, h7, h8], rfl, hp, hc⟩
  bounded r doc d y hdoc hdec := by
    simp only [decodeRequest, Option.bind_eq_bind, Option.bind_eq_some_iff] at hdec
    obtain ⟨f, hf, _, -, _, -, _, -, _, h4, _, h5, _, h6, _, h7, _, h8, -⟩ := hdec
    obtain ⟨n, rfl, hw⟩ := fields_of_decoded hdoc rfl hf
    have hd4 := (hw.field codes_headers (k := "headers") (x := r.headers) rfl).2 _ h4
    have hd5 := (hw.field codes_bytes (k := "body") (x := r.body) rfl).2 _ h5
    have hd6 := (hw.optField codes_value (k := "parsed_json") (x := r.parsedJson) rfl).2 _ h6
    have hd7 := (hw.optField codes_value (k := "canonical_request") (x := r.canonicalRequest)
      rfl).2 _ h7
    have hd8 := (hw.optField (codes_option codes_string (by simp)) (k := "stable_hash")
      (x := r.stableHash) rfl).2 _ h8
    simp [encodeRequest, Json.depth_object_le, hd4, hd5, hd6, hd7, hd8]

theorem codes_response : Codes encodeResponse decodeResponse RecordedResponse.Reread where
  decodes r doc d hdoc hd := by
    cases r with
    | nonStream status headers body parsed =>
      obtain ⟨content, htag, hcontent, hshallow⟩ := tagged_of_rereads hdoc hd
      obtain ⟨n, f, hf, hw, hn⟩ := fields_of_depth hcontent rfl hshallow
      simp only [List.map_cons, List.map_nil, List.forall_mem_cons] at hf hn
      obtain ⟨hd1, hd2, hd3, hd4, -⟩ := hn
      have h1 := hw.field_eq codes_nat16 (k := "status") (x := status) rfl hd1
      have h2 := hw.field_eq codes_headers (k := "headers") (x := headers) rfl hd2
      have h3 := hw.field_eq codes_bytes (k := "body") (x := body) rfl hd3
      obtain ⟨p, h4, hp⟩ := (hw.optField codes_value (k := "parsed_json") (x := parsed) rfl).1 hd4
      exact ⟨.nonStream status headers body p, by
        simp [decodeResponse, htag, decodeString, hf, h1, h2, h3, h4], .nonStream _ _ _ hp⟩
    | stream status headers events rawTranscript timing =>
      obtain ⟨content, htag, hcontent, hshallow⟩ := tagged_of_rereads hdoc hd
      obtain ⟨n, f, hf, hw, hn⟩ := fields_of_depth hcontent rfl hshallow
      simp only [List.map_cons, List.map_nil, List.forall_mem_cons] at hf hn
      obtain ⟨hd1, hd2, hd3, hd4, hd5, -⟩ := hn
      have h1 := hw.field_eq codes_nat16 (k := "status") (x := status) rfl hd1
      have h2 := hw.field_eq codes_headers (k := "headers") (x := headers) rfl hd2
      obtain ⟨es, h3, hes⟩ := (hw.field (codes_list codes_event) (k := "events") (x := events)
        rfl).1 hd3
      have h4 := hw.field_eq codes_bytes (k := "raw_transcript") (x := rawTranscript) rfl hd4
      have h5 := hw.optField_eq (codes_option codes_timing (by simp [encodeTiming]))
        (k := "timing") (x := timing) rfl hd5
      exact ⟨.stream status headers es rawTranscript timing, by
        simp [decodeResponse, htag, decodeString, hf, h1, h2, h3, h4, h5], .stream _ _ _ _ hes⟩
  bounded r doc d y hdoc hdec := by
    simp only [decodeResponse, Option.bind_eq_bind, Option.bind_eq_some_iff] at hdec
    obtain ⟨_, htag, -⟩ := hdec
    cases r <;> exact depth_of_tagged hdoc htag

theorem codes_interaction : Codes encodeInteraction decodeInteraction Interaction.Reread where
  decodes i doc d hdoc hd := by
    obtain ⟨n, f, hf, hw, hn⟩ := fields_of_depth hdoc rfl hd
    simp only [List.map_cons, List.map_nil, List.forall_mem_cons] at hf hn
    obtain ⟨r, h1, hr⟩ := (hw.field codes_request (k := "request") (x := i.request) rfl).1 hn.1
    obtain ⟨p, h2, hp⟩ := (hw.field codes_response (k := "response") (x := i.response)
      rfl).1 hn.2.1
    have h3 := hw.field_eq codes_metadata (k := "metadata") (x := i.metadata) rfl hn.2.2.1
    exact ⟨⟨r, p, i.metadata⟩, by simp [decodeInteraction, hf, h1, h2, h3], hr, hp, rfl⟩
  bounded i doc d y hdoc hdec := by
    simp only [decodeInteraction, Option.bind_eq_bind, Option.bind_eq_some_iff] at hdec
    obtain ⟨f, hf, _, h1, _, h2, _, h3, -⟩ := hdec
    obtain ⟨n, rfl, hw⟩ := fields_of_decoded hdoc rfl hf
    have hd1 := (hw.field codes_request (k := "request") (x := i.request) rfl).2 _ h1
    have hd2 := (hw.field codes_response (k := "response") (x := i.response) rfl).2 _ h2
    have hd3 := (hw.field codes_metadata (k := "metadata") (x := i.metadata) rfl).2 _ h3
    simp [encodeInteraction, Json.depth_object_le, hd1, hd2, hd3]

/-- A document that is read back is read as a cassette that differs from the written one in
floats and in `null` values only; one that is nested too deep is not read. -/
theorem codes_cassette : Codes encodeCassette decodeCassette Cassette.Reread where
  decodes c doc d hdoc hd := by
    obtain ⟨n, f, hf, hw, hn⟩ := fields_of_depth hdoc rfl hd
    simp only [List.map_cons, List.map_nil, List.forall_mem_cons] at hf hn
    have h1 := hw.field_eq codes_nat32 (k := "format_version") (x := c.formatVersion) rfl hn.1
    obtain ⟨is, h2, his⟩ := (hw.field (codes_list codes_interaction) (k := "interactions")
      (x := c.interactions) rfl).1 hn.2.1
    exact ⟨⟨c.formatVersion, is⟩, by simp [decodeCassette, hf, h1, h2], rfl, his⟩
  bounded c doc d y hdoc hdec := by
    simp only [decodeCassette, Option.bind_eq_bind, Option.bind_eq_some_iff] at hdec
    obtain ⟨f, hf, _, -, _, h2, -⟩ := hdec
    obtain ⟨n, rfl, hw⟩ := fields_of_decoded hdoc rfl hf
    have hd2 := (hw.field (codes_list codes_interaction) (k := "interactions")
      (x := c.interactions) rfl).2 _ h2
    simpa [encodeCassette, Json.depth_object_le, encodeNat64] using hd2

/-! Documents that no writer makes: fields in an array, a field twice, and an entry that is skipped
although it is nested too deep and has a number out of range -/

example : decodeCassette 2 (.array [.number (some (.posInt 1)), .array []]) = some .new := by decide

example : decodeCassette 2 (.object [(some "format_version", .number (some (.posInt 1))),
    (some "interactions", .array []), (some "interactions", .array [])]) = none := by decide

example : decodeCassette 2 (.object [(some "format_version", .number (some (.posInt 1))),
    (some "x", .array [.array [.number none]]), (some "interactions", .array [])]) =
      some .new := by decide

/-! ### Distinct keys -/

/-- An optional value has distinct keys. -/
def WfOption (o : Option Json) : Prop := ∀ v, o = some v → v.Wf

theorem wf_encodeOption {α : Type} {enc : α → Json} {o : Option α}
    (h : ∀ x, o = some x → (enc x).Wf) : (encodeOption enc o).Wf := by
  cases o with
  | none => trivial
  | some x => exact h x rfl

theorem wf_list {α : Type} {enc : α → Json} {xs : List α} (h : ∀ x ∈ xs, (enc x).Wf) :
    (Json.array (xs.map enc)).Wf := Json.wf_array.2 (List.forall_mem_map.2 h)

theorem wf_encodeBytes (bytes : Bytes) : (encodeBytes bytes).Wf := wf_list fun _ _ => trivial

theorem wf_encodeHeaders (headers : Headers) : (encodeHeaders headers).Wf :=
  wf_list fun _ _ => Json.wf_array.2 (by simp [Json.Wf])

end Codec

/-- The payloads of an event have distinct keys. -/
def StreamEvent.Wf : StreamEvent → Prop
  | .comment _ => True
  | .data _ parsedJson => Codec.WfOption parsedJson

def RecordedResponse.Wf : RecordedResponse → Prop
  | .nonStream _ _ _ parsedJson => Codec.WfOption parsedJson
  | .stream _ _ events _ _ => ∀ e ∈ events, e.Wf

/-- Every value of an interaction has distinct keys. -/
structure Interaction.Wf (i : Interaction) : Prop where
  parsedJson : Codec.WfOption i.request.parsedJson
  canonicalRequest : Codec.WfOption i.request.canonicalRequest
  response : i.response.Wf

namespace Codec

theorem wf_encodeEvent {e : StreamEvent} (h : e.Wf) : (encodeEvent e).Wf := by
  cases e with
  | comment text => exact Json.wf_object.2 ⟨by simp, by simp [Json.Wf]⟩
  | data raw p =>
    refine Json.wf_object.2 ⟨by simp, ?_⟩
    simp only [List.forall_mem_cons]
    exact ⟨trivial, trivial, wf_encodeOption h, by simp⟩

theorem wf_encodeTiming (t : StreamTiming) : (encodeTiming t).Wf := by
  refine Json.wf_object.2 ⟨by simp, ?_⟩
  simp only [List.forall_mem_cons]
  exact ⟨trivial, wf_list fun _ _ => trivial, by simp⟩

theorem wf_encodeResponse {r : RecordedResponse} (h : r.Wf) : (encodeResponse r).Wf := by
  cases r with
  | nonStream status headers body p =>
    refine Json.wf_object.2 ⟨by simp, ?_⟩
    simp only [List.forall_mem_cons]
    exact ⟨trivial, trivial, wf_encodeHeaders _, wf_encodeBytes _, wf_encodeOption h, by simp⟩
  | stream status headers events rawTranscript timing =>
    refine Json.wf_object.2 ⟨by simp, ?_⟩
    simp only [List.forall_mem_cons]
    exact ⟨trivial, trivial, wf_encodeHeaders _, wf_list fun e he => wf_encodeEvent (h e he),
      wf_encodeBytes _, wf_encodeOption fun t _ => wf_encodeTiming t, by simp⟩

theorem wf_encodeInteraction {i : Interaction} (h : i.Wf) : (encodeInteraction i).Wf := by
  have hrequest : (encodeRequest i.request).Wf := by
    refine Json.wf_object.2 ⟨by simp, ?_⟩
    simp only [List.forall_mem_cons]
    exact ⟨trivial, trivial, trivial, wf_encodeHeaders _, wf_encodeBytes _,
      wf_encodeOption h.parsedJson, wf_encodeOption h.canonicalRequest,
      wf_encodeOption fun _ _ => trivial, by simp⟩
  have hmetadata : (encodeMetadata i.metadata).Wf :=
    Json.wf_object.2 ⟨by simp, by simp [Json.Wf, encodeNat64]⟩
  refine Json.wf_object.2 ⟨by simp, ?_⟩
  simp only [List.forall_mem_cons]
  exact ⟨hrequest, wf_encodeResponse h.response, hmetadata, by simp⟩

/-- The document of a cassette has distinct keys. -/
theorem wf_encodeCassette {c : Cassette} (h : ∀ i ∈ c.interactions, i.Wf) :
    (encodeCassette c).Wf := by
  refine Json.wf_object.2 ⟨by simp, ?_⟩
  simp only [List.forall_mem_cons]
  exact ⟨trivial, wf_list fun i hi => wf_encodeInteraction (h i hi), by simp⟩

/-! ### Nesting -/

/-- An optional value is nested at most `n` deep. -/
def DepthLe (n : ℕ) (o : Option Json) : Prop := ∀ v, o = some v → v.depth ≤ n

theorem depth_encodeOption {o : Option Json} {n : ℕ} :
    (encodeOption id o).depth ≤ n ↔ DepthLe n o := by
  cases o <;> simp [encodeOption, DepthLe]

theorem depth_list {α : Type} {enc : α → Json} {xs : List α} {n : ℕ} :
    (Json.array (xs.map enc)).depth ≤ n + 1 ↔ ∀ x ∈ xs, (enc x).depth ≤ n := by
  rw [Json.depth_array_le, List.forall_mem_map]

theorem depth_encodeBytes (bytes : Bytes) (n : ℕ) : (encodeBytes bytes).depth ≤ n + 1 :=
  depth_list.2 fun _ _ => Nat.zero_le n

theorem depth_encodeHeaders (headers : Headers) (n : ℕ) :
    (encodeHeaders headers).depth ≤ n + 2 :=
  depth_list.2 fun _ _ => Json.depth_array_le.2 (by simp)

theorem depth_encodeTiming (t : StreamTiming) (n : ℕ) : (encodeTiming t).depth ≤ n + 2 := by
  have hoffsets : (Json.array (t.chunkOffsetsMs.map encodeNat64)).depth ≤ n + 1 :=
    depth_list.2 fun _ _ => Nat.zero_le n
  simp [encodeTiming, Json.depth_object_le, hoffsets, encodeNat64]

theorem depth_encodeMetadata (m : InteractionMetadata) (n : ℕ) :
    (encodeMetadata m).depth ≤ n + 1 := by
  simp [encodeMetadata, Json.depth_object_le, encodeNat64]

end Codec

/-- The payloads of an event are nested at most `n` deep. -/
def StreamEvent.DepthLe (n : ℕ) : StreamEvent → Prop
  | .comment _ => True
  | .data _ parsedJson => Codec.DepthLe n parsedJson

/-- The values of a response are nested at most `n + 2` deep, and its events two levels less. -/
def RecordedResponse.DepthLe (n : ℕ) : RecordedResponse → Prop
  | .nonStream _ _ _ parsedJson => Codec.DepthLe (n + 2) parsedJson
  | .stream _ _ events _ _ => ∀ e ∈ events, e.DepthLe n

/-- The values of an interaction are nested at most `n + 2` deep, and its events two levels
less. -/
structure Interaction.DepthLe (n : ℕ) (i : Interaction) : Prop where
  parsedJson : Codec.DepthLe (n + 2) i.request.parsedJson
  canonicalRequest : Codec.DepthLe (n + 2) i.request.canonicalRequest
  response : i.response.DepthLe n

namespace Codec

theorem depth_encodeEvent {e : StreamEvent} {n : ℕ} :
    (encodeEvent e).depth ≤ n + 1 ↔ e.DepthLe n := by
  cases e <;> simp [encodeEvent, Json.depth_object_le, StreamEvent.DepthLe, depth_encodeOption]

theorem depth_encodeRequest {r : RecordedRequest} {n : ℕ} :
    (encodeRequest r).depth ≤ n + 3 ↔
      DepthLe (n + 2) r.parsedJson ∧ DepthLe (n + 2) r.canonicalRequest := by
  have hhash : (encodeOption .string r.stableHash).depth ≤ n + 2 := by
    cases r.stableHash <;> simp [encodeOption]
  simp [encodeRequest, Json.depth_object_le, depth_encodeOption, hhash, depth_encodeHeaders,
    depth_encodeBytes]

theorem depth_encodeResponse {r : RecordedResponse} {n : ℕ} :
    (encodeResponse r).depth ≤ n + 3 ↔ r.DepthLe n := by
  cases r with
  | nonStream status headers body p =>
    simp [encodeResponse, Json.depth_object_le, RecordedResponse.DepthLe, depth_encodeOption,
      encodeNat64, depth_encodeHeaders, depth_encodeBytes]
  | stream status headers events rawTranscript timing =>
    have htiming : (encodeOption encodeTiming timing).depth ≤ n + 2 := by
      cases timing with
      | none => simp [encodeOption]
      | some t => exact depth_encodeTiming t n
    have hevents : (Json.array (events.map encodeEvent)).depth ≤ n + 2 ↔
        ∀ e ∈ events, e.DepthLe n := by
      rw [depth_list]; exact forall₂_congr fun e _ => depth_encodeEvent
    simp [encodeResponse, Json.depth_object_le, RecordedResponse.DepthLe, htiming, hevents,
      encodeNat64, depth_encodeHeaders, depth_encodeBytes]

theorem depth_encodeInteraction {i : Interaction} {n : ℕ} :
    (encodeInteraction i).depth ≤ n + 4 ↔ i.DepthLe n := by
  simp only [encodeInteraction, Json.depth_object_le, List.forall_mem_cons, depth_encodeRequest,
    depth_encodeResponse, depth_encodeMetadata _ (n + 2)]
  exact ⟨fun h => ⟨h.1.1, h.1.2, h.2.1⟩, fun h => ⟨⟨h.1, h.2⟩, h.3, by simp⟩⟩

/-- How deep a document is nested, value by value. -/
theorem depth_encodeCassette {c : Cassette} {n : ℕ} :
    (encodeCassette c).depth ≤ n + 6 ↔ ∀ i ∈ c.interactions, i.DepthLe n := by
  simp only [encodeCassette, Json.depth_object_le, List.forall_mem_cons, depth_list,
    depth_encodeInteraction]
  exact ⟨fun h => h.2.1, fun h => ⟨Nat.zero_le _, h, by simp⟩⟩

end Codec

/-! ### What a document may hold -/

namespace Codec

/-- A decoded value, if there is one, has distinct keys and is not nested too deep. -/
theorem within_optField {key : String} {f : Fields} {o : Option Json}
    (h : optField key decodeValue f = some o) : WfOption o ∧ DepthLe f.depth o := by
  have hmem : ∀ v, o = some v → v.Within f.depth := by
    rintro v rfl
    unfold optField at h
    cases hdoc : f.entries.lookup key with
    | none => simp [hdoc] at h
    | some doc =>
      rw [hdoc] at h
      by_cases hnull : doc = .null
      · simp [hnull, decodeOption] at h
      · simp only [decodeOption_of_ne hnull, Option.map_eq_some_iff, Option.some.injEq,
          exists_eq_right] at h
        exact Doc.within_of_value doc h
  exact ⟨fun v hv => (hmem v hv).1, fun v hv => (hmem v hv).2⟩

theorem within_decodeEvent {n : ℕ} {doc : Doc} {e : StreamEvent}
    (h : decodeEvent (n + 1) doc = some e) : e.Wf ∧ e.DepthLe n := by
  simp only [decodeEvent, Option.bind_eq_bind, Option.bind_eq_some_iff] at h
  obtain ⟨_, -, variant, -, h⟩ := h
  split at h
  · obtain ⟨f, -, h⟩ := Option.bind_eq_some_iff.1 h
    obtain ⟨text, -, h⟩ := Option.bind_eq_some_iff.1 h
    obtain rfl : .comment text = e := Option.some.inj h
    exact ⟨trivial, trivial⟩
  · obtain ⟨f, hf, h⟩ := Option.bind_eq_some_iff.1 h
    obtain ⟨raw, -, h⟩ := Option.bind_eq_some_iff.1 h
    obtain ⟨p, hp, h⟩ := Option.bind_eq_some_iff.1 h
    obtain rfl : .data raw p = e := Option.some.inj h
    obtain rfl := Nat.succ.inj (depth_of_fields hf)
    exact within_optField hp
  · cases h

theorem within_decodeRequest {n : ℕ} {doc : Doc} {r : RecordedRequest}
    (h : decodeRequest (n + 1) doc = some r) : (WfOption r.parsedJson ∧ DepthLe n r.parsedJson) ∧
      WfOption r.canonicalRequest ∧ DepthLe n r.canonicalRequest := by
  simp only [decodeRequest, Option.bind_eq_bind, Option.bind_eq_some_iff, Option.some.injEq] at h
  obtain ⟨f, hf, _, -, _, -, _, -, _, -, _, -, p, hp, q, hq, _, -, rfl⟩ := h
  obtain rfl := Nat.succ.inj (depth_of_fields hf)
  exact ⟨within_optField hp, within_optField hq⟩

theorem within_decodeResponse {n : ℕ} {doc : Doc} {r : RecordedResponse}
    (h : decodeResponse (n + 3) doc = some r) : r.Wf ∧ r.DepthLe n := by
  simp only [decodeResponse, Option.bind_eq_bind, Option.bind_eq_some_iff] at h
  obtain ⟨_, -, variant, -, h⟩ := h
  split at h
  · simp only [Option.bind_eq_some_iff, Option.some.injEq] at h
    obtain ⟨f, hf, _, -, _, -, _, -, p, hp, rfl⟩ := h
    have hdepth := Nat.succ.inj (depth_of_fields hf)
    have hwithin := within_optField hp
    rwa [← hdepth] at hwithin
  · simp only [Option.bind_eq_some_iff, Option.some.injEq] at h
    obtain ⟨f, hf, _, -, _, -, events, hevents, _, -, _, -, rfl⟩ := h
    obtain ⟨doc, -, hlist⟩ := Option.bind_eq_some_iff.1 hevents
    rw [← Nat.succ.inj (depth_of_fields hf)] at hlist
    obtain ⟨m, hm, hall⟩ := exists_of_decodeList hlist
    obtain rfl := Nat.succ.inj hm
    have hevent : ∀ e ∈ events, e.Wf ∧ e.DepthLe n := by
      intro e he
      obtain ⟨x, hx⟩ := hall e he
      exact within_decodeEvent hx
    exact ⟨fun e he => (hevent e he).1, fun e he => (hevent e he).2⟩
  · cases h

theorem within_decodeInteraction {n : ℕ} {doc : Doc} {i : Interaction}
    (h : decodeInteraction (n + 4) doc = some i) : i.Wf ∧ i.DepthLe n := by
  simp only [decodeInteraction, Option.bind_eq_bind, Option.bind_eq_some_iff,
    Option.some.injEq] at h
  obtain ⟨f, hf, request, hrequest, response, hresponse, _, -, rfl⟩ := h
  obtain ⟨_, -, hrequest⟩ := Option.bind_eq_some_iff.1 hrequest
  obtain ⟨_, -, hresponse⟩ := Option.bind_eq_some_iff.1 hresponse
  rw [← Nat.succ.inj (depth_of_fields hf)] at hrequest hresponse
  obtain ⟨hparsed, hcanonical⟩ := within_decodeRequest hrequest
  obtain ⟨hwf, hdepth⟩ := within_decodeResponse hresponse
  exact ⟨⟨hparsed.1, hcanonical.1, hwf⟩, ⟨hparsed.2, hcanonical.2, hdepth⟩⟩

theorem within_decodeCassette {n : ℕ} {doc : Doc} {c : Cassette}
    (h : decodeCassette (n + 6) doc = some c) : ∀ i ∈ c.interactions, i.Wf ∧ i.DepthLe n := by
  simp only [decodeCassette, Option.bind_eq_bind, Option.bind_eq_some_iff, Option.some.injEq] at h
  obtain ⟨f, hf, _, -, is, his, rfl⟩ := h
  obtain ⟨_, -, hlist⟩ := Option.bind_eq_some_iff.1 his
  rw [← Nat.succ.inj (depth_of_fields hf)] at hlist
  obtain ⟨m, hm, hall⟩ := exists_of_decodeList hlist
  obtain rfl := Nat.succ.inj hm
  intro i hi
  obtain ⟨x, hx⟩ := hall i hi
  exact within_decodeInteraction hx

end Codec

namespace Cassette

variable {S : SerdeJson}

/-- Values nested at most this deep survive in a stored event; those of a request or of an
ordinary response may be nested two levels deeper. -/
def eventDepth : ℕ := maxDepth - 6

theorem fromReader_eq_ok_iff {bytes : Bytes} {c : Cassette} : fromReader S bytes = .ok c ↔
    (S.read bytes).bind (Codec.decodeCassette maxDepth) = some c ∧
      c.formatVersion = supportedFormatVersion := by
  unfold fromReader
  cases (S.read bytes).bind (Codec.decodeCassette maxDepth) with
  | none => simp
  | some d =>
    by_cases hd : d.formatVersion = supportedFormatVersion
    · simp only [validate_eq_ok_iff.2 hd, bind, Except.bind, pure, Except.pure, Except.ok.injEq,
        Option.some.injEq]
      exact ⟨fun h => ⟨h, h ▸ hd⟩, fun h => h.1⟩
    · have hne : ¬ (d = c ∧ c.formatVersion = supportedFormatVersion) := by
        rintro ⟨rfl, h⟩; exact hd h
      simp [validate, hd, hne, bind, Except.bind]

/-- A cassette that can be stored: it has the supported version, and the values of its
interactions have distinct keys and are not nested too deep. -/
structure Storable (c : Cassette) : Prop where
  formatVersion : c.formatVersion = supportedFormatVersion
  interactions : ∀ i ∈ c.interactions, i.Wf ∧ i.DepthLe eventDepth

theorem storable_new : new.Storable := ⟨rfl, by simp⟩

theorem Storable.append {c : Cassette} (h : c.Storable) {i : Interaction}
    (hi : i.Wf ∧ i.DepthLe eventDepth) : (c.append i).Storable := by
  refine ⟨h.formatVersion, ?_⟩
  simp only [append_interactions, List.forall_mem_append, List.forall_mem_singleton]
  exact ⟨h.interactions, hi⟩

/-- A cassette that is read can be stored. -/
theorem storable_of_fromReader {bytes : Bytes} {c : Cassette}
    (h : fromReader S bytes = .ok c) : c.Storable := by
  obtain ⟨hdecode, hversion⟩ := fromReader_eq_ok_iff.1 h
  obtain ⟨doc, -, hc⟩ := Option.bind_eq_some_iff.1 hdecode
  exact ⟨hversion, Codec.within_decodeCassette (n := 121) hc⟩

/-- **What a written cassette is read back as.**  A cassette of the supported version is read back
exactly if none of its values is nested too deep, and then only floats and `null` values may have
changed. -/
theorem fromReader_writeTo (hS : S.Lawful) {c : Cassette}
    (hversion : c.formatVersion = supportedFormatVersion) (hwf : ∀ i ∈ c.interactions, i.Wf) :
    ((∀ i ∈ c.interactions, i.DepthLe eventDepth) →
      ∃ c', fromReader S (c.writeTo S) = .ok c' ∧ c.Reread c') ∧
    (¬ (∀ i ∈ c.interactions, i.DepthLe eventDepth) →
      fromReader S (c.writeTo S) = .error (.invalidCassette .malformed)) := by
  have hdepth : (Codec.encodeCassette c).depth ≤ maxDepth ↔
      ∀ i ∈ c.interactions, i.DepthLe eventDepth := Codec.depth_encodeCassette (n := 121)
  obtain ⟨w, hw, hread⟩ := hS.readBack _ (Codec.wf_encodeCassette hwf)
  have hrereads : Rereads (Codec.encodeCassette c) (.ofJson w) :=
    ⟨Codec.wf_encodeCassette hwf, w, rfl, hread⟩
  constructor
  · intro h
    obtain ⟨c', hc', hreread⟩ := Codec.codes_cassette.decodes c _ _ hrereads (hdepth.2 h)
    refine ⟨c', fromReader_eq_ok_iff.2 ⟨?_, hreread.formatVersion ▸ hversion⟩, hreread⟩
    rw [writeTo, hw]
    exact hc'
  · intro h
    rw [← hdepth] at h
    have hnone : Codec.decodeCassette maxDepth (.ofJson w) = none :=
      Option.eq_none_iff_forall_ne_some.2 fun c' hc' =>
        h (Codec.codes_cassette.bounded c _ _ c' hrereads hc')
    simp [fromReader, writeTo, hw, hnone]

theorem Storable.fromReader_writeTo (hS : S.Lawful) {c : Cassette} (h : c.Storable) :
    ∃ c', fromReader S (c.writeTo S) = .ok c' ∧ c.Reread c' :=
  (Cassette.fromReader_writeTo hS h.formatVersion fun i hi => (h.interactions i hi).1).1
    fun i hi => (h.interactions i hi).2

/-- The exact crate reads back what the decoder makes of the document. -/
theorem fromReader_exact_decoded {c c' : Cassette}
    (hdecode : Codec.decodeCassette maxDepth (.ofJson (Codec.encodeCassette c)) = some c')
    (hversion : c'.formatVersion = supportedFormatVersion) :
    fromReader .exact (c.writeTo .exact) = .ok c' := by
  refine fromReader_eq_ok_iff.2 ⟨?_, hversion⟩
  rw [writeTo, SerdeJson.exact_read_toWriterPretty]
  exact hdecode

theorem fromReader_exact {c : Cassette}
    (hdecode : Codec.decodeCassette maxDepth (.ofJson (Codec.encodeCassette c)) = some c)
    (hversion : c.formatVersion = supportedFormatVersion) :
    fromReader .exact (c.writeTo .exact) = .ok c :=
  fromReader_exact_decoded hdecode hversion

end Cassette

end SpycatcherHarness
