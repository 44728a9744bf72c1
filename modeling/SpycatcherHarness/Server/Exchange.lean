import SpycatcherHarness.Cassette.Canonical.Request
import SpycatcherHarness.Json.Crate

/-!
# Requests, responses and what is recorded of them

The exchange types between the HTTP adapter, the record service and the upstream client, the
redaction of headers, and the two builders of interactions.  `RecordConfig` holds what the service
is configured with, together with the JSON crate and the hash function as parameters.

* `RecordConfig.buildInteraction_eq`, `RecordConfig.buildStreamInteraction_eq` : a builder fails
  exactly if the metadata cannot be created.
-/

namespace SpycatcherHarness

/-- `CHAT_COMPLETIONS_PATH`. -/
def chatCompletionsPath : String := "/v1/chat/completions"

/-! ### Redaction -/

/-- `RedactionConfig`. -/
structure RedactionConfig where
  /-- Header names to remove from recorded interactions. -/
  dropHeaders : List String

/-- `RedactionConfig::default`. -/
def RedactionConfig.default : RedactionConfig := ⟨["authorization"]⟩

/-- `str::eq_ignore_ascii_case`. -/
def eqIgnoreAsciiCase (s t : String) : Bool :=
  s.toList.map Char.toLower == t.toList.map Char.toLower

/-- `should_persist_header`. -/
def shouldPersistHeader (name : String) (redaction : RedactionConfig) : Bool :=
  !redaction.dropHeaders.any fun candidate => eqIgnoreAsciiCase candidate name

/-- `redact_headers`. -/
def redactHeaders (headers : Headers) (redaction : RedactionConfig) : Headers :=
  headers.filter fun header => shouldPersistHeader header.1 redaction

/-! ### Exchange types -/

/-- Captured inbound request data. -/
structure ObservedRequest where
  method : String
  path : String
  query : String
  /-- Selected headers in observed order. -/
  headers : Headers
  /-- Selected inbound headers as raw bytes for upstream forwarding. -/
  forwardHeaders : List (String × Bytes)
  body : Bytes
  parsedJson : Option Json
  deriving DecidableEq

/-- Captured upstream response data. -/
structure ObservedResponse where
  status : UInt16
  /-- Selected headers in observed order for cassette persistence. -/
  headers : Headers
  /-- Selected headers as raw bytes for downstream proxying. -/
  proxyHeaders : List (String × Bytes)
  body : Bytes
  parsedJson : Option Json
  deriving DecidableEq

/-- The metadata and the byte stream of a streaming upstream response. -/
structure StreamingObservedResponse where
  status : UInt16
  headers : Headers
  proxyHeaders : List (String × Bytes)
  /-- The chunks as they arrive, or errors in their place. -/
  body : List (HarnessResult Bytes)

/-- `is_streaming_chat_completions_request`. -/
def isStreamingChatCompletionsRequest (parsedJson : Option Json) : Bool :=
  ((parsedJson.bind (Json.get "stream")).bind Json.asBool).getD false

/-- Request-level record-mode failures. -/
inductive RecordError where
  | missingApiKeyNotConfigured
  | internal
  deriving DecidableEq

/-! ### Interactions -/

/-- What a record service is configured with, and what it uses from outside. -/
structure RecordConfig where
  json : SerdeJson
  sha256 : Bytes → Bytes
  redaction : RedactionConfig

/-- A stream that has been recorded to its end. -/
structure CompletedStream where
  status : UInt16
  headers : Headers
  rawTranscript : Bytes
  events : List StreamEvent
  ttftMs : UInt64
  chunkOffsetsMs : List UInt64

namespace RecordConfig

variable (C : RecordConfig)

/-- `parse_json_bytes`. -/
def parseJsonBytes (bytes : Bytes) : Option Json := C.json.fromSlice bytes

/-- A request as the HTTP adapter observes it: its JSON is what its body parses to. -/
def Observes (request : ObservedRequest) : Prop :=
  request.parsedJson = C.parseJsonBytes request.body

/-- A buffered response as the upstream client observes it. -/
def ObservesResponse (response : ObservedResponse) : Prop :=
  response.parsedJson = C.parseJsonBytes response.body

instance (request : ObservedRequest) : Decidable (C.Observes request) :=
  inferInstanceAs (Decidable (_ = _))

instance (response : ObservedResponse) : Decidable (C.ObservesResponse response) :=
  inferInstanceAs (Decidable (_ = _))

/-- The exact crate parses a body that it has written to the value. -/
theorem observes_exact {sha256 : Bytes → Bytes} {redaction : RedactionConfig}
    {request : ObservedRequest} {v : Json} (hbody : request.body = SerdeJson.exact.toWriterPretty v)
    (hjson : request.parsedJson = some v) (hv : v.Wf) (hd : v.depth ≤ maxDepth) :
    Observes ⟨.exact, sha256, redaction⟩ request := by
  rw [Observes, hjson, hbody, parseJsonBytes, SerdeJson.exact_reads hv hd]

theorem observesResponse_exact {sha256 : Bytes → Bytes} {redaction : RedactionConfig}
    {response : ObservedResponse} {v : Json}
    (hbody : response.body = SerdeJson.exact.toWriterPretty v)
    (hjson : response.parsedJson = some v) (hv : v.Wf) (hd : v.depth ≤ maxDepth) :
    ObservesResponse ⟨.exact, sha256, redaction⟩ response := by
  rw [ObservesResponse, hjson, hbody, parseJsonBytes, SerdeJson.exact_reads hv hd]

/-- The request as it is recorded, before its canonical fields are filled in. -/
def unhashed (request : ObservedRequest) : RecordedRequest where
  method := request.method
  path := request.path
  query := request.query
  headers := redactHeaders request.headers C.redaction
  body := request.body
  parsedJson := request.parsedJson
  canonicalRequest := none
  stableHash := none

/-- The part that both builders begin with. -/
def recordRequest (request : ObservedRequest) (metadata : HarnessResult InteractionMetadata) :
    Except RecordError (RecordedRequest × InteractionMetadata) :=
  -- recording ignores no path, whatever replay is configured with
  match populateCanonicalFields C.sha256 (C.unhashed request) .default with
  | .error _ => .error .internal
  | .ok recordedRequest =>
    match metadata with
    | .error _ => .error .internal
    | .ok metadata => .ok (recordedRequest, metadata)

/-- `build_interaction`. -/
def buildInteraction (request : ObservedRequest) (response : ObservedResponse)
    (metadata : HarnessResult InteractionMetadata) : Except RecordError Interaction :=
  (C.recordRequest request metadata).map fun (request, metadata) =>
    { request
      response := .nonStream response.status (redactHeaders response.headers C.redaction)
        response.body response.parsedJson
      metadata }

/-- `build_stream_interaction`. -/
def buildStreamInteraction (request : ObservedRequest) (stream : CompletedStream)
    (metadata : HarnessResult InteractionMetadata) : Except RecordError Interaction :=
  (C.recordRequest request metadata).map fun (request, metadata) =>
    { request
      response := .stream stream.status (redactHeaders stream.headers C.redaction) stream.events
        stream.rawTranscript (some ⟨stream.ttftMs, stream.chunkOffsetsMs⟩)
      metadata }

/-- The request as it is recorded. -/
def recordedRequest (request : ObservedRequest) : RecordedRequest :=
  let canonical := canonicalForm (C.unhashed request)
  { C.unhashed request with
    canonicalRequest := some (canonicalRequestValue canonical)
    stableHash := some (stableHash C.sha256 canonical) }

/-- The stored form of a buffered response. -/
def recordedResponse (response : ObservedResponse) : RecordedResponse :=
  .nonStream response.status (redactHeaders response.headers C.redaction) response.body
    response.parsedJson

/-- The stored form of a completed stream. -/
def recordedStream (stream : CompletedStream) : RecordedResponse :=
  .stream stream.status (redactHeaders stream.headers C.redaction) stream.events
    stream.rawTranscript (some ⟨stream.ttftMs, stream.chunkOffsetsMs⟩)

theorem recordRequest_eq (request : ObservedRequest)
    (metadata : HarnessResult InteractionMetadata) :
    C.recordRequest request metadata =
      match metadata with
      | .error _ => .error .internal
      | .ok metadata => .ok (C.recordedRequest request, metadata) := by
  rw [recordRequest, populateCanonicalFields_default]
  rfl

/-- A buffered exchange is built exactly if its metadata is. -/
theorem buildInteraction_eq (request : ObservedRequest) (response : ObservedResponse)
    (metadata : HarnessResult InteractionMetadata) :
    C.buildInteraction request response metadata =
      match metadata with
      | .error _ => .error .internal
      | .ok metadata =>
        .ok ⟨C.recordedRequest request, C.recordedResponse response, metadata⟩ := by
  rw [buildInteraction, recordRequest_eq]
  cases metadata <;> rfl

/-- A recorded stream is built exactly if its metadata is. -/
theorem buildStreamInteraction_eq (request : ObservedRequest) (stream : CompletedStream)
    (metadata : HarnessResult InteractionMetadata) :
    C.buildStreamInteraction request stream metadata =
      match metadata with
      | .error _ => .error .internal
      | .ok metadata => .ok ⟨C.recordedRequest request, C.recordedStream stream, metadata⟩ := by
  rw [buildStreamInteraction, recordRequest_eq]
  cases metadata <;> rfl

end RecordConfig

end SpycatcherHarness
