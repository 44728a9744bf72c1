import SpycatcherHarness.Cassette.Matching.Calls
import SpycatcherHarness.Replay
import SpycatcherHarness.Server.RecordHandler

/-!
# The replay-mode handler

The HTTP adapter of replay mode turns an outcome of the service into a response: a replayed
interaction with its headers and its body, or an error as a JSON document.

* `replay_response_exact` : the status, the values of every name, and the bytes that are sent.
* `error_response_read_back` : what went wrong can be read off an error's response.
-/

namespace SpycatcherHarness

/-! ### Responses -/

/-- `HeaderValue::from_static("text/event-stream")`. -/
def textEventStream : HeaderValue := ⟨Str.asBytes "text/event-stream", by decide⟩

/-- `add_replay_header`: the headers so far, and whether they have a content type. -/
def addReplayHeader (built : ResponseHeaders × Bool) (header : String × String) :
    ResponseHeaders × Bool :=
  match HeaderName.tryFrom header.1, HeaderValue.fromBytes (Str.asBytes header.2) with
  | some name, some value =>
    (appendHeader built.1 name value, built.2 || name.asStr == contentType.asStr)
  | _, _ => built

/-- The body is that of a stream. -/
def ReplayBody.isStream : ReplayBody → Bool
  | .oneShot _ => false
  | .events _ => true

/-- `build_replay_response`. -/
def buildReplayResponse (response : ReplayResponse) : Response Body :=
  let (headers, hasContentType) := response.headers.foldl addReplayHeader ([], false)
  ⟨replayStatusCode response.status,
    if response.body.isStream && !hasContentType then
      insertHeader headers contentType textEventStream
    else headers,
    response.body.render⟩

/-! ### Error responses -/

/-- The text of a JSON value, as its `Display` writes it. -/
def jsonText (v : Json) : String := String.ofList (Json.write Json.compact 0 v)

/-- `json_error_body`. -/
def jsonErrorBody (kind message : String) : String :=
  jsonText (.object [("error", .object [("kind", .string kind), ("message", .string message)])])

/-- A `usize` in a JSON document. -/
def usizeJson (n : ℕ) : Json := .number (.posInt (UInt64.ofNat n))

/-- `interaction_position_json`. -/
def interactionPositionJson : InteractionPosition → Json
  | .expected index => .object [("kind", .string "expected"), ("index", usizeJson index)]
  | .exhausted count => .object [("kind", .string "exhausted"), ("count", usizeJson count)]
  | .keyedMiss count => .object [("kind", .string "keyed_miss"), ("count", usizeJson count)]

/-- `mismatch_error_body`. -/
def mismatchErrorBody (diagnostic : MismatchDiagnostic) : String :=
  jsonText (.object [("error", .object
    [("kind", .string "request_mismatch"),
      ("message", .string "replay request did not match the cassette"),
      ("position", interactionPositionJson diagnostic.position),
      ("expected_hash", .string diagnostic.expectedHash),
      ("observed_hash", .string diagnostic.observedHash),
      ("diff_summary", .string diagnostic.diffSummary)])])

/-- `build_replay_error_response`. -/
def buildReplayErrorResponse (error : ReplayError) : Response Body :=
  let (status, body) : StatusCode × String :=
    match error with
    | .mismatch diagnostic => (.conflict, mismatchErrorBody diagnostic)
    | .unsupportedStream => (.notImplemented, jsonErrorBody "unsupported_stream"
        "streaming chat completions replay is not implemented yet")
    | .streamCassetteRequiredForStreamRequest =>
      (.notImplemented, jsonErrorBody "stream_cassette_required"
        "streaming chat completions replay requires a recorded stream response")
    | .malformedJson => (.badRequest, jsonErrorBody "malformed_json"
        "chat completions replay requires a valid JSON request body")
    | .internal => (.badGateway, jsonErrorBody "internal" "replay request failed")
  ⟨status, [(contentType, applicationJson)], .buffered (Str.asBytes body)⟩

/-! ### The handler -/

/-- The request that the handler hands to the service. -/
def observeReplayRequest (S : SerdeJson) (inbound : InboundRequest) : ObservedRequest where
  method := "POST"
  path := chatCompletionsPath
  query := inbound.query.getD ""
  headers := selectedRequestHeaders inbound.headers
  forwardHeaders := []
  body := inbound.body
  parsedJson := S.fromSlice inbound.body

/-- `replay_chat_completions_handler`. -/
def replayChatCompletionsHandler (S : SerdeJson) (sha256 : Bytes → Bytes) (service : ReplayService)
    (inbound : InboundRequest) : Response Body × ReplayService :=
  match service.handleChatCompletions sha256 (observeReplayRequest S inbound) with
  | (.ok replayed, service) => (buildReplayResponse replayed, service)
  | (.error error, service) => (buildReplayErrorResponse error, service)

/-- The service after a request. -/
def replayed (S : SerdeJson) (sha256 : Bytes → Bytes) (service : ReplayService)
    (inbound : InboundRequest) : ReplayService :=
  (replayChatCompletionsHandler S sha256 service inbound).2

theorem replayed_eq (S : SerdeJson) (sha256 : Bytes → Bytes) (service : ReplayService)
    (inbound : InboundRequest) :
    replayed S sha256 service inbound =
      (service.handleChatCompletions sha256 (observeReplayRequest S inbound)).2 := by
  unfold replayed replayChatCompletionsHandler
  split <;> rename_i h <;> rw [h]

/-! ### What a replayed response is -/

/-- The headers of a cassette, as names and bytes. -/
def headerBytes (headers : Headers) : List (String × Bytes) :=
  headers.map fun header => (header.1, Str.asBytes header.2)

/-- The loop collects the headers, and remembers whether one is the content type. -/
theorem foldl_addReplayHeader (headers : Headers) :
    headers.foldl addReplayHeader ([], false) =
      (collectHeaders (headerBytes headers),
        !(valuesOf ((headerBytes headers).filterMap validHeader) contentType).isEmpty) := by
  have hfold : ∀ (headers : Headers) (built : ResponseHeaders) (has : Bool),
      headers.foldl addReplayHeader (built, has) =
        ((headerBytes headers).foldl addValidHeader built,
        has || !(valuesOf ((headerBytes headers).filterMap validHeader) contentType).isEmpty) := by
    intro headers
    induction headers with
    | nil => intro built has; simp [headerBytes, valuesOf]
    | cons header headers ih =>
      intro built has
      have hbytes : headerBytes (header :: headers) =
          (header.1, Str.asBytes header.2) :: headerBytes headers := rfl
      rw [List.foldl_cons, hbytes, List.foldl_cons]
      cases hname : HeaderName.tryFrom header.1 with
      | none =>
        have hvalid : validHeader (header.1, Str.asBytes header.2) = none := by
          simp [validHeader, hname]
        rw [List.filterMap_cons_none hvalid, addValidHeader_none hvalid]
        simp only [addReplayHeader, hname]
        exact ih built has
      | some name =>
        cases hvalue : HeaderValue.fromBytes (Str.asBytes header.2) with
        | none =>
          have hvalid : validHeader (header.1, Str.asBytes header.2) = none := by
            simp [validHeader, hname, hvalue]
          rw [List.filterMap_cons_none hvalid, addValidHeader_none hvalid]
          simp only [addReplayHeader, hname, hvalue]
          exact ih built has
        | some value =>
          have hvalid : validHeader (header.1, Str.asBytes header.2) = some (name, value) := by
            simp [validHeader, hname, hvalue]
          rw [List.filterMap_cons_some hvalid, addValidHeader_some hvalid, valuesOf_cons]
          simp only [addReplayHeader, hname, hvalue]
          rw [ih, Bool.or_assoc]
          congr 2
          split_ifs with hcontent
          · simp [hcontent]
          · simp [hcontent]
  exact hfold headers [] false

/-- The bytes that are sent for a replayed body. -/
theorem ReplayBody.bytes_render (body : ReplayBody) :
    body.render.bytes =
      match body with
      | .oneShot bytes => bytes
      | .events es => serializeEvents es := by
  cases body with
  | oneShot bytes => rfl
  | events es => exact buildStreamBody_bytes es

/-- **What a replayed response is**, for any cassette, written by hand or not.  The status is the
recorded one, or 502 if that is none.  Every name has the recorded values that are header values,
in recorded order; entries that are no headers are dropped.  A stream without a content type gets
that of event streams, and no other content type is touched.  The bytes are those of the body, or
of the events. -/
theorem replay_response_exact (response : ReplayResponse) :
    (buildReplayResponse response).status.asU16 =
        (if 100 ≤ response.status ∧ response.status ≤ 599 then response.status else 502) ∧
      (∀ name : HeaderName,
        let recorded := valuesOf ((headerBytes response.headers).filterMap validHeader) name
        valuesOf (buildReplayResponse response).headers name =
          if name.asStr = "content-type" ∧ response.body.isStream ∧ recorded = [] then
            [textEventStream]
          else recorded) ∧
      (buildReplayResponse response).body.bytes =
        match response.body with
        | .oneShot bytes => bytes
        | .events es => serializeEvents es := by
  have hcontent : contentType.asStr = "content-type" := rfl
  unfold buildReplayResponse
  rw [foldl_addReplayHeader]
  refine ⟨asU16_boundedStatusCode _, fun name => ?_, response.body.bytes_render⟩
  intro recorded
  simp only [Bool.not_not, Bool.and_eq_true, List.isEmpty_iff]
  have hrecorded : valuesOf (collectHeaders (headerBytes response.headers)) name = recorded :=
    valuesOf_collectHeaders _ _
  by_cases hname : contentType.asStr = name.asStr
  · have hsame : valuesOf ((headerBytes response.headers).filterMap validHeader) contentType =
        recorded := by
      simp only [recorded, valuesOf, hname]
    rw [hsame, ← hname, hcontent]
    split_ifs with h h' h'
    · rw [valuesOf_insertHeader, if_pos hname]
    · exact absurd ⟨rfl, h⟩ h'
    · exact absurd h'.2 h
    · exact hrecorded
  · have hne : ¬ (name.asStr = "content-type" ∧ response.body.isStream = true ∧
        recorded = []) := fun h => hname (hcontent.trans h.1.symm)
    rw [if_neg hne]
    split_ifs with h
    · rw [valuesOf_insertHeader, if_neg hname, hrecorded]
    · exact hrecorded

/-! ### Reading an error's response -/

/-- A string in a JSON document. -/
def jsonString : Json → Option String
  | .string s => some s
  | _ => none

/-- A count in a JSON document. -/
def jsonCount : Json → Option ℕ
  | .number (.posInt n) => some n.toNat
  | _ => none

/-- The position that a document describes. -/
def readPosition (v : Json) : Option InteractionPosition := do
  let kind ← (v.get "kind").bind jsonString
  if kind = "expected" then return .expected (← (v.get "index").bind jsonCount)
  else if kind = "exhausted" then return .exhausted (← (v.get "count").bind jsonCount)
  else if kind = "keyed_miss" then return .keyedMiss (← (v.get "count").bind jsonCount)
  else none

/-- The diagnostic that an error document describes. -/
def readDiagnostic (v : Json) : Option MismatchDiagnostic := do
  let position ← (v.get "position").bind readPosition
  let expectedHash ← (v.get "expected_hash").bind jsonString
  let observedHash ← (v.get "observed_hash").bind jsonString
  let diffSummary ← (v.get "diff_summary").bind jsonString
  return ⟨position, expectedHash, observedHash, diffSummary⟩

/-- What a client makes of a document that reports an error. -/
def readError (bytes : Bytes) : Option ReplayError := do
  let v ← SerdeJson.exact.fromSlice bytes
  let error ← v.get "error"
  let kind ← (error.get "kind").bind jsonString
  if kind = "request_mismatch" then return .mismatch (← readDiagnostic error)
  else if kind = "unsupported_stream" then return .unsupportedStream
  else if kind = "stream_cassette_required" then return .streamCassetteRequiredForStreamRequest
  else if kind = "malformed_json" then return .malformedJson
  else if kind = "internal" then return .internal
  else none

/-- The index or the count of a position. -/
def InteractionPosition.count : InteractionPosition → ℕ
  | .expected index => index
  | .exhausted count => count
  | .keyedMiss count => count

/-- The position of a mismatch, if the error is one, fits a `usize`. -/
def ReplayError.Fits : ReplayError → Prop
  | .mismatch diagnostic => diagnostic.position.count < 2 ^ 64
  | _ => True

/-- A document is read back from its text. -/
theorem fromSlice_jsonText {v : Json} (hv : v.Wf) (hd : v.depth ≤ maxDepth) :
    SerdeJson.exact.fromSlice (Str.asBytes (jsonText v)) = some v := by
  have hparse : Json.parseDoc (Json.write Json.compact 0 v) = some (.ofJson v) :=
    Json.parseDoc_write Json.compact v 0
  have hvalue : Doc.value maxDepth (.ofJson v) = some v := (Doc.value_ofJson hv _).trans (if_pos hd)
  simp [SerdeJson.fromSlice, SerdeJson.exact, jsonText, hparse, hvalue]

theorem jsonCount_usizeJson {n : ℕ} (h : n < 2 ^ 64) : jsonCount (usizeJson n) = some n := by
  rw [usizeJson, jsonCount, UInt64.toNat_ofNat', Nat.mod_eq_of_lt h]

theorem readPosition_json {position : InteractionPosition} (h : position.count < 2 ^ 64) :
    readPosition (interactionPositionJson position) = some position := by
  have hcount := jsonCount_usizeJson h
  cases position <;>
  · simp only [InteractionPosition.count] at hcount
    simp [readPosition, interactionPositionJson, Json.get, Json.lookup, jsonString, hcount]

/-- The value inside an error document. -/
def errorJson : ReplayError → Json
  | .mismatch diagnostic => .object
    [("kind", .string "request_mismatch"),
      ("message", .string "replay request did not match the cassette"),
      ("position", interactionPositionJson diagnostic.position),
      ("expected_hash", .string diagnostic.expectedHash),
      ("observed_hash", .string diagnostic.observedHash),
      ("diff_summary", .string diagnostic.diffSummary)]
  | .unsupportedStream => .object
    [("kind", .string "unsupported_stream"),
      ("message", .string "streaming chat completions replay is not implemented yet")]
  | .streamCassetteRequiredForStreamRequest => .object
    [("kind", .string "stream_cassette_required"),
      ("message",
        .string "streaming chat completions replay requires a recorded stream response")]
  | .malformedJson => .object
    [("kind", .string "malformed_json"),
      ("message", .string "chat completions replay requires a valid JSON request body")]
  | .internal => .object
    [("kind", .string "internal"), ("message", .string "replay request failed")]

/-- The bytes of an error's response are a document with that value. -/
theorem bytes_buildReplayErrorResponse (error : ReplayError) :
    (buildReplayErrorResponse error).body.bytes =
      Str.asBytes (jsonText (.object [("error", errorJson error)])) := by
  cases error <;> rfl

/-- The document has distinct keys and little nesting. -/
theorem errorJson_within (error : ReplayError) :
    (errorJson error).Wf ∧ (errorJson error).depth ≤ 2 := by
  cases error with
  | mismatch diagnostic =>
    have hposition : (interactionPositionJson diagnostic.position).Wf ∧
        (interactionPositionJson diagnostic.position).depth ≤ 1 := by
      cases diagnostic.position <;>
        simp [interactionPositionJson, usizeJson, Json.Wf, Json.WfEntries, Json.depth,
          Json.depthEntries]
    rw [errorJson, Json.wf_object, Json.depth_object_le]
    simp [hposition.1, hposition.2, Json.Wf]
  | _ => decide

/-- **What went wrong can be read off the response.** -/
theorem readError_response {error : ReplayError} (h : error.Fits) :
    readError (buildReplayErrorResponse error).body.bytes = some error := by
  obtain ⟨hwf, hdepth⟩ := errorJson_within error
  have hread : SerdeJson.exact.fromSlice (buildReplayErrorResponse error).body.bytes =
      some (.object [("error", errorJson error)]) := by
    rw [bytes_buildReplayErrorResponse]
    refine fromSlice_jsonText (Json.wf_object.2 ⟨by simp, by simpa using hwf⟩) ?_
    have hle : (Json.object [("error", errorJson error)]).depth ≤ 2 + 1 :=
      Json.depth_object_le.2 (by simpa using hdepth)
    exact hle.trans (by decide)
  unfold readError
  rw [hread]
  cases error with
  | mismatch diagnostic =>
    have hposition := readPosition_json h
    simp [errorJson, Json.get, Json.lookup, jsonString, readDiagnostic, hposition]
  | _ => simp [errorJson, Json.get, Json.lookup, jsonString]

/-! ### Errors of the service -/

/-- The position of a mismatch is at most the number of interactions. -/
theorem count_of_peekMatch {engine : ReplayMatchEngine} {observedHash : String}
    {observedCanonical : Json} {diagnostic : MismatchDiagnostic}
    (hcursor : engine.sequentialCursor ≤ engine.cassette.interactions.length)
    (h : engine.peekMatch observedHash observedCanonical = .mismatch diagnostic) :
    diagnostic.position.count ≤ engine.cassette.interactions.length := by
  have hlength := List.Forall₂.length_eq engine.parallel
  unfold ReplayMatchEngine.peekMatch at h
  cases hcandidate : engine.candidate observedHash observedCanonical with
  | ok idx =>
    -- a candidate has an interaction
    obtain ⟨d, hd, -⟩ := ReplayMatchEngine.hash_of_candidate hcandidate
    obtain ⟨i, hi, -⟩ := ReplayMatchEngine.interaction_of_data hd
    simp [hcandidate, ReplayMatchEngine.matchedAt, hi] at h
  | error found =>
    obtain rfl : found = diagnostic := by simpa [hcandidate] using h
    unfold ReplayMatchEngine.candidate at hcandidate
    cases hmode : engine.mode with
    | sequentialStrict =>
      simp only [hmode, ReplayMatchEngine.sequentialCandidate] at hcandidate
      split at hcandidate
      · obtain rfl := Except.error.inj hcandidate
        exact hcursor
      · split_ifs at hcandidate
        obtain rfl := Except.error.inj hcandidate
        exact hcursor
    | keyed =>
      simp only [hmode, ReplayMatchEngine.keyedCandidate] at hcandidate
      split at hcandidate
      · obtain rfl := Except.error.inj hcandidate
        exact hlength.le
      · split at hcandidate
        · cases hcandidate
        · obtain rfl := Except.error.inj hcandidate
          exact hlength.le

/-- A response that cannot be built is no mismatch. -/
theorem responseFromRecorded_ne_mismatch (response : RecordedResponse) (isStreamRequest : Bool)
    (diagnostic : MismatchDiagnostic) :
    responseFromRecorded response isStreamRequest ≠ .error (.mismatch diagnostic) := by
  cases response <;> cases isStreamRequest <;>
    simp [responseFromRecorded, responseFromNonStream]

/-- A commit leaves the cursor within the cassette. -/
theorem cursor_commitMatch {engine : ReplayMatchEngine} {idx : ℕ}
    (hcursor : engine.sequentialCursor ≤ engine.cassette.interactions.length) :
    (engine.commitMatch idx).2.sequentialCursor ≤ engine.cassette.interactions.length := by
  have hlength := List.Forall₂.length_eq engine.parallel
  unfold ReplayMatchEngine.commitMatch
  split
  · split_ifs with h
    · -- there is an interaction at the cursor
      obtain ⟨d, hd⟩ := Option.isSome_iff_exists.1 h.2
      have hlt := (List.getElem?_eq_some_iff.1 hd).1
      have heq := h.1
      simp only
      omega
    · exact hcursor
  · split <;> exact hcursor

/-- The engine's cursor stands within its cassette. -/
def ReplayService.CursorWithin (service : ReplayService) : Prop :=
  service.engine.sequentialCursor ≤ service.engine.cassette.interactions.length

/-- A request leaves the cursor within the cassette. -/
theorem ReplayService.CursorWithin.handle {service : ReplayService} (h : service.CursorWithin)
    (sha256 : Bytes → Bytes) (request : ObservedRequest) :
    (service.handleChatCompletions sha256 request).2.CursorWithin := by
  rw [handleChatCompletions_eq]
  split_ifs
  · exact h
  unfold matchRecordedResponse
  split_ifs
  · exact h
  cases service.engine.peekMatch (hashOf sha256 request)
      (canonicalRequestValue (canonicalOf request)) with
  | mismatch diagnostic => exact h
  | matched idx i =>
    simp only
    cases responseFromRecorded i.response
        (isStreamingChatCompletionsRequest request.parsedJson) with
    | error e => exact h
    | ok built =>
      have hcursor := @cursor_commitMatch service.engine idx h
      have hframe := service.engine.commitMatch_frame idx
      simp only
      cases hcommit : service.engine.commitMatch idx with
      | mk done engine =>
        rw [hcommit] at hcursor hframe
        have hengine : engine.sequentialCursor ≤ engine.cassette.interactions.length := by
          rw [hframe.1]
          exact hcursor
        cases done <;> exact hengine

/-- The errors of a service report positions within its cassette. -/
theorem ReplayService.CursorWithin.fits {service : ReplayService} (h : service.CursorWithin)
    (hlength : service.engine.cassette.interactions.length < 2 ^ 64) {sha256 : Bytes → Bytes}
    {request : ObservedRequest} {error : ReplayError}
    (he : (service.handleChatCompletions sha256 request).1 = .error error) : error.Fits := by
  cases error with
  | mismatch diagnostic =>
    rw [handleChatCompletions_eq] at he
    split_ifs at he
    · cases he
    unfold matchRecordedResponse at he
    split_ifs at he
    · cases he
    cases hpeek : service.engine.peekMatch (hashOf sha256 request)
        (canonicalRequestValue (canonicalOf request)) with
    | mismatch found =>
      obtain rfl : found = diagnostic := by simpa [hpeek] using he
      exact (count_of_peekMatch h hpeek).trans_lt hlength
    | matched idx i =>
      simp only [hpeek] at he
      cases hresponse : responseFromRecorded i.response
          (isStreamingChatCompletionsRequest request.parsedJson) with
      | error e =>
        -- a response that cannot be built is no mismatch
        obtain rfl : e = .mismatch diagnostic := by simpa [hresponse] using he
        exact absurd hresponse (responseFromRecorded_ne_mismatch _ _ _)
      | ok built =>
        simp only [hresponse] at he
        split at he <;> cases he
  | _ => trivial

/-- The status of an error. -/
def ReplayError.statusCode : ReplayError → StatusCode
  | .mismatch _ => .conflict
  | .unsupportedStream | .streamCassetteRequiredForStreamRequest => .notImplemented
  | .malformedJson => .badRequest
  | .internal => .badGateway

/-- **Errors are read back.**  At any point of a run of the handler, an error of the service is
answered with its status and a JSON document from which a client recovers the error as a whole:
what was expected and what was observed, where, and how they differ. -/
theorem error_response_read_back {S : SerdeJson} {sha256 : Bytes → Bytes} {cassette : Cassette}
    {mode : MatchMode} {engine : ReplayMatchEngine}
    (hnew : ReplayMatchEngine.new cassette mode = .ok engine)
    (hlength : cassette.interactions.length < 2 ^ 64) (inbounds : List InboundRequest)
    (inbound : InboundRequest) {error : ReplayError}
    (herror : ((Runs.run (replayed S sha256) (.new engine) inbounds).handleChatCompletions sha256
      (observeReplayRequest S inbound)).1 = .error error) :
    let response := (replayChatCompletionsHandler S sha256
      (Runs.run (replayed S sha256) (.new engine) inbounds) inbound).1
    readError response.body.bytes = some error ∧ response.status = error.statusCode ∧
      valuesOf response.headers contentType = [applicationJson] := by
  have hwithin : (Runs.run (replayed S sha256) (.new engine) inbounds).CursorWithin ∧
      (Runs.run (replayed S sha256) (.new engine) inbounds).engine.cassette = cassette := by
    obtain ⟨hcassette, -, hcursor⟩ := ReplayMatchEngine.new_frame hnew
    refine @Runs.run_invariant _ _ (replayed S sha256) (fun _ _ => True)
      (fun service => service.CursorWithin ∧ service.engine.cassette = cassette) ?_ _ ?_ _
      (Runs.along_of_forall (fun _ _ => trivial) _)
    · rintro service inbound ⟨hwithin, hservice⟩ -
      rw [replayed_eq]
      exact ⟨hwithin.handle sha256 _,
        (ReplayService.handle_frame sha256 _ _).1.trans hservice⟩
    · exact ⟨by simp [ReplayService.CursorWithin, ReplayService.new, hcursor], hcassette⟩
  obtain ⟨hwithin, hcassette⟩ := hwithin
  have hfits := hwithin.fits (hcassette.symm ▸ hlength) herror
  have hresponse : (replayChatCompletionsHandler S sha256
      (Runs.run (replayed S sha256) (.new engine) inbounds) inbound).1 =
        buildReplayErrorResponse error := by
    unfold replayChatCompletionsHandler
    split
    · rename_i hok
      rw [hok] at herror
      cases herror
    · rename_i hfound
      rw [hfound] at herror
      rw [Except.error.inj herror]
  intro response
  rw [show response = buildReplayErrorResponse error from hresponse]
  refine ⟨readError_response hfits, ?_, ?_⟩ <;> cases error <;> rfl

/-- The second of two requests finds the cassette exhausted, and its client can tell. -/
theorem error_response_read_back_exhausted :
    let engine : ReplayMatchEngine :=
      { cassette := .ofHashes [""], interactions := [⟨"", none⟩], mode := .sequentialStrict
        sequentialCursor := 0, hashToIndices := fun _ => none, consumed := [false]
        parallel := .cons ⟨rfl, rfl⟩ .nil, indexed := rfl }
    let inbound : InboundRequest := ⟨none, [], Str.asBytes "\x7b\x7d"⟩
    let response := (replayChatCompletionsHandler .exact (fun _ => [])
      (replayed .exact (fun _ => []) (.new engine) inbound) inbound).1
    response.status = .conflict ∧ readError response.body.bytes = some (.mismatch
      ⟨.exhausted 1, "", "", "cassette-exhausted: no more interactions available"⟩) := by
  intro engine inbound response
  have hnew : ReplayMatchEngine.new (.ofHashes [""]) .sequentialStrict = .ok engine := rfl
  have hread := @error_response_read_back .exact (fun _ => []) _ _ _ hnew (by decide) [inbound]
    inbound (.mismatch ⟨.exhausted 1, "", "",
      "cassette-exhausted: no more interactions available"⟩) (by decide +kernel)
  exact ⟨hread.2.1, hread.1⟩

end SpycatcherHarness
