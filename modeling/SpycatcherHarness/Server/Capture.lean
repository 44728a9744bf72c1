import SpycatcherHarness.Server.Headers

/-!
# What is captured of headers

The HTTP adapter observes an inbound request and the upstream client observes a reply; what they
select of the header maps is redacted when the interaction is built.  `Exchange.Carries` says that
the observations of an exchange come from an inbound request and from the upstream's replies.

* `Exchange.Carries.headers_attempted` : the permitted headers, and no other, reach the store.
* `Exchange.Carries.exchange_congr` : requests that differ in the values of removed headers are
  recorded alike.
-/

namespace SpycatcherHarness

/-! ### Observing -/

/-- An inbound request as the HTTP adapter receives it. -/
structure InboundRequest where
  /-- The query of the request's URI. -/
  query : Option String
  headers : HeaderMap
  body : Bytes

/-- A reply of the upstream, with a buffered or a streamed body. -/
structure UpstreamReply (β : Type) where
  status : UInt16
  headers : HeaderMap
  body : β

/-- The request that `record_chat_completions_handler` hands to the service. -/
def RecordConfig.observeRequest (C : RecordConfig) (inbound : InboundRequest) :
    ObservedRequest where
  method := "POST"
  path := chatCompletionsPath
  query := inbound.query.getD ""
  headers := selectedRequestHeaders inbound.headers
  forwardHeaders := selectedForwardHeaders inbound.headers
  body := inbound.body
  parsedJson := C.parseJsonBytes inbound.body

/-- The response that `send_chat_completions` returns. -/
def RecordConfig.observeResponse (C : RecordConfig) (reply : UpstreamReply Bytes) :
    ObservedResponse where
  status := reply.status
  headers := selectedResponseHeaders reply.headers
  proxyHeaders := selectedResponseProxyHeaders reply.headers
  body := reply.body
  parsedJson := C.parseJsonBytes reply.body

/-- The response that `stream_chat_completions` returns. -/
def observeStream (reply : UpstreamReply (List (HarnessResult Bytes))) :
    StreamingObservedResponse where
  status := reply.status
  headers := selectedResponseHeaders reply.headers
  proxyHeaders := selectedResponseProxyHeaders reply.headers
  body := reply.body

/-! ### Recordings that differ in their request -/

namespace StreamRecordingState

variable {C : RecordConfig}

/-- The same state for another request. -/
def withRequest (request : ObservedRequest) (state : StreamRecordingState) :
    StreamRecordingState :=
  { state with request := state.request.map fun _ => request }

theorem observeChunk_withRequest (request : ObservedRequest) (state : StreamRecordingState)
    (now : ℕ) (chunk : Bytes) :
    (state.withRequest request).observeChunk C now chunk =
      ((state.observeChunk C now chunk).1.withRequest request,
        (state.observeChunk C now chunk).2) := by
  unfold observeChunk withRequest
  simp only
  split_ifs
  · rfl
  · cases hfeed : state.parser.feed C.json.fromStr chunk with
    | mk result parser => cases result <;> rfl

/-- At the end, only what is recorded of the request matters. -/
theorem finishRecording_withRequest {request : ObservedRequest} {state : StreamRecordingState}
    (h : ∀ other, state.request = some other → C.unhashed other = C.unhashed request)
    (metadata : HarnessResult InteractionMetadata) (now : ℕ) :
    (state.withRequest request).finishRecording C metadata now =
      state.finishRecording C metadata now := by
  unfold finishRecording withRequest
  simp only
  split_ifs
  · rfl
  cases hfinish : state.parser.finish C.json.fromStr with
  | mk result parser =>
    cases result with
    | error e => rfl
    | ok events =>
      simp only [appendCompletedRecording]
      cases hrequest : state.request with
      | none => rfl
      | some other =>
        have hrecorded : C.recordedRequest request = C.recordedRequest other := by
          rw [RecordConfig.recordedRequest, RecordConfig.recordedRequest, h other hrequest]
        simp only [Option.map_some, RecordConfig.buildStreamInteraction_eq, hrecorded]

end StreamRecordingState

namespace Recording

variable {C : RecordConfig} {metadata : HarnessResult InteractionMetadata}

/-- The same recording for another request. -/
def withRequest (request : ObservedRequest) (r : Recording) : Recording :=
  { r with stream := r.stream.map (·.withRequest request) }

variable (C) in
/-- What is recorded of a recording's request is what would be of the other one. -/
def SameUnhashed (request : ObservedRequest) (r : Recording) : Prop :=
  ∀ state, r.stream = some state → ∀ other, state.request = some other →
    C.unhashed other = C.unhashed request

/-- A step does not look at the request. -/
theorem step_withRequest {request : ObservedRequest} {r : Recording}
    (h : r.SameUnhashed C request) (now : ℕ) :
    (r.withRequest request).step C metadata now =
        (r.step C metadata now).withRequest request ∧
      (r.step C metadata now).SameUnhashed C request := by
  cases hstream : r.stream with
  | none =>
    rw [step_none hstream, step_none (by simp [withRequest, hstream])]
    exact ⟨rfl, fun state hstate => by simp [hstream] at hstate⟩
  | some state =>
    have hother : (r.withRequest request).stream = some (state.withRequest request) := by
      simp [withRequest, hstream]
    rcases hbody : state.upstreamBody with _ | ⟨e | chunk, rest⟩
    · rw [step_end hstream hbody, step_end hother hbody,
        StreamRecordingState.finishRecording_withRequest (h state hstream)]
      exact ⟨rfl, fun _ hstate => by cases hstate⟩
    · rw [step_error hstream hbody, step_error hother hbody]
      exact ⟨rfl, fun _ hstate => by cases hstate⟩
    · rw [step_chunk hstream hbody, step_chunk hother hbody]
      have hobserve := StreamRecordingState.observeChunk_withRequest (C := C) request
        { state with upstreamBody := rest } now chunk
      obtain ⟨hrequest, -⟩ := StreamRecordingState.observeChunk_frame (C := C) now
        { state with upstreamBody := rest } chunk
      refine ⟨?_, ?_⟩
      · simp only [StreamRecordingState.withRequest] at hobserve ⊢
        rw [hobserve]
        rfl
      · intro next hnext other hcarried
        obtain rfl := Option.some.inj hnext
        exact h state hstream other (hrequest.symm.trans hcarried)

/-- A recording hands over the same interactions for any request that is recorded alike. -/
theorem actions_run_withRequest {request : ObservedRequest} (times : List ℕ) :
    ∀ r : Recording, r.SameUnhashed C request →
      (Runs.run (step C metadata) (r.withRequest request) times).actions =
        (Runs.run (step C metadata) r times).actions := by
  induction times with
  | nil => exact fun _ _ => rfl
  | cons now times ih =>
    intro r h
    obtain ⟨hstep, hnext⟩ := @step_withRequest C metadata request r h now
    rw [Runs.run_cons, Runs.run_cons, hstep]
    exact ih _ hnext

end Recording

/-! ### What an exchange captures -/

/-- The headers of a recorded response. -/
def RecordedResponse.headers : RecordedResponse → Headers
  | .nonStream _ headers _ _ | .stream _ headers _ _ _ => headers

/-- The permitted headers of a header map have been selected, as texts for recording and as bytes
for passing on. -/
structure Selected (excluded : List String) (headers : HeaderMap) (texts : Headers)
    (raw : List (String × Bytes)) : Prop where
  texts_eq : texts = (headers.filter fun header => Permitted headers excluded header.1).map
    fun header => (header.1.asStr, headerValueString header.2)
  raw_eq : raw = (headers.filter fun header => Permitted headers excluded header.1).map
    fun header => (header.1.asStr, header.2)
  names : raw.map Prod.fst = texts.map Prod.fst

theorem selected_selectHeaders (headers : HeaderMap) {excluded : List String}
    (hlower : excluded.map toAsciiLowercase = excluded) :
    Selected excluded headers (selectedHeaders headers excluded)
      (selectedHeaderBytes headers excluded) := by
  refine ⟨selectHeadersUnified_eq headers hlower _, selectHeadersUnified_eq headers hlower _, ?_⟩
  simp only [selectedHeaders, selectedHeaderBytes, selectHeadersUnified, List.map_map,
    Function.comp_def]

/-- An interaction has the headers that are recorded of a request and of a reply. -/
structure Interaction.HeadersRecorded (redaction : RedactionConfig) (inbound upstream : HeaderMap)
    (i : Interaction) : Prop where
  request : i.request.headers = persistedHeaders redaction requestOnlyExcludedHeaders inbound
  response : i.response.headers = persistedHeaders redaction responseOnlyExcludedHeaders upstream

namespace Exchange

variable {C : RecordConfig} {x y : Exchange C} {inbound inbound' : InboundRequest}
  {send : HarnessResult (UpstreamReply Bytes)}
  {stream : HarnessResult (UpstreamReply (List (HarnessResult Bytes)))}

/-- An exchange is about an inbound request, and about what the upstream replies to it. -/
structure Carries (x : Exchange C) (inbound : InboundRequest)
    (send : HarnessResult (UpstreamReply Bytes))
    (stream : HarnessResult (UpstreamReply (List (HarnessResult Bytes)))) : Prop where
  request : x.request = C.observeRequest inbound
  send : x.send = send.map C.observeResponse
  stream : x.stream = stream.map observeStream

/-- The headers of the reply that answers an exchange. -/
def replyHeaders (x : Exchange C) (send : HarnessResult (UpstreamReply Bytes))
    (stream : HarnessResult (UpstreamReply (List (HarnessResult Bytes)))) : Option HeaderMap :=
  if isStreamingChatCompletionsRequest x.request.parsedJson then
    stream.toOption.map UpstreamReply.headers
  else send.toOption.map UpstreamReply.headers

theorem Carries.of_send (h : x.Carries inbound send stream) {response : ObservedResponse}
    (hsend : x.send = .ok response) :
    ∃ reply, send = .ok reply ∧ response = C.observeResponse reply := by
  rw [h.send] at hsend
  cases send with
  | error e => cases hsend
  | ok reply => exact ⟨reply, rfl, (Except.ok.inj hsend).symm⟩

theorem Carries.of_stream (h : x.Carries inbound send stream)
    {response : StreamingObservedResponse} (hstream : x.stream = .ok response) :
    ∃ reply, stream = .ok reply ∧ response = observeStream reply := by
  rw [h.stream] at hstream
  cases stream with
  | error e => cases hstream
  | ok reply => exact ⟨reply, rfl, (Except.ok.inj hstream).symm⟩

/-- What is recorded of the request's headers. -/
theorem Carries.headers_recordedRequest (h : x.Carries inbound send stream) :
    (C.recordedRequest x.request).headers =
      persistedHeaders C.redaction requestOnlyExcludedHeaders inbound.headers := by
  rw [h.request]
  exact redactHeaders_select C.redaction inbound.headers lower_requestOnly

/-- **The permitted headers, and no other, reach the store**, by either way of recording. -/
theorem Carries.headers_attempted (h : x.Carries inbound send stream) {i : Interaction}
    (hi : x.attempted = some i) :
    ∃ upstream, x.replyHeaders send stream = some upstream ∧
      i.HeadersRecorded C.redaction inbound.headers upstream := by
  cases attempted_cases x hi with
  | nonStream response metadata plain hsend =>
    obtain ⟨reply, rfl, rfl⟩ := h.of_send hsend
    refine ⟨reply.headers, by simp [replyHeaders, plain, Except.toOption],
      h.headers_recordedRequest, ?_⟩
    exact redactHeaders_select C.redaction reply.headers lower_responseOnly
  | stream response chunks completed metadata streaming hstream body parsed completes received =>
    obtain ⟨reply, rfl, rfl⟩ := h.of_stream hstream
    refine ⟨reply.headers, by simp [replyHeaders, streaming, Except.toOption],
      h.headers_recordedRequest, ?_⟩
    simp only [RecordConfig.recordedStream, RecordedResponse.headers, completes.headers]
    exact redactHeaders_select C.redaction reply.headers lower_responseOnly

/-- The headers that are passed on to the client are those of the reply that are permitted. -/
theorem Carries.headers_proxied (h : x.Carries inbound send stream) {r : Recorder}
    {proxied : ProxyResponse} (hproxied : (r.handleChatCompletions C x).1 = .ok proxied) :
    ∃ upstream, x.replyHeaders send stream = some upstream ∧
      proxied.headers = selectedResponseProxyHeaders upstream := by
  unfold Recorder.handleChatCompletions Recorder.handleStreamingChatCompletions at hproxied
  cases hkey : x.apiKey with
  | none => simp [hkey] at hproxied
  | some key =>
    simp only [hkey] at hproxied
    split_ifs at hproxied with hstreaming
    · cases hup : x.stream with
      | error e => simp [hup] at hproxied
      | ok response =>
        obtain ⟨reply, rfl, rfl⟩ := h.of_stream hup
        simp only [hup, Except.ok.injEq] at hproxied
        refine ⟨reply.headers, by simp [replyHeaders, hstreaming, Except.toOption], ?_⟩
        rw [← hproxied]
        rfl
    · cases hup : x.send with
      | error e => simp [hup] at hproxied
      | ok response =>
        obtain ⟨reply, rfl, rfl⟩ := h.of_send hup
        refine ⟨reply.headers, by simp [replyHeaders, hstreaming, Except.toOption], ?_⟩
        simp only [hup] at hproxied
        -- the reply is passed on whether or not it has been recorded
        cases hrecord : r.recordResponse C x (C.observeResponse reply) with
        | mk result r' =>
          rw [hrecord] at hproxied
          cases result <;>
          · obtain rfl := Except.ok.inj hproxied
            rfl

/-! ### Two exchanges -/

/-- Everything around the requests of two exchanges is the same. -/
structure SameAround (x y : Exchange C) : Prop where
  apiKey : y.apiKey = x.apiKey
  send : y.send = x.send
  stream : y.stream = x.stream
  metadata : y.metadata = x.metadata
  started : y.started = x.started
  times : y.times = x.times
  faults : y.faults = x.faults

/-- The recordings of two requests that are recorded alike do the same to the service. -/
theorem SameAround.actions_eq (h : SameAround x y)
    (hunhashed : C.unhashed x.request = C.unhashed y.request)
    (response : StreamingObservedResponse) :
    (y.recording response).actions = (x.recording response).actions := by
  unfold recording
  rw [h.metadata, h.started, h.times]
  refine Recording.actions_run_withRequest x.times (.start x.request response x.started) ?_
  intro state hstate other hother
  obtain rfl := Option.some.inj hstate
  obtain rfl := Option.some.inj hother
  exact hunhashed

theorem SameAround.attempted_eq (h : SameAround x y)
    (hunhashed : C.unhashed x.request = C.unhashed y.request) : y.attempted = x.attempted := by
  have hjson : y.request.parsedJson = x.request.parsedJson :=
    (congrArg RecordedRequest.parsedJson hunhashed).symm
  have hrecorded : C.recordedRequest y.request = C.recordedRequest x.request := by
    rw [RecordConfig.recordedRequest, RecordConfig.recordedRequest, hunhashed]
  simp only [attempted, h.apiKey, h.stream, h.send, h.metadata, hjson, hrecorded,
    h.actions_eq hunhashed, RecordConfig.buildInteraction_eq]

/-- **Requests that are recorded alike leave the service alike.** -/
theorem SameAround.exchange_eq (h : SameAround x y)
    (hunhashed : C.unhashed x.request = C.unhashed y.request) (r : Recorder) :
    r.exchange C y = r.exchange C x := by
  have hjson : y.request.parsedJson = x.request.parsedJson :=
    (congrArg RecordedRequest.parsedJson hunhashed).symm
  have hrecorded : C.recordedRequest y.request = C.recordedRequest x.request := by
    rw [RecordConfig.recordedRequest, RecordConfig.recordedRequest, hunhashed]
  have hactions := h.actions_eq hunhashed
  unfold recording at hactions
  unfold Recorder.exchange Recorder.handleChatCompletions
    Recorder.handleStreamingChatCompletions Recorder.recordResponse
  rw [h.apiKey, h.stream, h.send, hjson]
  cases x.apiKey with
  | none => split_ifs <;> rfl
  | some key =>
    simp only
    split_ifs
    -- the proxied streams differ in their requests, but not in what they do to the service
    · cases x.stream with
      | error e => rfl
      | ok response => simp only [hactions, h.faults]
    · cases x.send with
      | error e => rfl
      | ok response =>
        simp only [RecordConfig.buildInteraction_eq, hrecorded, h.metadata, h.faults, h.times]

/-- Requests that differ in the values of removed headers are recorded alike. -/
theorem unhashed_observeRequest (C : RecordConfig) (hquery : inbound'.query = inbound.query)
    (hbody : inbound'.body = inbound.body)
    (hheaders : AgreeOnPersisted C.redaction requestOnlyExcludedHeaders inbound.headers
      inbound'.headers) :
    C.unhashed (C.observeRequest inbound) = C.unhashed (C.observeRequest inbound') := by
  have hpersisted : redactHeaders (selectedRequestHeaders inbound.headers) C.redaction =
      redactHeaders (selectedRequestHeaders inbound'.headers) C.redaction := by
    rw [selectedRequestHeaders, selectedRequestHeaders,
      redactHeaders_select C.redaction _ lower_requestOnly,
      redactHeaders_select C.redaction _ lower_requestOnly, hheaders.persistedHeaders_eq]
  simp only [RecordConfig.unhashed, RecordConfig.observeRequest, hquery, hbody, hpersisted]

/-- **Exactly the permitted headers reach the cassette.**  Whatever the header maps and the
redaction, and whether the reply is buffered or streamed:

* what is handed to the store, and so what an exchange adds to the cassette, has the permitted
  headers of the request and of the reply that are not redacted, in order and with duplicates;
* what is forwarded and what is passed on has the names that were selected before redaction, in
  their order, with the bytes of the values;
* a request that differs in the values of removed headers only, other than `Connection`, is recorded
  as the same interaction when everything around it is the same. -/
theorem permitted_headers_recorded (C : RecordConfig) (x : Exchange C) (inbound : InboundRequest)
    (send : HarnessResult (UpstreamReply Bytes))
    (stream : HarnessResult (UpstreamReply (List (HarnessResult Bytes))))
    (h : x.Carries inbound send stream) :
    (∀ i, x.attempted = some i → ∃ upstream, x.replyHeaders send stream = some upstream ∧
      i.HeadersRecorded C.redaction inbound.headers upstream) ∧
    (∀ r : Recorder, r.poisoned = false → ∃ added : List Interaction,
      (r.exchange C x).store.cassette.interactions = r.store.cassette.interactions ++ added ∧
        ∀ i ∈ added, ∃ upstream, x.replyHeaders send stream = some upstream ∧
          i.HeadersRecorded C.redaction inbound.headers upstream) ∧
    Selected requestOnlyExcludedHeaders inbound.headers x.request.headers
      x.request.forwardHeaders ∧
    (∀ response, x.send = .ok response → ∃ reply, send = .ok reply ∧
      Selected responseOnlyExcludedHeaders reply.headers response.headers response.proxyHeaders) ∧
    (∀ response, x.stream = .ok response → ∃ reply, stream = .ok reply ∧
      Selected responseOnlyExcludedHeaders reply.headers response.headers response.proxyHeaders) ∧
    (∀ (r : Recorder) (proxied : ProxyResponse), (r.handleChatCompletions C x).1 = .ok proxied →
      ∃ upstream texts, x.replyHeaders send stream = some upstream ∧
        Selected responseOnlyExcludedHeaders upstream texts proxied.headers) ∧
    ∀ (y : Exchange C) (inbound' : InboundRequest), y.request = C.observeRequest inbound' →
      SameAround x y → inbound'.query = inbound.query → inbound'.body = inbound.body →
      AgreeOnPersisted C.redaction requestOnlyExcludedHeaders inbound.headers inbound'.headers →
      y.attempted = x.attempted ∧ ∀ r : Recorder, r.exchange C y = r.exchange C x := by
  have hresponse : ∀ headers, Selected responseOnlyExcludedHeaders headers
      (selectedResponseHeaders headers) (selectedResponseProxyHeaders headers) :=
    fun headers => selected_selectHeaders headers lower_responseOnly
  refine ⟨fun i hi => h.headers_attempted hi, fun r hlock => ?_, ?_, ?_, ?_, ?_, ?_⟩
  · obtain ⟨-, ⟨i, hpersists, hstore, -⟩ | ⟨-, hstore, -⟩⟩ := Recorder.exchange_cases hlock x
    · refine ⟨[i], by rw [hstore]; rfl, fun j hj => ?_⟩
      obtain rfl := List.mem_singleton.1 hj
      exact h.headers_attempted hpersists.1
    · exact ⟨[], by rw [hstore, List.append_nil], fun i hi => by cases hi⟩
  · rw [h.request]
    exact selected_selectHeaders inbound.headers lower_requestOnly
  · intro response hsend
    obtain ⟨reply, hreply, rfl⟩ := h.of_send hsend
    exact ⟨reply, hreply, hresponse reply.headers⟩
  · intro response hstream
    obtain ⟨reply, hreply, rfl⟩ := h.of_stream hstream
    exact ⟨reply, hreply, hresponse reply.headers⟩
  · intro r proxied hproxied
    obtain ⟨upstream, hupstream, hheaders⟩ := h.headers_proxied hproxied
    exact ⟨upstream, selectedResponseHeaders upstream, hupstream, hheaders ▸ hresponse upstream⟩
  · intro y inbound' hrequest haround hquery hbody hagree
    have hunhashed : C.unhashed x.request = C.unhashed y.request := by
      rw [h.request, hrequest]
      exact unhashed_observeRequest C hquery hbody hagree
    exact ⟨haround.attempted_eq hunhashed, haround.exchange_eq hunhashed⟩

/-- A header that is named by a `Connection` header next to a byte that is no text, one that is
configured to be dropped, and two of one name that are kept. -/
theorem permitted_headers_recorded_connection :
    let C : RecordConfig := ⟨.exact, Sha256.digest, .default⟩
    let inbound : InboundRequest :=
      { query := none
        headers := [(⟨"connection", by decide, by decide⟩, Str.asBytes " X-Hop\t,," ++ [0xFF]),
          (⟨"x-hop", by decide, by decide⟩, Str.asBytes "1"),
          (⟨"authorization", by decide, by decide⟩, Str.asBytes "secret"),
          (⟨"x-raw", by decide, by decide⟩, [0xFF]),
          (⟨"x-raw", by decide, by decide⟩, Str.asBytes "a")]
        body := [] }
    let reply : UpstreamReply Bytes :=
      ⟨200, [(⟨"content-length", by decide, by decide⟩, Str.asBytes "0"),
        (⟨"x-id", by decide, by decide⟩, Str.asBytes "7")], []⟩
    let x : Exchange C :=
      { request := C.observeRequest inbound
        apiKey := some "key"
        send := .ok (C.observeResponse reply)
        stream := .error (.io .other)
        metadata := .ok ⟨"chat", "up", "now", 0⟩
        started := 0
        times := []
        faults := .none
        observed := rfl
        observedResponse := by
          rintro _ ⟨⟩
          rfl
        clockRuns := by rintro _ ⟨⟩ }
    ∃ i, x.attempted = some i ∧ i.request.headers = [("x-raw", "%FF"), ("x-raw", "a")] ∧
      i.response.headers = [("x-id", "7")] := by
  intro C inbound reply x
  have hi := x.attempted_buffered rfl (by decide +kernel) rfl rfl
  obtain ⟨upstream, hupstream, hrequest, hresponse⟩ :=
    (permitted_headers_recorded C x inbound (.ok reply) (.error (.io .other)) ⟨rfl, rfl, rfl⟩).1
      _ hi
  refine ⟨_, hi, hrequest.trans (by decide +kernel), ?_⟩
  have hreply : upstream = reply.headers := by
    have hplain : isStreamingChatCompletionsRequest x.request.parsedJson = false := by
      decide +kernel
    rw [replyHeaders, hplain] at hupstream
    exact (Option.some.inj hupstream).symm
  rw [hresponse, hreply]
  decide +kernel

end Exchange

end SpycatcherHarness
