import SpycatcherHarness.Server.Responses

/-!
# The record-mode handler

The HTTP adapter of record mode turns what the service returns into a response.  `Recorder.answer`
is what arrives at the client: a buffered body at once, a proxied stream item by item, as long as
the client asks.

* `Recorder.answer_eq` : the client is answered as by a proxy that records nothing.
* `recording_is_transparent` : the same along a run, with the headers that arrive.
-/

namespace SpycatcherHarness

open Files Store

/-! ### Error responses -/

/-- `axum::http::header::CONTENT_TYPE`. -/
def contentType : HeaderName := ⟨"content-type", by decide, by decide⟩

/-- `HeaderValue::from_static("application/json")`. -/
def applicationJson : HeaderValue := ⟨Str.asBytes "application/json", by decide⟩

/-- `record_error_http_mapping`. -/
def recordErrorHttpMapping : RecordError → StatusCode × String
  | .missingApiKeyNotConfigured => (.badGateway, "upstream credentials are not configured")
  | .internal => (.badGateway, "upstream request failed")

/-- `build_error_response`. -/
def buildErrorResponse (error : RecordError) : Response ProxyBody :=
  let (status, message) := recordErrorHttpMapping error
  let body := "\x7b\"error\":\x7b\"message\":" ++ String.ofList (Json.quote message) ++ "\x7d\x7d"
  ⟨status, [(contentType, applicationJson)], .buffered (Str.asBytes body)⟩

/-! ### Responses -/

/-- `build_proxy_response`. -/
def buildProxyResponse (response : ProxyResponse) : Response ProxyBody :=
  ⟨proxyStatusCode response.status, collectHeaders response.headers, response.body⟩

section
variable {C : RecordConfig}

/-- `record_chat_completions_handler`, once the request has been observed. -/
def recordChatCompletionsHandler (r : Recorder) (x : Exchange C) : Response ProxyBody × Recorder :=
  match r.handleChatCompletions C x with
  | (.ok proxied, r) => (buildProxyResponse proxied, r)
  | (.error error, r) => (buildErrorResponse error, r)

/-- What arrives of a body while the client of the exchange asks for items. -/
def Exchange.arrives (x : Exchange C) : ProxyBody → List (HarnessResult Bytes)
  | .buffered bytes => [.ok bytes]
  | .stream recording => (Runs.run (Recording.step C x.metadata) recording x.times).received

/-- What arrives at the client of an exchange. -/
def Recorder.answer (r : Recorder) (x : Exchange C) : Response (List (HarnessResult Bytes)) :=
  let response := (recordChatCompletionsHandler r x).1
  ⟨response.status, response.headers, x.arrives response.body⟩

end

/-! ### A proxy that records nothing -/

namespace PlainProxy

/-- A reply of the upstream, passed on. -/
def passOn {β : Type} (reply : UpstreamReply β) (items : List (HarnessResult Bytes)) :
    Response (List (HarnessResult Bytes)) :=
  ⟨proxyStatusCode reply.status, collectHeaders (selectedResponseProxyHeaders reply.headers), items⟩

/-- The response to a request that gets no reply. -/
def refuse (error : RecordError) : Response (List (HarnessResult Bytes)) :=
  let response := buildErrorResponse error
  ⟨response.status, response.headers,
    match response.body with
    | .buffered bytes => [.ok bytes]
    | .stream _ => []⟩

/-- The answer to a request, for a client that asks for some items of a stream. -/
def answer (hasKey streaming : Bool) (send : HarnessResult (UpstreamReply Bytes))
    (stream : HarnessResult (UpstreamReply (List (HarnessResult Bytes)))) (asked : ℕ) :
    Response (List (HarnessResult Bytes)) :=
  if hasKey = false then refuse .missingApiKeyNotConfigured
  else if streaming then
    match stream with
    | .error _ => refuse .internal
    | .ok reply => passOn reply ((delivered reply.body).take asked)
  else
    match send with
    | .error _ => refuse .internal
    | .ok reply => passOn reply [.ok reply.body]

end PlainProxy

/-! ### Recording is transparent -/

variable {C : RecordConfig} {x : Exchange C} {inbound : InboundRequest}
  {send : HarnessResult (UpstreamReply Bytes)}
  {stream : HarnessResult (UpstreamReply (List (HarnessResult Bytes)))}

/-- **The client is answered as by a proxy that records nothing.** -/
theorem Recorder.answer_eq (h : x.Carries inbound send stream) (r : Recorder) :
    r.answer x = PlainProxy.answer x.apiKey.isSome
      (isStreamingChatCompletionsRequest x.request.parsedJson) send stream x.times.length := by
  unfold Recorder.answer recordChatCompletionsHandler handleChatCompletions
    handleStreamingChatCompletions PlainProxy.answer
  cases hkey : x.apiKey with
  | none =>
    simp only [Option.isSome_none, if_true]
    split_ifs <;> rfl
  | some key =>
    simp only [Option.isSome_some, Bool.true_eq_false, if_false]
    split_ifs with hstreaming
    · cases hreply : stream with
      | error e =>
        have hup : x.stream = .error e := by rw [h.stream, hreply]; rfl
        simp only [hup]
        rfl
      | ok reply =>
        have hup : x.stream = .ok (observeStream reply) := by rw [h.stream, hreply]; rfl
        -- the client has received what passes through, up to where it stopped asking
        have hreceived := (Recording.after_run x.request (observeStream reply) x.started
          (x.clockRuns _ hup)).received_eq
        simp only [hup, buildProxyResponse, Exchange.arrives, hreceived]
        rfl
    · cases hreply : send with
      | error e =>
        have hup : x.send = .error e := by rw [h.send, hreply]; rfl
        simp only [hup]
        rfl
      | ok reply =>
        have hup : x.send = .ok (C.observeResponse reply) := by rw [h.send, hreply]; rfl
        simp only [hup]
        -- the reply is passed on whether or not it has been recorded
        cases hrecord : r.recordResponse C x (C.observeResponse reply) with
        | mk result r' => cases result <;> rfl

/-- The headers of a reply that is passed on. -/
theorem PlainProxy.headerTexts_passOn {β : Type} {reply : UpstreamReply β}
    (h : reply.headers.Wf) (items : List (HarnessResult Bytes)) :
    headerTexts (passOn reply items).headers =
      (reply.headers.filter fun header =>
        Permitted reply.headers responseOnlyExcludedHeaders header.1).map fun header =>
          (header.1.asStr, header.2) := by
  have hselect := selectHeadersUnified_eq reply.headers lower_responseOnly (id : Bytes → Bytes)
  exact (headerTexts_collectHeaders h.spelled_select (h.grouped_select id)).trans hselect

/-- What the adapter observes of a request is parsed from its body. -/
theorem RecordConfig.observes_observeRequest (C : RecordConfig) (inbound : InboundRequest) :
    C.Observes (C.observeRequest inbound) := rfl

/-- What the upstream client observes of a response is parsed from its body. -/
theorem RecordConfig.observes_observeResponse (C : RecordConfig) (reply : UpstreamReply Bytes) :
    C.ObservesResponse (C.observeResponse reply) := rfl

/-- An exchange with the inbound request and the replies that it is about, as the HTTP crates hold
them. -/
structure HttpExchange (C : RecordConfig) where
  exchange : Exchange C
  inbound : InboundRequest
  /-- The reply to a buffered request. -/
  send : HarnessResult (UpstreamReply Bytes)
  /-- The reply to a streaming request. -/
  stream : HarnessResult (UpstreamReply (List (HarnessResult Bytes)))
  carries : exchange.Carries inbound send stream
  inboundWf : inbound.headers.Wf
  sendWf : ∀ reply, send = .ok reply → reply.headers.Wf
  streamWf : ∀ reply, stream = .ok reply → reply.headers.Wf

namespace HttpExchange

/-- The request asks for a stream. -/
def streaming (x : HttpExchange C) : Bool :=
  isStreamingChatCompletionsRequest x.exchange.request.parsedJson

/-- The request's JSON is what its body parses to. -/
theorem parsedJson_eq (x : HttpExchange C) :
    x.exchange.request.parsedJson = C.parseJsonBytes x.inbound.body := by
  rw [x.carries.request]
  rfl

/-- The status and the headers of the reply that answers the exchange. -/
def reply (x : HttpExchange C) : Option (UInt16 × HeaderMap) :=
  if x.streaming then x.stream.toOption.map fun reply => (reply.status, reply.headers)
  else x.send.toOption.map fun reply => (reply.status, reply.headers)

/-- The answer of a proxy that records nothing. -/
def plainAnswer (x : HttpExchange C) : Response (List (HarnessResult Bytes)) :=
  PlainProxy.answer x.exchange.apiKey.isSome x.streaming x.send x.stream x.exchange.times.length

/-- What the plain proxy passes on of a reply. -/
theorem plainAnswer_reply (x : HttpExchange C) (hkey : x.exchange.apiKey.isSome)
    {status : UInt16} {headers : HeaderMap} (hreply : x.reply = some (status, headers)) :
    x.plainAnswer.status = proxyStatusCode status ∧
      headerTexts x.plainAnswer.headers =
        (headers.filter fun header =>
          Permitted headers responseOnlyExcludedHeaders header.1).map fun header =>
            (header.1.asStr, header.2) := by
  unfold reply at hreply
  unfold plainAnswer PlainProxy.answer
  rw [hkey, if_neg (by decide)]
  split_ifs at hreply ⊢ with hstreaming
  · cases hstream : x.stream with
    | error e => simp [hstream, Except.toOption] at hreply
    | ok reply =>
      obtain ⟨rfl, rfl⟩ : reply.status = status ∧ reply.headers = headers := by
        simpa [hstream, Except.toOption] using hreply
      exact ⟨rfl, PlainProxy.headerTexts_passOn (x.streamWf reply hstream) _⟩
  · cases hsend : x.send with
    | error e => simp [hsend, Except.toOption] at hreply
    | ok reply =>
      obtain ⟨rfl, rfl⟩ : reply.status = status ∧ reply.headers = headers := by
        simpa [hsend, Except.toOption] using hreply
      exact ⟨rfl, PlainProxy.headerTexts_passOn (x.sendWf reply hsend) _⟩

end HttpExchange

/-- The answers of a record service to exchanges, one after another. -/
def Recorder.httpAnswers (r : Recorder) (xs : List (HttpExchange C)) :
    List (Response (List (HarnessResult Bytes))) :=
  Runs.collect (fun r x => Recorder.exchange C r x.exchange) (fun r x => [r.answer x.exchange]) r xs

/-- **Recording is transparent.**  Along every run, from any state of the service, whatever fails in
opening, parsing, timing or appending, and however little of a stream the client reads, every
exchange is answered as by a proxy that records nothing: with the status of the reply, its permitted
headers with all their bytes, redacted or not, and its body, or the items of its stream. -/
theorem recording_is_transparent (r : Recorder) (xs : List (HttpExchange C)) :
    r.httpAnswers xs = xs.map HttpExchange.plainAnswer ∧
      ∀ x ∈ xs, x.exchange.apiKey.isSome → ∀ status headers, x.reply = some (status, headers) →
        x.plainAnswer.status = proxyStatusCode status ∧
        headerTexts x.plainAnswer.headers =
          (headers.filter fun header =>
            Permitted headers responseOnlyExcludedHeaders header.1).map fun header =>
              (header.1.asStr, header.2) := by
  refine ⟨?_, fun x _ hkey status headers hreply => x.plainAnswer_reply hkey hreply⟩
  induction xs generalizing r with
  | nil => rfl
  | cons x xs ih =>
    have hhead : r.answer x.exchange = x.plainAnswer := Recorder.answer_eq x.carries r
    rw [List.map_cons, ← ih (r.exchange C x.exchange), ← hhead]
    rfl

end SpycatcherHarness
