import SpycatcherHarness.Lifetime
import SpycatcherHarness.Server.Calls
import SpycatcherHarness.Server.ReplayHandler

/-!
# Credentials leave no trace

Two lives of a cassette that differ only in credentials, those that clients send to record or to
replay and those that are read from the environment, are the same: the directory, the service that
runs on it, and all that is answered.  The upstream is assumed to reply alike, and the redaction to
drop `authorization`, as it does by default.

* `executeUpstreamRequest_congr` : the observed reply does not depend on the credential.
* `RecordService.SameBut.exchange_eq` : nor does what an exchange leaves.
* `InboundRequest.SameBut.handle_eq` : nor what a replay service tells a client.
* `Life.credentials_leave_no_trace` : the same over whole lives.
-/

namespace SpycatcherHarness

open Files Store

variable {Url Body : Type}

/-! ### Requests without their credentials -/

/-- The header holds a credential. -/
def isCredential (name : HeaderName) : Bool := name.asStr == "authorization"

/-- The request without its credential. -/
def OutboundRequest.unsigned (out : OutboundRequest Url) : OutboundRequest Url :=
  { out with headers := out.headers.filter fun header => !isCredential header.1 }

namespace RequestBuilder

/-- The builder without the credential of its request. -/
def unsigned (builder : RequestBuilder Url) : RequestBuilder Url :=
  ⟨builder.request.map OutboundRequest.unsigned⟩

theorem header_unsigned (builder : RequestBuilder Url) {name : HeaderName} (value : HeaderValue)
    (hname : isCredential name = false) :
    (builder.header name value).unsigned = builder.unsigned.header name value := by
  cases builder with
  | mk request =>
    cases request <;> simp [unsigned, header, OutboundRequest.unsigned, Except.map, hname]

theorem header_credential (builder : RequestBuilder Url) {name : HeaderName} (value : HeaderValue)
    (hname : isCredential name = true) :
    (builder.header name value).unsigned = builder.unsigned := by
  cases builder with
  | mk request =>
    cases request <;> simp [unsigned, header, OutboundRequest.unsigned, Except.map, hname]

theorem body_unsigned (builder : RequestBuilder Url) (bytes : Bytes) :
    (builder.body bytes).unsigned = builder.unsigned.body bytes := by
  cases builder with
  | mk request => cases request <;> rfl

end RequestBuilder

/-- A key that can be sent as a bearer. -/
def usable (apiKey : String) : Bool := (Str.asBytes ("Bearer " ++ apiKey)).all isHeaderValueByte

/-- All that the bearer of a key does to the rest of a request. -/
theorem RequestBuilder.bearerAuth_unsigned (builder : RequestBuilder Url)
    (builderError apiKey : String) :
    (builder.bearerAuth builderError apiKey).unsigned =
      if usable apiKey then builder.unsigned
      else ⟨builder.unsigned.request.bind fun _ => .error builderError⟩ := by
  have hcredential : isCredential authorization = true := rfl
  unfold bearerAuth
  split_ifs with h
  · have hvalue : HeaderValue.fromBytes (Str.asBytes ("Bearer " ++ apiKey)) = some ⟨_, h⟩ :=
      dif_pos h
    rw [hvalue]
    exact builder.header_credential _ hcredential
  · have hvalue : HeaderValue.fromBytes (Str.asBytes ("Bearer " ++ apiKey)) = none := dif_neg h
    rw [hvalue]
    cases builder with
    | mk request => cases request <;> rfl

/-- A loop over headers does not look at credentials, neither in the list nor in the builder. -/
theorem appendHeaders_unsigned (H : HttpCrates Url Body) (check : String → HarnessResult Unit)
    (builder : RequestBuilder Url) (headers : List (String × Bytes)) :
    (appendHeaders H check builder headers).map RequestBuilder.unsigned =
      appendHeaders H check builder.unsigned
        (headers.filter fun header => shouldForwardHeader header.1) := by
  induction headers generalizing builder with
  | nil => rfl
  | cons header headers ih =>
    obtain ⟨name, value⟩ := header
    cases hforward : shouldForwardHeader name with
    | false =>
      rw [List.filter_cons, hforward, if_neg (by decide), ← ih]
      simp only [appendHeaders, hforward, Bool.not_false, if_true]
    | true =>
      rw [List.filter_cons, hforward, if_pos rfl]
      simp only [appendHeaders, hforward, Bool.not_true, Bool.false_eq_true, if_false]
      cases check name with
      | error e => rfl
      | ok u =>
        cases hout : toOutboundHeader H name value with
        | error e => rfl
        | ok out =>
          have hname : isCredential out.1 = false := by
            rw [isCredential, (toOutboundHeader_eq_ok hout).1, beq_eq_false_iff_ne]
            exact shouldForwardHeader_iff.1 hforward
          rw [ih, RequestBuilder.header_unsigned builder out.2 hname]

/-! ### Replies -/

/-- The clients are built alike, and their upstreams reply alike to requests that differ only in
their credentials. -/
structure HttpCrates.Alike (H H' : HttpCrates Url Body) : Prop where
  post : H'.post = H.post
  invalidHeaderName : H'.invalidHeaderName = H.invalidHeaderName
  invalidHeaderValue : H'.invalidHeaderValue = H.invalidHeaderValue
  builderError : H'.builderError = H.builderError
  debug : H'.debug = H.debug
  reply : ∀ out out', out.unsigned = out'.unsigned → H'.reply out' = H.reply out

/-- An upstream that replies to every request alike does so to these. -/
theorem HttpCrates.alike_replying (reply : UpstreamReply Body) :
    (HttpCrates.replying reply).Alike (.replying reply) :=
  ⟨rfl, rfl, rfl, rfl, rfl, fun _ _ _ => rfl⟩

/-- The requests differ only in their credentials. -/
structure ChatCompletionsRequest.SameBut (request request' : ChatCompletionsRequest Url) :
    Prop where
  config : request'.config = request.config
  query : request'.query = request.query
  body : request'.body = request.body
  apiKey : usable request'.apiKey = usable request.apiKey
  headers : (request'.headers.filter fun header => shouldForwardHeader header.1) =
    request.headers.filter fun header => shouldForwardHeader header.1

section

variable {H H' : HttpCrates Url Body} {U : UrlCrate Url}
  {request request' : ChatCompletionsRequest Url}

theorem appendHeaders_congr (h : H.Alike H') (check : String → HarnessResult Unit)
    (builder : RequestBuilder Url) (headers : List (String × Bytes)) :
    appendHeaders H' check builder headers = appendHeaders H check builder headers := by
  have hout : ∀ name value, toOutboundHeader H' name value = toOutboundHeader H name value := by
    intro name value
    simp only [toOutboundHeader, h.debug, h.invalidHeaderName, h.invalidHeaderValue]
  induction headers generalizing builder with
  | nil => rfl
  | cons header headers ih => simp only [appendHeaders, hout, ih]

/-- Up to the credential, the same request is built. -/
theorem buildUpstreamRequest_unsigned (hclient : H.Alike H') (h : request.SameBut request') :
    (buildUpstreamRequest H' U request').map RequestBuilder.unsigned =
      (buildUpstreamRequest H U request).map RequestBuilder.unsigned := by
  -- both are what the loops make of the builder with the URL, without credentials
  have hbuild : ∀ (H : HttpCrates Url Body) (request : ChatCompletionsRequest Url),
      (buildUpstreamRequest H U request).map RequestBuilder.unsigned =
        (chatCompletionsUrl U request.config.baseUrl request.query).bind fun url =>
          (applyForwardedHeaders H
            (((H.post url).bearerAuth H.builderError request.apiKey).unsigned)
            (request.headers.filter fun header => shouldForwardHeader header.1)).bind fun builder =>
              (appendHeaders H
                (fun name =>
                  if isForbiddenExtraHeader name then
                    .error (.invalidConfig ("extra header " ++ H.debug name ++ " is not allowed"))
                  else .ok ())
                builder
                (request.config.extraHeaders.asBytes.filter fun header =>
                  shouldForwardHeader header.1)).map fun builder => builder.body request.body := by
    intro H request
    unfold buildUpstreamRequest applyForwardedHeaders applyExtraHeaders
    cases chatCompletionsUrl U request.config.baseUrl request.query with
    | error e => rfl
    | ok url =>
      simp only [bind, Except.bind]
      rw [← appendHeaders_unsigned]
      cases appendHeaders H (fun _ => .ok ())
          ((H.post url).bearerAuth H.builderError request.apiKey) request.headers with
      | error e => rfl
      | ok builder =>
        simp only [Except.map]
        rw [← appendHeaders_unsigned]
        cases appendHeaders H _ builder request.config.extraHeaders.asBytes with
        | error e => rfl
        | ok builder => simp only [Except.map, RequestBuilder.body_unsigned]
  simp only [hbuild, applyForwardedHeaders, appendHeaders_congr hclient, hclient.post,
    hclient.builderError, hclient.debug, h.config, h.query, h.body, h.headers,
    RequestBuilder.bearerAuth_unsigned, h.apiKey]

/-- **The observed reply does not depend on the credential.** -/
theorem executeUpstreamRequest_congr (hclient : H.Alike H') (h : request.SameBut request') :
    (executeUpstreamRequest H' U request').2 = (executeUpstreamRequest H U request).2 := by
  have hbuild := @buildUpstreamRequest_unsigned _ _ _ _ U _ _ hclient h
  unfold executeUpstreamRequest
  cases hone : buildUpstreamRequest H U request with
  | error e =>
    cases htwo : buildUpstreamRequest H' U request' with
    | error e' => simpa [hone, htwo, Except.map] using hbuild
    | ok builder' => simp [hone, htwo, Except.map] at hbuild
  | ok builder =>
    cases htwo : buildUpstreamRequest H' U request' with
    | error e' => simp [hone, htwo, Except.map] at hbuild
    | ok builder' =>
      simp only [hone, htwo, Except.map, Except.ok.injEq, RequestBuilder.unsigned,
        RequestBuilder.mk.injEq] at hbuild
      cases hrequest : builder.request with
      | error source =>
        cases hrequest' : builder'.request with
        | error source' =>
          simp only [hrequest, hrequest', Except.error.injEq] at hbuild
          simp only [hrequest, hrequest', hbuild]
        | ok out' => simp [hrequest, hrequest'] at hbuild
      | ok out =>
        cases hrequest' : builder'.request with
        | error source' => simp [hrequest, hrequest'] at hbuild
        | ok out' =>
          simp only [hrequest, hrequest', Except.ok.injEq] at hbuild
          simp only [hrequest, hrequest', hclient.reply out out' hbuild.symm]
          cases H.reply out <;> rfl

end

/-! ### Inbound headers -/

/-- The headers without credentials. -/
def HeaderMap.unsigned (headers : HeaderMap) : HeaderMap :=
  headers.filter fun header => !isCredential header.1

section

variable {headers headers' : HeaderMap}

/-- Which headers are permitted does not depend on credentials. -/
theorem permitted_congr (h : headers'.unsigned = headers.unsigned) (excluded : List String)
    (name : HeaderName) : Permitted headers' excluded name ↔ Permitted headers excluded name := by
  have hconnection : ∀ headers : HeaderMap,
      headers.getAll "connection" = headers.unsigned.getAll "connection" := by
    intro headers
    simp only [HeaderMap.getAll, HeaderMap.unsigned, List.filter_filter]
    congr 2
    funext header
    by_cases hname : header.1.asStr = "connection" <;> simp [isCredential, hname]
  rw [permitted_iff, permitted_iff, NamedByConnection, NamedByConnection, hconnection headers',
    hconnection headers, h]

/-- A selection that passes credentials over is the same. -/
theorem filter_congr_unsigned (h : headers'.unsigned = headers.unsigned)
    (keep keep' : HeaderName → Bool) (hkeep : ∀ name, keep' name = keep name)
    (hcredential : ∀ name, isCredential name = true → keep name = false) :
    (headers'.filter fun header => keep' header.1) =
      headers.filter fun header => keep header.1 := by
  have hunsigned : ∀ headers : HeaderMap, (headers.filter fun header => keep header.1) =
      headers.unsigned.filter fun header => keep header.1 := by
    intro headers
    rw [HeaderMap.unsigned, List.filter_filter]
    refine List.filter_congr fun header _ => ?_
    cases hname : isCredential header.1 with
    | false => simp
    | true => simp [hcredential header.1 hname]
  simp only [hkeep]
  rw [hunsigned headers', h, ← hunsigned headers]

/-- What is forwarded is the same, credentials apart. -/
theorem selectedForwardHeaders_congr (h : headers'.unsigned = headers.unsigned) :
    ((selectedForwardHeaders headers').filter fun header => shouldForwardHeader header.1) =
      (selectedForwardHeaders headers).filter fun header => shouldForwardHeader header.1 := by
  have hselect : ∀ headers : HeaderMap,
      ((selectedForwardHeaders headers).filter fun header => shouldForwardHeader header.1) =
        (headers.filter fun header =>
          shouldForwardHeader header.1.asStr &&
            decide (Permitted headers requestOnlyExcludedHeaders header.1)).map fun header =>
              (header.1.asStr, header.2) := by
    intro headers
    rw [selectedForwardHeaders, selectedHeaderBytes, selectHeadersUnified_eq _ lower_requestOnly,
      List.filter_map, List.filter_filter]
    rfl
  rw [hselect, hselect]
  congr 1
  refine filter_congr_unsigned h
    (fun name => shouldForwardHeader name.asStr &&
      decide (Permitted headers requestOnlyExcludedHeaders name))
    (fun name => shouldForwardHeader name.asStr &&
      decide (Permitted headers' requestOnlyExcludedHeaders name))
    (fun name => ?_) fun name hname => ?_
  · simp only [permitted_congr h]
  · have hforward : shouldForwardHeader name.asStr = false := by
      rw [← Bool.not_eq_true, shouldForwardHeader_iff, toAsciiLowercase_asStr]
      exact not_not.2 (beq_iff_eq.1 hname)
    simp [hforward]

/-- What is recorded of the headers is the same, if credentials are redacted. -/
theorem persistedHeaders_congr (h : headers'.unsigned = headers.unsigned)
    {redaction : RedactionConfig} (hredacted : Redacted redaction authorization)
    (excluded : List String) :
    persistedHeaders redaction excluded headers' =
      persistedHeaders redaction excluded headers := by
  unfold persistedHeaders
  congr 1
  refine filter_congr_unsigned h
    (fun name => decide (Permitted headers excluded name ∧ ¬ Redacted redaction name))
    (fun name => decide (Permitted headers' excluded name ∧ ¬ Redacted redaction name))
    (fun name => ?_) fun name hname => ?_
  · simp only [permitted_congr h]
  · rw [decide_eq_false_iff_not, not_and_not_right]
    have hauthorization : name = authorization :=
      HeaderName.eq_of_asStr (beq_iff_eq.1 hname)
    exact fun _ => hauthorization ▸ hredacted

end

/-- The inbound requests differ only in the credentials of their clients. -/
structure InboundRequest.SameBut (inbound inbound' : InboundRequest) : Prop where
  query : inbound'.query = inbound.query
  body : inbound'.body = inbound.body
  headers : inbound'.headers.unsigned = inbound.headers.unsigned

/-- **A replay service tells clients the same, whatever their credentials.** -/
theorem InboundRequest.SameBut.handle_eq {inbound inbound' : InboundRequest}
    (h : inbound.SameBut inbound') (S : SerdeJson) (sha256 : Bytes → Bytes)
    (service : ReplayService) :
    service.handleChatCompletions sha256 (observeReplayRequest S inbound') =
      service.handleChatCompletions sha256 (observeReplayRequest S inbound) := by
  -- headers are observed, but no part of the canonical form
  have hcanonical : ReplayService.canonicalOf (observeReplayRequest S inbound') =
      ReplayService.canonicalOf (observeReplayRequest S inbound) := by
    simp only [ReplayService.canonicalOf, canonicalForm, observedToRecordedRequest,
      observeReplayRequest, h.query, h.body]
  have hjson : (observeReplayRequest S inbound').parsedJson =
      (observeReplayRequest S inbound).parsedJson := by
    simp only [observeReplayRequest, h.body]
  rw [ReplayService.handleChatCompletions_eq, ReplayService.handleChatCompletions_eq, hjson,
    ReplayService.hashOf, ReplayService.hashOf, hcanonical]

/-! ### Exchanges -/

variable {C : RecordConfig}

/-- Only whether there is a credential matters to what an exchange leaves. -/
theorem Recorder.exchange_withKey (r : Recorder) (x : Exchange C) {apiKey : Option String}
    (h : apiKey.isSome = x.apiKey.isSome) :
    r.exchange C { x with apiKey } = r.exchange C x := by
  obtain ⟨request, key, _, _, _, _, _, _, _, _, _⟩ := x
  cases key <;> cases apiKey <;> first | rfl | cases h

theorem Exchange.attempted_withKey (x : Exchange C) {apiKey : Option String}
    (h : apiKey.isSome = x.apiKey.isSome) :
    { x with apiKey : Exchange C }.attempted = x.attempted := by
  obtain ⟨request, key, _, _, _, _, _, _, _, _, _⟩ := x
  cases key <;> cases apiKey <;> first | rfl | cases h

namespace RecordService

/-- The calls differ only in the credentials, of the client and of the environment.  Either both
calls have a key or none has, and keys are both usable or both not. -/
structure SameBut (service : RecordService Url) (call call' : RecordCall Url) : Prop where
  inbound : call.inbound.SameBut call'.inbound
  apiKey : (service.apiKey call').map usable = (service.apiKey call).map usable
  client : call.client.Alike call'.client
  streamClient : call.streamClient.Alike call'.streamClient
  interactionStart : call'.interactionStart = call.interactionStart
  nowRfc3339 : call'.nowRfc3339 = call.nowRfc3339
  upstreamStart : call'.upstreamStart = call.upstreamStart
  times : call'.times = call.times
  faults : call'.faults = call.faults

variable {service : RecordService Url} {call call' : RecordCall Url}

theorem SameBut.isSome_apiKey (h : service.SameBut call call') :
    (service.apiKey call').isSome = (service.apiKey call).isSome := by
  simpa using congrArg Option.isSome h.apiKey

/-- The replies that are observed are the same. -/
theorem SameBut.replies (h : service.SameBut call call') :
    service.send C call' = service.send C call ∧
      service.stream C call' = service.stream C call := by
  have husable : usable ((service.apiKey call').getD "") =
      usable ((service.apiKey call).getD "") := by
    have hkey := h.apiKey
    cases hone : service.apiKey call <;> cases htwo : service.apiKey call' <;>
      simp_all
  have hsame : (service.outgoing C call ((service.apiKey call).getD "")).SameBut
      (service.outgoing C call' ((service.apiKey call').getD "")) := by
    refine ⟨rfl, ?_, h.inbound.body, husable, selectedForwardHeaders_congr h.inbound.headers⟩
    simp only [outgoing, RecordConfig.observeRequest, h.inbound.query]
  constructor
  · rw [send, send, bufferedReply, bufferedReply, executeUpstreamRequest_congr h.client hsame]
  · rw [stream, stream, streamedReply, streamedReply,
      executeUpstreamRequest_congr h.streamClient hsame]

/-- Everything around the requests is the same, once the keys are. -/
theorem SameBut.sameAround (h : service.SameBut call call') :
    (service.exchange C call).SameAround
      { service.exchange C call' with apiKey := service.apiKey call } := by
  obtain ⟨hsend, hstream⟩ := h.replies (C := C)
  refine ⟨rfl, ?_, ?_, ?_, h.upstreamStart, h.times, h.faults⟩
  · simp only [exchange, hsend]
  · simp only [exchange, hstream]
  · simp only [exchange, h.nowRfc3339, h.interactionStart]

theorem SameBut.unhashed_eq (h : service.SameBut call call')
    (hredacted : Redacted C.redaction authorization) :
    C.unhashed (C.observeRequest call.inbound) = C.unhashed (C.observeRequest call'.inbound) := by
  have hheaders := persistedHeaders_congr h.inbound.headers hredacted requestOnlyExcludedHeaders
  simp only [RecordConfig.unhashed, RecordConfig.observeRequest, h.inbound.query, h.inbound.body,
    selectedRequestHeaders, redactHeaders_select C.redaction _ lower_requestOnly, hheaders]

/-- **What an exchange leaves does not depend on credentials.** -/
theorem SameBut.exchange_eq (h : service.SameBut call call')
    (hredacted : Redacted C.redaction authorization) :
    (∀ r : Recorder, r.exchange C (service.exchange C call') =
      r.exchange C (service.exchange C call)) ∧
    (service.exchange C call').attempted = (service.exchange C call).attempted := by
  have hunhashed := h.unhashed_eq hredacted
  have hkey : (service.apiKey call).isSome = (service.exchange C call').apiKey.isSome :=
    h.isSome_apiKey.symm
  constructor
  · intro r
    rw [← r.exchange_withKey (service.exchange C call') hkey]
    exact h.sameAround.exchange_eq hunhashed r
  · rw [← Exchange.attempted_withKey (service.exchange C call') hkey]
    exact h.sameAround.attempted_eq hunhashed

@[simp] theorem exchange_faults (service : RecordService Url) (call : RecordCall Url) :
    (service.exchange C call).faults = call.faults := rfl

/-- Nor does what the client is answered. -/
theorem SameBut.answer_eq (h : service.SameBut call call') (r : Recorder) :
    r.answer (service.exchange C call') = r.answer (service.exchange C call) := by
  obtain ⟨hsend, hstream⟩ := h.replies (C := C)
  have hjson : (C.observeRequest call'.inbound).parsedJson =
      (C.observeRequest call.inbound).parsedJson := by
    simp only [RecordConfig.observeRequest, h.inbound.body]
  rw [Recorder.answer_eq (service.carries call'), Recorder.answer_eq (service.carries call), hsend,
    hstream]
  simp only [exchange, hjson, h.isSome_apiKey, h.times]

end RecordService

/-! ### Lives -/

namespace Life

/-- What is answered to a client. -/
inductive Shown where
  /-- By a service that records. -/
  | proxied (answer : Response (List (HarnessResult Bytes)))
  /-- By a service that replays. -/
  | replayed (answer : Except ReplayError ReplayResponse)

/-- What clients are answered when an event happens. -/
def shown (s : Life) : Event C Url → List Shown
  | .exchange x =>
    match s with
    | recording r => [.proxied (r.answer x)]
    | _ => []
  | .request q => (s.answer C q).toList.map .replayed
  | .start _ | .killedStart _ _ | .killedExchange _ _ | .shutdown => []

/-- The events differ only in the credentials of a call, or of a request to a replay service. -/
inductive SameBut : Event C Url → Event C Url → Prop
  | same (e : Event C Url) : SameBut e e
  | exchange {service : RecordService Url} {call call' : RecordCall Url}
      (h : service.SameBut call call') :
      SameBut (.exchange (service.exchange C call)) (.exchange (service.exchange C call'))
  | killedExchange {service : RecordService Url} {call call' : RecordCall Url}
      (h : service.SameBut call call') (after : ℕ) :
      SameBut (.killedExchange (service.exchange C call) after)
        (.killedExchange (service.exchange C call') after)
  | request {inbound inbound' : InboundRequest} (h : inbound.SameBut inbound') :
      SameBut (.request (observeReplayRequest C.json inbound))
        (.request (observeReplayRequest C.json inbound'))

/-- Events that differ only in credentials do and show the same. -/
theorem SameBut.step_eq (hredacted : Redacted C.redaction authorization) (cassetteDir name : String)
    (s : Life) {e e' : Event C Url} (h : SameBut e e') :
    step C cassetteDir name s e = step C cassetteDir name s e' ∧ s.shown e = s.shown e' := by
  cases h with
  | same => exact ⟨rfl, rfl⟩
  | exchange h =>
    cases s with
    | recording r =>
      simp only [step, shown, (h.exchange_eq hredacted).1 r, h.answer_eq r, and_self]
    | stopped dir => exact ⟨rfl, rfl⟩
    | replaying dir service => exact ⟨rfl, rfl⟩
  | killedExchange h after =>
    cases s with
    | recording r =>
      have hfaults := h.faults
      simp only [step, shown, Recorder.killedIn, (h.exchange_eq hredacted).2,
        RecordService.exchange_faults, hfaults, and_self]
    | stopped dir => exact ⟨rfl, rfl⟩
    | replaying dir service => exact ⟨rfl, rfl⟩
  | request h =>
    cases s with
    | replaying dir service =>
      simp only [step, shown, answer, ReplayService.step, h.handle_eq, and_self]
    | stopped dir => exact ⟨rfl, rfl⟩
    | recording r => exact ⟨rfl, rfl⟩

/-- **Credentials leave no trace.**  Two lives of a cassette that differ only in credentials, those
that clients send, to record or to replay, and the keys that are read from the environment, leave
the same directory, byte for byte, and the same process on it, and show their clients the same,
whatever processes are started, killed or shut down and whatever fails.  The redaction drops
`authorization`, the upstreams reply alike, and of two keys both are there and can be sent, or
neither. -/
theorem credentials_leave_no_trace (hredacted : Redacted C.redaction authorization)
    (cassetteDir name : String) (s : Life) {es es' : List (Event C Url)}
    (h : List.Forall₂ SameBut es es') :
    Runs.run (step C cassetteDir name) s es = Runs.run (step C cassetteDir name) s es' ∧
      Runs.collect (step C cassetteDir name) shown s es =
        Runs.collect (step C cassetteDir name) shown s es' := by
  refine Runs.run_lockstep (S := Eq) ?_ rfl h
  rintro s _ e e' rfl hevent
  exact hevent.step_eq hredacted cassetteDir name s

/-- Another key, and clients with credentials: one call is recorded and then replayed. -/
theorem credentials_leave_no_trace_small :
    let life (apiKey : String) (headers : HeaderMap) :
        List (Event exact SmallUrl) :=
      [.start ⟨.calm, .record, .sequentialStrict, some RecordService.small.upstream⟩,
        .exchange (RecordService.small.exchange exact (RecordCall.small apiKey headers 0)),
        .shutdown, .start ⟨.calm, .replay, .sequentialStrict, none⟩,
        .request (observeReplayRequest exact.json (RecordCall.small apiKey headers 0).inbound)]
    let es := life "key" []
    let es' := life "other" [(authorization, Str.asBytes "Bearer client")]
    Runs.run (step exact "llm" "a.json") (stopped fun _ => none) es =
        Runs.run (step exact "llm" "a.json") (stopped fun _ => none) es' ∧
      Runs.collect (step exact "llm" "a.json") shown (stopped fun _ => none) es =
        Runs.collect (step exact "llm" "a.json") shown (stopped fun _ => none) es' := by
  intro life es es'
  have hinbound : (RecordCall.small "key" [] 0).inbound.SameBut
      (RecordCall.small "other" [(authorization, Str.asBytes "Bearer client")] 0).inbound :=
    ⟨rfl, rfl, rfl⟩
  have hcalls : RecordService.small.SameBut (RecordCall.small "key" [] 0)
      (RecordCall.small "other" [(authorization, Str.asBytes "Bearer client")] 0) :=
    ⟨hinbound, by decide +kernel, HttpCrates.alike_replying _, HttpCrates.alike_replying _,
      rfl, rfl, rfl, rfl, rfl⟩
  exact credentials_leave_no_trace (by decide) "llm" "a.json" _
    (.cons (.same _) (.cons (.exchange hcalls) (.cons (.same _) (.cons (.same _)
      (.cons (.request hinbound) .nil)))))

end Life

end SpycatcherHarness
