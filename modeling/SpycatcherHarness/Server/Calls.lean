import SpycatcherHarness.Server.RecordHandler
import SpycatcherHarness.Server.Sending

/-!
# The record process between its sockets

What lies between an inbound request and an exchange: the credential is read from the environment,
the upstream client builds and sends a request and observes the reply, and the metadata is created
from the session's clock.  A `RecordCall` is an inbound request with everything from outside that
its handling depends on; `RecordService.exchange` is the exchange that it becomes, and
`RecordService.sent` the requests that go out for it.

* `RecordService.carries` : the exchange observes the inbound request and the replies.
* `RecordService.sent_length_le` : at most one request goes out.
* `RecordService.sent_iff` : when a request goes out, and what it is.
* `RecordService.traffic_of_attempted` : what is handed to the store answers what went out.
* `RecordService.recorded_is_traffic` : a run extends the cassette by upstream traffic alone.
* `RecordService.offsets_in_order` : recorded offsets are those of the session's clock, in order.
-/

namespace SpycatcherHarness

open Files Store

/-! ### Metadata of a session -/

/-- `UpstreamKind`. -/
inductive UpstreamKind where
  | openRouter
  deriving DecidableEq

/-- `upstream_id`. -/
def upstreamId : UpstreamKind → String
  | .openRouter => "openrouter"

/-- `CHAT_COMPLETIONS_PROTOCOL_ID`. -/
def chatCompletionsProtocolId : String := "openai.chat_completions.v1"

/-- `SessionMetadata`, without its clock.  Instants are nanoseconds. -/
structure SessionMetadata where
  sessionStart : ℕ
  upstreamKind : UpstreamKind

namespace SessionMetadata

/-- `create_with_offset`, for a reading of the clock. -/
def createWithOffset (session : SessionMetadata) (nowRfc3339 : HarnessResult String)
    (offset : ℕ) : HarnessResult InteractionMetadata :=
  match nowRfc3339 with
  | .error e => .error e
  | .ok recordedAt =>
    let elapsed := offset / 1000000
    if elapsed < 2 ^ 64 then
      .ok ⟨chatCompletionsProtocolId, upstreamId session.upstreamKind, recordedAt,
        UInt64.ofNat elapsed⟩
    else .error (.invalidConfig "relative offset exceeded u64 range")

/-- `create_at`: a start before that of the session counts as no offset. -/
def createAt (session : SessionMetadata) (nowRfc3339 : HarnessResult String)
    (interactionStart : ℕ) : HarnessResult InteractionMetadata :=
  session.createWithOffset nowRfc3339 (interactionStart - session.sessionStart)

/-- What is created: the offset in whole milliseconds, if it fits. -/
theorem createAt_eq_ok_iff {session : SessionMetadata} {nowRfc3339 : HarnessResult String}
    {interactionStart : ℕ} {metadata : InteractionMetadata} :
    session.createAt nowRfc3339 interactionStart = .ok metadata ↔
      metadata.protocolId = chatCompletionsProtocolId ∧
      metadata.upstreamId = upstreamId session.upstreamKind ∧
      nowRfc3339 = .ok metadata.recordedAt ∧
      metadata.relativeOffsetMs.toNat = (interactionStart - session.sessionStart) / 1000000 := by
  unfold createAt createWithOffset
  obtain ⟨protocolId, upstream, recordedAt, relativeOffsetMs⟩ := metadata
  cases nowRfc3339 with
  | error e => simp
  | ok now =>
    have hfits := relativeOffsetMs.toNat_lt
    simp only [Except.ok.injEq]
    split_ifs with hlt
    · rw [Except.ok.injEq, InteractionMetadata.mk.injEq, ← UInt64.toNat_inj, UInt64.toNat_ofNat',
        Nat.mod_eq_of_lt hlt]
      simp only [eq_comm]
    · constructor
      · rintro ⟨⟩
      · rintro ⟨-, -, -, hoffset⟩
        omega

end SessionMetadata

/-! ### The upstream client -/

variable {Url : Type}

section Client

variable (C : RecordConfig) (U : UrlCrate Url) (request : ChatCompletionsRequest Url)

/-- `send_chat_completions`: the requests that are sent, and the response. -/
def sendChatCompletions (client : HttpCrates Url (Except String Bytes)) :
    List (OutboundRequest Url) × HarnessResult ObservedResponse :=
  match executeUpstreamRequest client U request with
  | (sent, .error e) => (sent, .error e)
  | (sent, .ok (status, selectedHeaders, proxyHeaders, response)) =>
    match response.body with
    | .error source => (sent, .error (.upstreamRequestFailed source))
    | .ok responseBody =>
      (sent, .ok ⟨status, selectedHeaders, proxyHeaders, responseBody,
        C.parseJsonBytes responseBody⟩)

/-- The `try_unfold` over the chunks of a response, which ends with the first error. -/
def upstreamChunks : List (Except String Bytes) → List (HarnessResult Bytes)
  | [] => []
  | .error source :: _ => [.error (.upstreamRequestFailed source)]
  | .ok chunk :: rest => .ok chunk :: upstreamChunks rest

/-- `stream_chat_completions`: the requests that are sent, and the response. -/
def streamChatCompletions (client : HttpCrates Url (List (Except String Bytes))) :
    List (OutboundRequest Url) × HarnessResult StreamingObservedResponse :=
  match executeUpstreamRequest client U request with
  | (sent, .error e) => (sent, .error e)
  | (sent, .ok (status, selectedHeaders, proxyHeaders, response)) =>
    (sent, .ok ⟨status, selectedHeaders, proxyHeaders, upstreamChunks response.body⟩)

/-- The buffered reply that is observed. -/
def bufferedReply (client : HttpCrates Url (Except String Bytes)) :
    HarnessResult (UpstreamReply Bytes) :=
  match (executeUpstreamRequest client U request).2 with
  | .error e => .error e
  | .ok (_, _, _, response) =>
    match response.body with
    | .error source => .error (.upstreamRequestFailed source)
    | .ok body => .ok ⟨response.status, response.headers, body⟩

/-- The streamed reply that is observed. -/
def streamedReply (client : HttpCrates Url (List (Except String Bytes))) :
    HarnessResult (UpstreamReply (List (HarnessResult Bytes))) :=
  (executeUpstreamRequest client U request).2.map fun (_, _, _, response) =>
    ⟨response.status, response.headers, upstreamChunks response.body⟩

end Client

/-- What sending comes to, for any kind of body. -/
theorem executeUpstreamRequest_cases {Body : Type} (H : HttpCrates Url Body) (U : UrlCrate Url)
    (request : ChatCompletionsRequest Url) :
    (∃ sent e, executeUpstreamRequest H U request = (sent, .error e) ∧ sent.length ≤ 1) ∨
    ∃ out response, executeUpstreamRequest H U request =
        ([out], .ok (response.status, selectedResponseHeaders response.headers,
          selectedResponseProxyHeaders response.headers, response)) ∧
      H.reply out = .ok response := by
  unfold executeUpstreamRequest
  cases buildUpstreamRequest H U request with
  | error e => exact .inl ⟨[], e, rfl, by simp⟩
  | ok builder =>
    cases hrequest : builder.request with
    | error source => exact .inl ⟨[], _, by simp only [hrequest]; rfl, by simp⟩
    | ok out =>
      cases hreply : H.reply out with
      | error source => exact .inl ⟨[out], _, by simp only [hrequest, hreply]; rfl, by simp⟩
      | ok response => exact .inr ⟨out, response, by simp only [hrequest, hreply], hreply⟩

section Client

variable (C : RecordConfig) (U : UrlCrate Url) (request : ChatCompletionsRequest Url)

/-- **Sending**: at most one request, and a response that observes the reply to it. -/
theorem sendChatCompletions_spec (client : HttpCrates Url (Except String Bytes)) :
    (sendChatCompletions C U request client).1.length ≤ 1 ∧
    (sendChatCompletions C U request client).2 =
      (bufferedReply U request client).map C.observeResponse ∧
    ∀ reply, bufferedReply U request client = .ok reply → ∃ out,
      (sendChatCompletions C U request client).1 = [out] ∧
      client.reply out = .ok ⟨reply.status, reply.headers, .ok reply.body⟩ := by
  unfold sendChatCompletions bufferedReply
  rcases executeUpstreamRequest_cases client U request with
    ⟨sent, e, hexecute, hlength⟩ | ⟨out, response, hexecute, hreply⟩
  · rw [hexecute]
    exact ⟨hlength, rfl, by rintro _ ⟨⟩⟩
  · rw [hexecute]
    simp only
    cases hbody : response.body with
    | error source => exact ⟨le_rfl, rfl, by rintro _ ⟨⟩⟩
    | ok body =>
      refine ⟨le_rfl, rfl, ?_⟩
      rintro _ ⟨⟩
      exact ⟨out, rfl, by rw [hreply, ← hbody]⟩

/-- The same for a streamed response. -/
theorem streamChatCompletions_spec (client : HttpCrates Url (List (Except String Bytes))) :
    (streamChatCompletions U request client).1.length ≤ 1 ∧
    (streamChatCompletions U request client).2 =
      (streamedReply U request client).map observeStream ∧
    ∀ reply, streamedReply U request client = .ok reply → ∃ out response,
      (streamChatCompletions U request client).1 = [out] ∧ client.reply out = .ok response ∧
      reply = ⟨response.status, response.headers, upstreamChunks response.body⟩ := by
  unfold streamChatCompletions streamedReply
  rcases executeUpstreamRequest_cases client U request with
    ⟨sent, e, hexecute, hlength⟩ | ⟨out, response, hexecute, hreply⟩
  · rw [hexecute]
    exact ⟨hlength, rfl, by rintro _ ⟨⟩⟩
  · rw [hexecute]
    refine ⟨le_rfl, rfl, ?_⟩
    rintro _ ⟨⟩
    exact ⟨out, response, rfl, hreply, rfl⟩

/-- Chunks that arrive without an error are those of the response. -/
theorem upstreamChunks_eq_ok {body : List (Except String Bytes)} {chunks : List Bytes}
    (h : upstreamChunks body = chunks.map .ok) : body = chunks.map .ok := by
  induction body generalizing chunks with
  | nil => cases chunks with
    | nil => rfl
    | cons chunk chunks => cases h
  | cons item body ih =>
    cases chunks with
    | nil => cases item <;> cases h
    | cons chunk chunks =>
      cases item with
      | error source => simp [upstreamChunks] at h
      | ok first =>
        simp only [upstreamChunks, List.map_cons, List.cons.injEq, Except.ok.injEq] at h
        rw [h.1, ih h.2, List.map_cons]

end Client

/-! ### Calls -/

/-- `RecordService`, as far as it stays the same: its configuration, and its metadata factory. -/
structure RecordService (Url : Type) where
  urls : UrlCrate Url
  upstream : UpstreamConfig Url
  /-- `api_key_env`. -/
  apiKeyEnv : String
  metadata : SessionMetadata

/-- An inbound request, and what its handling meets outside. -/
structure RecordCall (Url : Type) where
  inbound : InboundRequest
  /-- `EnvProvider::read`. -/
  env : String → Option String
  /-- The two clients, with what the upstream replies to each. -/
  client : HttpCrates Url (Except String Bytes)
  streamClient : HttpCrates Url (List (Except String Bytes))
  /-- The readings of the clocks: when the request comes in, when the interaction is built, when the
  upstream request is started, and whenever the client asks for the next item of a stream. -/
  interactionStart : ℕ
  nowRfc3339 : HarnessResult String
  upstreamStart : ℕ
  times : List ℕ
  clockRuns : (upstreamStart :: times).Pairwise (· ≤ ·)
  /-- Which steps of the append fail. -/
  faults : Faults

/-- A clock that runs does so along a recording. -/
theorem Recording.along_clockRuns {C : RecordConfig} {metadata : HarnessResult InteractionMetadata}
    {r : Recording} {times : List ℕ} (h : (r.clock :: times).Pairwise (· ≤ ·)) :
    Runs.Along (Recording.step C metadata) ClockRuns r times := by
  induction times generalizing r with
  | nil => trivial
  | cons now times ih =>
    rw [List.pairwise_cons, List.forall_mem_cons] at h
    have hclock : (r.step C metadata now).clock = now := by
      unfold Recording.step
      cases r.stream with
      | none => rfl
      | some state =>
        cases hchunk : state.processStreamChunk C metadata now with
        | mk result actions =>
          rcases result with e | (_ | ⟨chunk, next⟩) <;> simp only [hchunk]
    exact ⟨h.1.1, ih (by rw [hclock]; exact h.2)⟩

/-- The metadata of what is handed to the store are those that were created. -/
theorem Exchange.metadata_of_attempted {C : RecordConfig} {x : Exchange C} {i : Interaction}
    (h : x.attempted = some i) : x.metadata = .ok i.metadata := by
  unfold attempted at h
  split_ifs at h with hkey hstream
  · cases hup : x.stream with
    | error e => simp [hup] at h
    | ok response =>
      rw [hup] at h
      have hafter := Recording.after_run x.request response x.started (x.clockRuns response hup)
      rcases hafter.appends_eq with ⟨hnone, -⟩ |
        ⟨chunks, completed, metadata, -, -, -, hmetadata, -, -, happends⟩
      · simp [recording, hnone] at h
      · obtain rfl : _ = i := by simpa [recording, happends] using h
        exact hmetadata
  · cases hup : x.send with
    | error e => simp [hup] at h
    | ok response =>
      simp only [hup, C.buildInteraction_eq] at h
      cases hmetadata : x.metadata with
      | error e => simp [hmetadata, Except.toOption] at h
      | ok metadata =>
        obtain rfl : _ = i := by simpa [hmetadata, Except.toOption] using h
        rfl

/-! ### A small world -/

/-- A service with one extra header. -/
def RecordService.small : RecordService SmallUrl where
  urls := .small
  upstream := ⟨⟨none, ["v1", ""], none⟩, ⟨[("X-Title", "t")], by decide⟩⟩
  apiKeyEnv := "KEY"
  metadata := ⟨1000000, .openRouter⟩

/-- A call with a credential, at some time, whose reply has no headers. -/
def RecordCall.small (apiKey : String) (headers : HeaderMap) (interactionStart : ℕ) :
    RecordCall SmallUrl where
  inbound := ⟨none, headers, Str.asBytes "\x7b\x7d"⟩
  env name := if name = "KEY" then some apiKey else none
  client := .replying ⟨200, [], .ok (Str.asBytes "null")⟩
  streamClient := .replying ⟨200, [], []⟩
  interactionStart := interactionStart
  nowRfc3339 := .ok "now"
  upstreamStart := interactionStart
  times := []
  clockRuns := List.pairwise_singleton _ _
  faults := .none

namespace RecordService

variable (C : RecordConfig) (service : RecordService Url)

/-- The request that is handed to the upstream client, for a credential. -/
def outgoing (call : RecordCall Url) (apiKey : String) : ChatCompletionsRequest Url :=
  let request := C.observeRequest call.inbound
  ⟨service.upstream, apiKey, request.forwardHeaders, request.body, request.query⟩

/-- `resolve_api_key`, without its error. -/
def apiKey (call : RecordCall Url) : Option String := call.env service.apiKeyEnv

/-- The request asks for a stream. -/
def streaming (call : RecordCall Url) : Bool :=
  isStreamingChatCompletionsRequest (C.observeRequest call.inbound).parsedJson

/-- The requests that `handle_chat_completions` sends. -/
def sent (call : RecordCall Url) : List (OutboundRequest Url) :=
  match service.apiKey call with
  | none => []
  | some apiKey =>
    let request := service.outgoing C call apiKey
    if streaming C call then (streamChatCompletions service.urls request call.streamClient).1
    else (sendChatCompletions C service.urls request call.client).1

/-- The replies that are observed.  Without a credential the client is not asked for any. -/
def send (call : RecordCall Url) : HarnessResult (UpstreamReply Bytes) :=
  bufferedReply service.urls (service.outgoing C call ((service.apiKey call).getD "")) call.client

def stream (call : RecordCall Url) : HarnessResult (UpstreamReply (List (HarnessResult Bytes))) :=
  streamedReply service.urls (service.outgoing C call ((service.apiKey call).getD ""))
    call.streamClient

/-- The exchange that a call becomes. -/
def exchange (call : RecordCall Url) : Exchange C where
  request := C.observeRequest call.inbound
  apiKey := service.apiKey call
  send := (service.send C call).map C.observeResponse
  stream := (service.stream C call).map observeStream
  metadata := service.metadata.createAt call.nowRfc3339 call.interactionStart
  started := call.upstreamStart
  times := call.times
  faults := call.faults
  observed := rfl
  observedResponse response h := by
    cases hsend : service.send C call with
    | error e => simp [hsend, Except.map] at h
    | ok reply =>
      rw [hsend] at h
      rw [← Except.ok.inj h]
      exact C.observes_observeResponse reply
  clockRuns response _ := Recording.along_clockRuns call.clockRuns

/-! ### What goes out -/

variable {C} {call : RecordCall Url}

/-- The exchange observes the inbound request and the replies. -/
theorem carries (call : RecordCall Url) :
    (service.exchange C call).Carries call.inbound (service.send C call) (service.stream C call) :=
  ⟨rfl, rfl, rfl⟩

variable (C) in
/-- The client of the request that goes out. -/
def post (call : RecordCall Url) : Url → RequestBuilder Url :=
  if streaming C call then call.streamClient.post else call.client.post

/-- At most one request goes out. -/
theorem sent_length_le (call : RecordCall Url) : (service.sent C call).length ≤ 1 := by
  unfold sent
  cases service.apiKey call with
  | none => exact Nat.zero_le 1
  | some apiKey =>
    simp only
    split_ifs
    · exact (streamChatCompletions_spec _ _ _).1
    · exact (sendChatCompletions_spec _ _ _ _).1

theorem sendChatCompletions_sent {U : UrlCrate Url} {request : ChatCompletionsRequest Url}
    {client : HttpCrates Url (Except String Bytes)} :
    (sendChatCompletions C U request client).1 = (executeUpstreamRequest client U request).1 := by
  unfold sendChatCompletions
  rcases executeUpstreamRequest client U request with ⟨sent, e | response⟩
  · rfl
  · simp only
    cases response.2.2.2.body <;> rfl

theorem streamChatCompletions_sent {U : UrlCrate Url} {request : ChatCompletionsRequest Url}
    {client : HttpCrates Url (List (Except String Bytes))} :
    (streamChatCompletions U request client).1 = (executeUpstreamRequest client U request).1 := by
  unfold streamChatCompletions
  rcases executeUpstreamRequest client U request with ⟨sent, e | response⟩ <;> rfl

/-- Which request goes out. -/
theorem mem_sent_iff (hclient : call.client.Lawful service.urls)
    (hstream : call.streamClient.Lawful service.urls)
    (hplain : service.urls.hasCredentials service.upstream.baseUrl = false)
    {out : OutboundRequest Url} :
    out ∈ service.sent C call ↔ ∃ apiKey, service.apiKey call = some apiKey ∧
      Sends (post C call) service.urls (service.outgoing C call apiKey) out := by
  unfold sent post
  cases service.apiKey call with
  | none => simp
  | some apiKey =>
    simp only [Option.some.injEq, exists_eq_left']
    split_ifs
    · rw [streamChatCompletions_sent, mem_executeUpstreamRequest_iff hstream hplain]
    · rw [sendChatCompletions_sent, mem_executeUpstreamRequest_iff hclient hplain]

/-- **One request out for one request in**, if the service is fit to send any.  For a call with
headers as the HTTP crate holds them, and a base URL without credentials, a request goes out exactly
if there is a key, it and the configuration are fit for one, and the URL can be built; then it is
the only one, with the client's body, the bearer, what is passed on of the client's headers, and the
extra headers. -/
theorem sent_iff (call : RecordCall Url) (hheaders : call.inbound.headers.Wf)
    (hclient : call.client.Lawful service.urls) (hstream : call.streamClient.Lawful service.urls)
    (hplain : service.urls.hasCredentials service.upstream.baseUrl = false) :
    (∀ out ∈ service.sent C call, service.sent C call = [out] ∧ ∃ apiKey,
      service.apiKey call = some apiKey ∧
      chatCompletionsUrl service.urls service.upstream.baseUrl (call.inbound.query.getD "") =
        .ok out.url ∧ out.body = call.inbound.body ∧
      headerTexts out.headers = ("authorization", Str.asBytes ("Bearer " ++ apiKey)) ::
        ((clientHeaders call.inbound.headers).map (fun header => (header.1.asStr, header.2)) ++
          passedOn service.upstream.extraHeaders.asBytes)) ∧
    (service.sent C call ≠ [] ↔ ∃ apiKey url, service.apiKey call = some apiKey ∧
      service.upstream.Ready apiKey ∧
      chatCompletionsUrl service.urls service.upstream.baseUrl (call.inbound.query.getD "") =
        .ok url ∧ (post C call url).request = .ok ⟨url, [], []⟩) := by
  constructor
  · intro out hout
    obtain ⟨apiKey, hkey, hsends⟩ := (service.mem_sent_iff hclient hstream hplain).1 hout
    have hone : service.sent C call = [out] := by
      obtain ⟨other, hother⟩ := List.length_eq_one_iff.1
        (Nat.le_antisymm (service.sent_length_le call) (List.length_pos_of_mem hout))
      rw [hother] at hout ⊢
      rw [List.mem_singleton.1 hout]
    refine ⟨hone, apiKey, hkey, hsends.url, hsends.body, ?_⟩
    rw [← passedOn_selectedForwardHeaders]
    exact hsends.headers
  · have hspelled : ∀ apiKey, ∀ header ∈ (service.outgoing C call apiKey).headers, Spelled header :=
      fun _ => hheaders.spelled_select
    constructor
    · intro hne
      obtain ⟨out, hout⟩ := List.exists_mem_of_ne_nil _ hne
      obtain ⟨apiKey, hkey, hsends⟩ := (service.mem_sent_iff hclient hstream hplain).1 hout
      obtain ⟨⟨url, hurl, hpost⟩, hready⟩ := (sends_iff_ready (hspelled apiKey)).1 ⟨out, hsends⟩
      exact ⟨apiKey, url, hkey, hready, hurl, hpost⟩
    · rintro ⟨apiKey, url, hkey, hready, hurl, hpost⟩
      obtain ⟨out, hsends⟩ := (@sends_iff_ready _ (post C call) service.urls
        (service.outgoing C call apiKey) (hspelled apiKey)).2 ⟨⟨url, hurl, hpost⟩, hready⟩
      exact List.ne_nil_of_mem
        ((service.mem_sent_iff hclient hstream hplain).2 ⟨apiKey, hkey, hsends⟩)

/-- A client with a credential of its own. -/
theorem sent_iff_small :
    let C : RecordConfig := ⟨.exact, Sha256.digest, .default⟩
    let call := RecordCall.small "key" [(authorization, Str.asBytes "Bearer client"),
      (⟨"x-id", by decide, by decide⟩, Str.asBytes "7")] 0
    ∃ out, small.sent C call = [out] ∧ out.url = ⟨none, ["v1", "chat", "completions"], none⟩ ∧
      headerTexts out.headers = [("authorization", Str.asBytes "Bearer key"),
        ("x-id", Str.asBytes "7"), ("x-title", Str.asBytes "t")] := by
  intro C call
  have hheaders : call.inbound.headers.Wf :=
    ⟨by decide +kernel, by decide +kernel, by decide +kernel⟩
  obtain ⟨hsent, hne⟩ := small.sent_iff (C := C) call hheaders
    (HttpCrates.replying_lawful _) (HttpCrates.replying_lawful _) rfl
  have hready : small.upstream.Ready "key" :=
    ⟨by decide +kernel, by decide +kernel, by decide +kernel⟩
  obtain ⟨out, hout⟩ := List.exists_mem_of_ne_nil _ (hne.2 ⟨"key", _, rfl, hready, rfl, rfl⟩)
  obtain ⟨hone, apiKey, hkey, hurl, -, hheaders⟩ := hsent out hout
  obtain rfl : "key" = apiKey := Option.some.inj hkey
  exact ⟨out, hone, (Except.ok.inj hurl).symm, hheaders.trans (by decide +kernel)⟩

/-! ### What is recorded -/

variable (C) in
/-- The interaction tells of the request that went out for the call, and of the reply to it. -/
inductive Traffic (call : RecordCall Url) (i : Interaction) : Prop
  | buffered (out : OutboundRequest Url) (reply : UpstreamReply Bytes)
      (plain : streaming C call = false) (sent : service.sent C call = [out])
      (request : i.request = C.recordedRequest (C.observeRequest call.inbound))
      (replied : call.client.reply out = .ok ⟨reply.status, reply.headers, .ok reply.body⟩)
      (response : i.response = C.recordedResponse (C.observeResponse reply))
  | streamed (out : OutboundRequest Url) (reply : UpstreamReply (List (Except String Bytes)))
      (chunks : List Bytes) (completed : CompletedStream)
      (streams : streaming C call = true) (sent : service.sent C call = [out])
      (request : i.request = C.recordedRequest (C.observeRequest call.inbound))
      (replied : call.streamClient.reply out = .ok reply) (body : reply.body = chunks.map .ok)
      (parsed : SseParser.parseChunks C.json.fromStr chunks = .ok completed.events)
      (completes : StreamRecordingState.Completes reply.status
        (selectedResponseHeaders reply.headers) chunks completed.events completed)
      (response : i.response = C.recordedStream completed)

/-- **What is handed to the store answers a request that went out.** -/
theorem traffic_of_attempted {i : Interaction} (h : (service.exchange C call).attempted = some i) :
    service.Traffic C call i := by
  obtain ⟨apiKey, hkey⟩ : ∃ apiKey, service.apiKey call = some apiKey := by
    cases hkey : service.apiKey call with
    | none => simp [Exchange.attempted, exchange, hkey] at h
    | some apiKey => exact ⟨apiKey, rfl⟩
  have hgetD : (service.apiKey call).getD "" = apiKey := by rw [hkey]; rfl
  cases (service.exchange C call).attempted_cases h with
  | nonStream response metadata plain hsend =>
    obtain ⟨reply, hreply, rfl⟩ := (service.carries call).of_send hsend
    rw [send, hgetD] at hreply
    obtain ⟨out, hsent, hreplied⟩ := (sendChatCompletions_spec C _ _ _).2.2 reply hreply
    have hstreaming : streaming C call = false := plain
    refine .buffered out reply hstreaming ?_ rfl hreplied rfl
    simp only [sent, hkey, hstreaming, Bool.false_eq_true, if_false]
    exact hsent
  | stream response chunks completed metadata streams hstream body parsed completes received =>
    obtain ⟨reply, hreply, rfl⟩ := (service.carries call).of_stream hstream
    rw [stream, hgetD] at hreply
    obtain ⟨out, upstream, hsent, hreplied, rfl⟩ :=
      (streamChatCompletions_spec _ _ _).2.2 reply hreply
    have hstreaming : streaming C call = true := streams
    have hbody := upstreamChunks_eq_ok body
    refine .streamed out upstream chunks completed hstreaming ?_ rfl hreplied hbody parsed
      completes rfl
    simp only [sent, hkey, hstreaming, if_true]
    exact hsent

variable (C) in
/-- A service handles a call to its end. -/
def handle (r : Recorder) (call : RecordCall Url) : Recorder :=
  r.exchange C (service.exchange C call)

/-- What a run adds was handed over by some of the calls, one by each, in their order. -/
theorem exists_persisted {r : Recorder} (hlock : r.poisoned = false)
    (calls : List (RecordCall Url)) :
    ∃ persisted : List (RecordCall Url × Interaction),
      (persisted.map Prod.fst).Sublist calls ∧
      (Runs.run (service.handle C) r calls).store.cassette.interactions =
        r.store.cassette.interactions ++ persisted.map Prod.snd ∧
      ∀ p ∈ persisted, (service.exchange C p.1).attempted = some p.2 := by
  induction calls generalizing r with
  | nil => exact ⟨[], .slnil, by simp, by simp⟩
  | cons call calls ih =>
    obtain ⟨hlock', hcases⟩ := Recorder.exchange_cases hlock (service.exchange C call)
    obtain ⟨persisted, hsublist, hinteractions, hattempted⟩ := @ih (service.handle C r call) hlock'
    rw [Runs.run_cons, hinteractions]
    rcases hcases with ⟨i, hpersists, hstore, -⟩ | ⟨-, hstore, -⟩
    · refine ⟨(call, i) :: persisted, hsublist.cons_cons call, ?_, ?_⟩
      · rw [handle, hstore]
        simp
      · exact List.forall_mem_cons.2 ⟨hpersists.1, hattempted⟩
    · refine ⟨persisted, hsublist.cons call, ?_, hattempted⟩
      rw [handle, hstore]

/-- **The cassette is extended by upstream traffic, and by nothing else.**  Along every run of a
service, whatever fails, the interactions that are added belong to some of the calls, one to each,
in their order.  Each tells of the one request that went out for its call, and of the reply to that
request: its request is the client's, and its response has the status and the headers of the reply,
less those that are redacted, with the body, or with the whole transcript of the stream and the
events in it. -/
theorem recorded_is_traffic {r : Recorder} (hlock : r.poisoned = false)
    (calls : List (RecordCall Url)) :
    ∃ persisted : List (RecordCall Url × Interaction),
      (persisted.map Prod.fst).Sublist calls ∧
      (Runs.run (service.handle C) r calls).store.cassette.interactions =
        r.store.cassette.interactions ++ persisted.map Prod.snd ∧
      ∀ p ∈ persisted, service.Traffic C p.1 p.2 := by
  obtain ⟨persisted, hsublist, hinteractions, hattempted⟩ := service.exists_persisted hlock calls
  exact ⟨persisted, hsublist, hinteractions, fun p hp =>
    service.traffic_of_attempted (hattempted p hp)⟩

/-- A call that is recorded. -/
theorem recorded_is_traffic_small :
    let C : RecordConfig := ⟨.exact, Sha256.digest, .default⟩
    let r : Recorder := ⟨fun _ => none, ⟨"c.json", .new⟩, false, 0, 0⟩
    let call := RecordCall.small "key" [] 0
    ∃ i, (small.handle C r call).store.cassette.interactions = [i] ∧ small.Traffic C call i := by
  intro C r call
  obtain ⟨j, hj⟩ : ∃ j, (small.exchange C call).attempted = some j :=
    Option.isSome_iff_exists.1 (by decide +kernel)
  have hpersists := Recorder.persists_none (C := C) (r := r) rfl rfl hj
  obtain ⟨-, hstore, -⟩ := Recorder.exchange_of_persists rfl hpersists
  obtain ⟨persisted, hsublist, hinteractions, htraffic⟩ :=
    small.recorded_is_traffic (C := C) (r := r) rfl [call]
  have hone : persisted.map Prod.snd = [j] := by
    have hrun : (small.handle C r call).store.cassette.interactions = [j] := by
      rw [handle, hstore]
      rfl
    exact hinteractions.symm.trans hrun
  obtain ⟨⟨other, i⟩, rfl, hi⟩ := List.map_eq_singleton_iff.1 hone
  obtain rfl : other = call := List.mem_singleton.1 (hsublist.subset (List.mem_singleton_self _))
  exact ⟨i, hinteractions, htraffic _ (List.mem_singleton_self _)⟩

/-- **Offsets run with the session.**  Along every run of a service whose calls come in one after
another, whatever fails, the offsets of the interactions that are added do not go back: each is the
time from the start of the session to the start of its call, in whole milliseconds.  All of them
name the protocol and the upstream of the service. -/
theorem offsets_in_order {r : Recorder} (hlock : r.poisoned = false) (calls : List (RecordCall Url))
    (hstarts : (calls.map RecordCall.interactionStart).Pairwise (· ≤ ·)) :
    ∃ persisted : List (RecordCall Url × Interaction),
      (persisted.map Prod.fst).Sublist calls ∧
      (Runs.run (service.handle C) r calls).store.cassette.interactions =
        r.store.cassette.interactions ++ persisted.map Prod.snd ∧
      (persisted.map fun p => p.2.metadata.relativeOffsetMs).Pairwise (· ≤ ·) ∧
      ∀ p ∈ persisted, p.2.metadata.protocolId = chatCompletionsProtocolId ∧
        p.2.metadata.upstreamId = upstreamId service.metadata.upstreamKind ∧
        p.1.nowRfc3339 = .ok p.2.metadata.recordedAt ∧
        p.2.metadata.relativeOffsetMs.toNat =
          (p.1.interactionStart - service.metadata.sessionStart) / 1000000 := by
  obtain ⟨persisted, hsublist, hinteractions, hattempted⟩ := service.exists_persisted hlock calls
  have hcreated : ∀ p ∈ persisted, _ := fun p hp =>
    SessionMetadata.createAt_eq_ok_iff.1 (Exchange.metadata_of_attempted (hattempted p hp))
  refine ⟨persisted, hsublist, hinteractions, ?_, hcreated⟩
  have hsorted := hstarts.sublist (hsublist.map RecordCall.interactionStart)
  rw [List.map_map, List.pairwise_map] at hsorted
  rw [List.pairwise_map]
  refine hsorted.imp_of_mem fun hp hq hle => ?_
  rw [UInt64.le_iff_toNat_le, (hcreated _ hp).2.2.2, (hcreated _ hq).2.2.2]
  exact Nat.div_le_div_right (Nat.sub_le_sub_right hle _)

/-- A call from before the session and one 4 milliseconds into it. -/
theorem offsets_in_order_small :
    let C : RecordConfig := ⟨.exact, Sha256.digest, .default⟩
    let r : Recorder := ⟨fun _ => none, ⟨"c.json", .new⟩, false, 0, 0⟩
    let calls := [RecordCall.small "key" [] 0, RecordCall.small "key" [] 5000000]
    ((Runs.run (small.handle C) r calls).store.cassette.interactions.map fun i =>
      i.metadata.relativeOffsetMs).Pairwise (· ≤ ·) := by
  intro C r calls
  obtain ⟨persisted, -, hinteractions, hsorted, -⟩ :=
    small.offsets_in_order (C := C) (r := r) rfl calls (by decide)
  rw [hinteractions]
  simpa [r, Cassette.new, List.map_map, Function.comp_def] using hsorted

end RecordService

end SpycatcherHarness
