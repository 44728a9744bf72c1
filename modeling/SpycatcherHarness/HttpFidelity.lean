import SpycatcherHarness.Fidelity
import SpycatcherHarness.Replay.Reordered
import SpycatcherHarness.Server.ReplayHandler

/-!
# Replay over HTTP

What a client is sent in replay mode, against what the client of the recorded exchange was sent: the
same status, the headers that are not redacted, the same body, or a stream of the same events.

* `HttpExchange.replayedAs` : the response that is built from the recording of an exchange.
* `session_replayed_over_http` : the responses to a whole session, in recorded order.
* `session_replayed_in_any_order` : the same in keyed mode, in any order.
-/

namespace SpycatcherHarness

open Files Store

variable {C : RecordConfig}

/-! ### One exchange -/

/-- What replay sends of the headers of a response: those that are not redacted, with the bytes of
what was recorded of their values. -/
def replayedTexts (redaction : RedactionConfig) (headers : List (String × Bytes)) :
    List (String × Bytes) :=
  (headers.filter fun header => shouldPersistHeader header.1 redaction).map fun header =>
    (header.1, Str.asBytes (headerValueString header.2))

/-- A value that is text is sent as it was. -/
theorem asBytes_headerValueString {value : Bytes} (h : (headerToStr value).isSome) :
    Str.asBytes (headerValueString value) = value := by
  obtain ⟨s, hs⟩ := Option.isSome_iff_exists.1 h
  rw [headerValueString, hs, Option.getD_some, asBytes_of_headerToStr hs]

/-- The redacted selection of a header map, as replay sends it. -/
theorem headerBytes_redact (redaction : RedactionConfig) (headers : HeaderMap)
    {excluded : List String} (hlower : excluded.map toAsciiLowercase = excluded) :
    headerBytes (redactHeaders (selectedHeaders headers excluded) redaction) =
      replayedTexts redaction ((headers.filter fun header =>
        Permitted headers excluded header.1).map fun header => (header.1.asStr, header.2)) := by
  rw [selectedHeaders, selectHeadersUnified_eq headers hlower, headerBytes, redactHeaders,
    replayedTexts, List.filter_map, List.filter_map, List.map_map, List.map_map]
  rfl

/-- A response of replay, against what the client of the exchange was sent. -/
structure HttpExchange.ReplayedAs (x : HttpExchange C) (response : Response Body) : Prop where
  status : response.status = x.plainAnswer.status
  /-- The headers are the recorded ones; a stream without a content type gets one. -/
  headers :
    let texts := replayedTexts C.redaction (headerTexts x.plainAnswer.headers)
    headerTexts response.headers =
      if x.streaming ∧ "content-type" ∉ texts.map Prod.fst then
        texts ++ [("content-type", Str.asBytes "text/event-stream")]
      else texts
  buffered : x.streaming = false → x.plainAnswer.body = [.ok response.body.bytes]
  /-- The client reads the events that it read before. -/
  stream : x.streaming = true → ∃ chunks events, x.plainAnswer.body = List.map .ok chunks ∧
    SseParser.parse C.json.fromStr chunks.flatten = .ok events ∧
    SseParser.parse C.json.fromStr response.body.bytes = .ok events

/-! ### Headers that are sent -/

/-- A header whose name is absent is inserted at the end. -/
theorem headerTexts_insertHeader {headers : ResponseHeaders} {name : HeaderName}
    (value : HeaderValue) (h : name.asStr ∉ (headerTexts headers).map Prod.fst) :
    headerTexts (insertHeader headers name value) =
      headerTexts headers ++ [(name.asStr, value.bytes)] := by
  induction headers with
  | nil => rfl
  | cons header headers ih =>
    have hcons : headerTexts (header :: headers) =
        (header.1.asStr, header.2.bytes) :: headerTexts headers := rfl
    rw [hcons, List.map_cons, List.mem_cons, not_or] at h
    rw [insertHeader, if_neg (Ne.symm h.1), hcons, List.cons_append, ← ih h.2]
    rfl

/-- The names of the headers that are sent are those of the texts. -/
theorem valuesOf_contentType_eq_nil_iff {headers : List (String × Bytes)}
    (h : headerTexts (collectHeaders headers) = headers) :
    valuesOf (headers.filterMap validHeader) contentType = [] ↔
      "content-type" ∉ headers.map Prod.fst := by
  have hnames : headers.map Prod.fst =
      (collectHeaders headers).map fun header => header.1.asStr := by
    nth_rewrite 1 [← h]
    rw [headerTexts, List.map_map]
    rfl
  rw [← valuesOf_collectHeaders, valuesOf_eq_nil_iff, hnames, List.mem_map, not_exists]
  refine forall_congr' fun header => ?_
  rw [not_and]
  rfl

/-- What is sent of headers that are headers, and of which those of a name stand together. -/
theorem headerTexts_buildReplayResponse {response : ReplayResponse}
    (hspelled : ∀ header ∈ headerBytes response.headers, Spelled header)
    (hgrouped : Grouped ((headerBytes response.headers).map Prod.fst)) :
    headerTexts (buildReplayResponse response).headers =
      if response.body.isStream ∧ "content-type" ∉ (headerBytes response.headers).map Prod.fst then
        headerBytes response.headers ++ [("content-type", Str.asBytes "text/event-stream")]
      else headerBytes response.headers := by
  have hkept := headerTexts_collectHeaders hspelled hgrouped
  have habsent := valuesOf_contentType_eq_nil_iff hkept
  unfold buildReplayResponse
  rw [foldl_addReplayHeader]
  simp only [Bool.not_not, Bool.and_eq_true, List.isEmpty_iff, habsent]
  split_ifs with h
  · rw [headerTexts_insertHeader textEventStream (by rw [hkept]; exact h.2), hkept]
    rfl
  · exact hkept

/-- The same for what is recorded of a reply's headers, against what its client was sent. -/
theorem headerTexts_replayed {headers : HeaderMap} (hwf : headers.Wf) (redaction : RedactionConfig)
    {response : ReplayResponse}
    (hheaders : response.headers = redactHeaders (selectedResponseHeaders headers) redaction) :
    let texts := replayedTexts redaction
      (headerTexts (collectHeaders (selectedResponseProxyHeaders headers)))
    headerTexts (buildReplayResponse response).headers =
      if response.body.isStream ∧ "content-type" ∉ texts.map Prod.fst then
        texts ++ [("content-type", Str.asBytes "text/event-stream")]
      else texts := by
  intro texts
  have hsent : headerTexts (collectHeaders (selectedResponseProxyHeaders headers)) =
      selectedResponseProxyHeaders headers :=
    headerTexts_collectHeaders hwf.spelled_select (hwf.grouped_select id)
  have htexts : headerBytes response.headers = texts := by
    rw [hheaders, selectedResponseHeaders, headerBytes_redact redaction headers lower_responseOnly]
    simp only [texts, hsent]
    rw [selectedResponseProxyHeaders, selectedHeaderBytes,
      selectHeadersUnified_eq headers lower_responseOnly]
    rfl
  have hspelled : ∀ header ∈ headerBytes response.headers, Spelled header := by
    intro header hheader
    obtain ⟨recorded, hrecorded, rfl⟩ := List.mem_map.1 hheader
    rw [hheaders] at hrecorded
    exact hwf.spelled_recorded recorded (List.mem_filter.1 hrecorded).1
  have hgrouped : Grouped ((headerBytes response.headers).map Prod.fst) := by
    have hnames : (headerBytes response.headers).map Prod.fst =
        ((selectedResponseHeaders headers).map Prod.fst).filter fun name =>
          shouldPersistHeader name redaction := by
      rw [hheaders, headerBytes, redactHeaders, List.filter_map, List.map_map]
      rfl
    rw [hnames]
    exact (hwf.grouped_select headerValueString).filter _
  rw [← htexts]
  exact headerTexts_buildReplayResponse hspelled hgrouped

/-! ### What replay builds of a recording -/

namespace HttpExchange

variable {x : HttpExchange C} {i : Interaction}

/-- An exchange without a credential hands nothing to the store. -/
theorem apiKey_of_attempted (h : x.exchange.attempted = some i) : x.exchange.apiKey.isSome := by
  unfold Exchange.attempted at h
  split_ifs at h with hkey <;>
  · rw [Option.isNone_iff_eq_none] at hkey
    exact Option.ne_none_iff_isSome.1 hkey

theorem plainAnswer_of_send (hkey : x.exchange.apiKey.isSome) (hplain : x.streaming = false)
    {reply : UpstreamReply Bytes} (hsend : x.send = .ok reply) :
    x.plainAnswer = PlainProxy.passOn reply [.ok reply.body] := by
  unfold plainAnswer PlainProxy.answer
  rw [hkey, if_neg (by decide), hplain, if_neg (by decide), hsend]

theorem plainAnswer_of_stream (hkey : x.exchange.apiKey.isSome) (hstreaming : x.streaming = true)
    {reply : UpstreamReply (List (HarnessResult Bytes))} (hstream : x.stream = .ok reply) :
    x.plainAnswer = PlainProxy.passOn reply
      ((delivered reply.body).take x.exchange.times.length) := by
  unfold plainAnswer PlainProxy.answer
  rw [hkey, if_neg (by decide), hstreaming, if_pos rfl, hstream]

/-- **The recording of an exchange answers its request over HTTP** as its client was answered. -/
theorem replayedAs (h : x.exchange.Recorded i) :
    ∃ response, responseFromRecorded i.response
        (isStreamingChatCompletionsRequest x.exchange.request.parsedJson) = .ok response ∧
      x.ReplayedAs (buildReplayResponse response) := by
  obtain ⟨j, hj, -⟩ := id h
  have hkey := apiKey_of_attempted hj
  obtain ⟨-, response, hresponse, hfaithful⟩ := h.answer
  refine ⟨response, hresponse, ?_⟩
  cases hfaithful with
  | buffered upstream plain send =>
    obtain ⟨reply, hsend, rfl⟩ := x.carries.of_send send
    have hstreaming : x.streaming = false := plain
    have hplain := plainAnswer_of_send hkey hstreaming hsend
    refine ⟨?_, ?_, fun _ => ?_, fun htrue => ?_⟩
    · rw [hplain]
      rfl
    · rw [hplain, hstreaming]
      exact headerTexts_replayed (x.sendWf reply hsend) C.redaction rfl
    · rw [hplain]
      rfl
    · rw [hstreaming] at htrue
      cases htrue
  | stream upstream chunks events replayed streaming stream body parsed same =>
    obtain ⟨reply, hstream, rfl⟩ := x.carries.of_stream stream
    have hstreaming : x.streaming = true := streaming
    have hplain := plainAnswer_of_stream hkey hstreaming hstream
    refine ⟨?_, ?_, fun hfalse => ?_, fun _ => ⟨chunks, events, ?_, parsed, ?_⟩⟩
    · rw [hplain]
      rfl
    · rw [hplain, hstreaming]
      exact headerTexts_replayed (x.streamWf reply hstream) C.redaction rfl
    · rw [hstreaming] at hfalse
      cases hfalse
    · rw [hplain]
      -- a stream is handed to the store only when its client has read all of it
      cases x.exchange.attempted_cases hj with
      | nonStream _ _ plain =>
        rw [streaming] at plain
        cases plain
      | stream up chunks' completed _ _ stream' body' _ _ received =>
        obtain rfl : observeStream reply = up := Except.ok.inj (stream.symm.trans stream')
        obtain rfl := Recording.map_ok_injective (body.symm.trans body')
        have hreceived := (Recording.after_run x.exchange.request (observeStream reply)
          x.exchange.started (x.exchange.clockRuns _ stream)).received_eq
        exact hreceived.symm.trans received
    · rw [show (buildReplayResponse _).body.bytes = (ReplayBody.events replayed).render.bytes from
        rfl, ReplayBody.bytes_render]
      show SseParser.parse C.json.fromStr (serializeEvents replayed) = .ok events
      rw [serializeEvents_congr same]
      exact SseParser.parse_serializeEvents (SseParser.emitted_of_parse parsed)

end HttpExchange

/-! ### Whole sessions -/

/-- The responses of replay mode to requests, one after another. -/
def httpReplays (S : SerdeJson) (sha256 : Bytes → Bytes) (service : ReplayService)
    (inbounds : List InboundRequest) : List (Response Body) :=
  Runs.collect (replayed S sha256)
    (fun service inbound => [(replayChatCompletionsHandler S sha256 service inbound).1]) service
    inbounds

/-- Replay does not look at the headers that are forwarded. -/
theorem HttpExchange.handle_inbound (x : HttpExchange C) (service : ReplayService) :
    service.handleChatCompletions C.sha256 (observeReplayRequest C.json x.inbound) =
      service.handleChatCompletions C.sha256 x.exchange.request := by
  rw [x.carries.request, ReplayService.handleChatCompletions_eq,
    ReplayService.handleChatCompletions_eq]
  rfl

/-- The responses to the requests of exchanges are built from the answers of the service. -/
theorem httpReplays_of_answers {R : HttpExchange C → Response Body → Prop}
    {xs : List (HttpExchange C)} {service : ReplayService}
    (h : List.Forall₂ (fun x answer => ∃ response, answer = .ok response ∧
      R x (buildReplayResponse response)) xs
      (ReplayService.answers C.sha256 service (xs.map fun x => x.exchange.request))) :
    List.Forall₂ R xs
      (httpReplays C.json C.sha256 service (xs.map HttpExchange.inbound)) := by
  induction xs generalizing service with
  | nil => exact .nil
  | cons x xs ih =>
    obtain ⟨_, _, ⟨response, hok, hR⟩, hrest, hanswers⟩ := List.forall₂_cons_left_iff.1 h
    obtain ⟨rfl, rfl⟩ := List.cons.inj hanswers
    have hresponse : (replayChatCompletionsHandler C.json C.sha256 service x.inbound).1 =
        buildReplayResponse response := by
      unfold replayChatCompletionsHandler
      rw [x.handle_inbound]
      split
      · rename_i hfound
        rw [hfound] at hok
        rw [Except.ok.inj hok]
      · rename_i hfound
        rw [hfound] at hok
        cases hok
    have hnext : replayed C.json C.sha256 service x.inbound =
        ReplayService.step C.sha256 service x.exchange.request := by
      rw [replayed_eq, x.handle_inbound]
      rfl
    refine .cons (hresponse ▸ hR) ?_
    rw [← hnext] at hrest
    exact ih hrest

variable {fileName : String} {dir : Dir String} {es : List (Site.Event C)}
  {xs : List (HttpExchange C)} {c : Cassette}

/-- What a run of record services leaves of the exchanges that it persists. -/
theorem recordings_of_session (hjson : C.json.Lawful)
    (hempty : ∀ c, Session.decoded C.json fileName dir = some c → c.interactions = [])
    (hxs : xs.map HttpExchange.exchange =
      Runs.collect (Site.step C fileName) Site.persisted (.closed dir) es)
    (hreload : Session.decoded C.json fileName
      (Runs.run (Site.step C fileName) (.closed dir) es).dir = some c) :
    (∀ mode, ∃ engine, ReplayMatchEngine.new c mode = .ok engine) ∧
      List.Forall₂ (fun x i =>
        i.request.stableHash = some (ReplayService.hashOf C.sha256 x.exchange.request) ∧
        ∃ response, responseFromRecorded i.response
          (isStreamingChatCompletionsRequest x.exchange.request.parsedJson) = .ok response ∧
          x.ReplayedAs (buildReplayResponse response)) xs c.interactions := by
  have hholds := (Site.holds_run hjson hempty es).file.decoded c hreload
  refine ⟨hholds.exists_new, ?_⟩
  rw [Cassette.Holds, ← hxs, List.forall₂_map_left_iff] at hholds
  exact hholds.imp fun x i hx => ⟨hx.stableHash_eq, HttpExchange.replayedAs hx⟩

/-- **A session over HTTP.**  Any number of record services run in a directory that began without
interactions, whatever fails while they do, and the cassette is loaded.  Then replay in sequential
mode answers the requests of the exchanges that were persisted, all of them JSON, as their clients
were answered: with the same status, the headers that are not redacted, and the same body, or a
stream of the same events. -/
theorem session_replayed_over_http (hjson : C.json.Lawful)
    (hempty : ∀ c, Session.decoded C.json fileName dir = some c → c.interactions = [])
    (hxs : xs.map HttpExchange.exchange =
      Runs.collect (Site.step C fileName) Site.persisted (.closed dir) es)
    (hbodies : ∀ x ∈ xs, x.exchange.request.parsedJson.isSome)
    (hreload : Session.decoded C.json fileName
      (Runs.run (Site.step C fileName) (.closed dir) es).dir = some c) :
    ∃ engine, ReplayMatchEngine.new c .sequentialStrict = .ok engine ∧
      List.Forall₂ HttpExchange.ReplayedAs xs
        (httpReplays C.json C.sha256 (.new engine) (xs.map HttpExchange.inbound)) := by
  obtain ⟨hnew, hrecorded⟩ := recordings_of_session hjson hempty hxs hreload
  obtain ⟨engine, hengine⟩ := hnew .sequentialStrict
  exact ⟨engine, hengine, httpReplays_of_answers
    (ReplayService.answers_new C.sha256 hbodies hengine hrecorded).1⟩

/-- A stream without a content type is replayed with one. -/
theorem session_replayed_over_http_stream :
    let C : RecordConfig := ⟨.exact, Sha256.digest, .default⟩
    let w : Json := .object [("stream", .bool true)]
    let inbound : InboundRequest := ⟨none, [], SerdeJson.exact.toWriterPretty w⟩
    let chunks := [Str.asBytes "data: a\n", Str.asBytes "\n"]
    let reply : UpstreamReply (List (HarnessResult Bytes)) :=
      ⟨200, [(⟨"x-id", by decide, by decide⟩, Str.asBytes "1")], chunks.map .ok⟩
    let y : HttpExchange C :=
      { exchange :=
          { request := C.observeRequest inbound
            apiKey := some "key"
            send := .error (.io .other)
            stream := .ok (observeStream reply)
            metadata := .ok ⟨"chat", "up", "now", 0⟩
            started := 5
            times := [5, 7000000, 9000000]
            faults := .none
            observed := C.observes_observeRequest inbound
            observedResponse := by rintro _ ⟨⟩
            clockRuns := by rintro _ ⟨⟩; decide +kernel }
        inbound
        send := .error (.io .other)
        stream := .ok reply
        carries := ⟨rfl, rfl, rfl⟩
        inboundWf := ⟨by simp [inbound], by simp [inbound], trivial⟩
        sendWf := by rintro _ ⟨⟩
        streamWf := by rintro _ ⟨⟩; exact ⟨by decide, by decide, by decide⟩ }
    ∃ engine response,
      httpReplays C.json C.sha256 (.new engine) [y.inbound] = [response] ∧
        headerTexts response.headers =
          [("x-id", Str.asBytes "1"), ("content-type", Str.asBytes "text/event-stream")] ∧
        SseParser.parse C.json.fromStr response.body.bytes = .ok [.data "a" none] := by
  intro C w inbound chunks reply y
  have hw : y.exchange.request.parsedJson = some w :=
    y.parsedJson_eq.trans (SerdeJson.exact_reads (by decide) (by decide))
  have hstreaming : y.streaming = true := by
    unfold HttpExchange.streaming
    rw [hw]
    rfl
  have hparse : SseParser.parse C.json.fromStr chunks.flatten = .ok [.data "a" none] := by
    decide +kernel
  have hshallow : y.exchange.Shallow := by
    refine ⟨fun v hv => ?_, fun hplain => ?_, ?_⟩
    · obtain rfl : w = v := Option.some.inj (hw.symm.trans hv)
      decide
    · exact absurd (hstreaming.symm.trans hplain) (by decide)
    · rintro - _ chunks' events ⟨⟩ hbody hparsed
      obtain rfl := Recording.map_ok_injective hbody
      obtain rfl := Except.ok.inj (hparse.symm.trans hparsed)
      rintro e he
      obtain rfl := List.mem_singleton.1 he
      exact fun v hv => by cases hv
  have hattempted : y.exchange.attempted.isSome := by decide +kernel
  obtain ⟨hcollect, c, hc⟩ := @Site.recorded_session C "c.json" SerdeJson.exact_lawful
    (fun _ => none) rfl _ (List.forall_mem_singleton.2 ⟨rfl, hattempted, hshallow⟩)
  obtain ⟨engine, -, hreplays⟩ := @session_replayed_over_http C _ _ _ [y] c
    SerdeJson.exact_lawful (fun c hc => by simp [Session.decoded, content] at hc) hcollect.symm
    (List.forall_mem_singleton.2 (Option.isSome_of_eq_some hw)) hc
  obtain ⟨response, _, hreplayed, hnil, hresponses⟩ := List.forall₂_cons_left_iff.1 hreplays
  obtain rfl := List.forall₂_nil_left_iff.1 hnil
  refine ⟨engine, response, hresponses, ?_, ?_⟩
  · have hheaders := hreplayed.headers
    rw [hstreaming] at hheaders
    refine hheaders.trans ?_
    decide +kernel
  · obtain ⟨chunks', events, hbody, hparsed, hread⟩ := hreplayed.stream hstreaming
    obtain rfl : chunks = chunks' := by
      refine Recording.map_ok_injective (Eq.trans ?_ hbody)
      decide +kernel
    rw [← Except.ok.inj (hparse.symm.trans hparsed)] at hread
    exact hread

/-- **A session in any order.**  In keyed mode the same holds of the requests of a session in any
order, and of any part of them, as long as those with one hash come in recorded order and none of
these is left out in between. -/
theorem session_replayed_in_any_order (hjson : C.json.Lawful)
    (hempty : ∀ c, Session.decoded C.json fileName dir = some c → c.interactions = [])
    (hxs : xs.map HttpExchange.exchange =
      Runs.collect (Site.step C fileName) Site.persisted (.closed dir) es)
    (hbodies : ∀ x ∈ xs, x.exchange.request.parsedJson.isSome)
    (hreload : Session.decoded C.json fileName
      (Runs.run (Site.step C fileName) (.closed dir) es).dir = some c)
    {ys : List (HttpExchange C)}
    (horder : ∀ hash,
      (ys.filter fun y => ReplayService.hashOf C.sha256 y.exchange.request = hash) <+:
        xs.filter fun x => ReplayService.hashOf C.sha256 x.exchange.request = hash) :
    ∃ engine, ReplayMatchEngine.new c .keyed = .ok engine ∧
      List.Forall₂ HttpExchange.ReplayedAs ys
        (httpReplays C.json C.sha256 (.new engine) (ys.map HttpExchange.inbound)) := by
  obtain ⟨hnew, hrecorded⟩ := recordings_of_session hjson hempty hxs hreload
  obtain ⟨engine, hengine⟩ := hnew .keyed
  have hbodies' : ∀ y ∈ ys, y.exchange.request.parsedJson.isSome := by
    intro y hy
    have hmem := (horder _).subset (List.mem_filter.2 ⟨hy, decide_eq_true rfl⟩)
    exact hbodies y (List.mem_filter.1 hmem).1
  refine ⟨engine, hengine, httpReplays_of_answers ?_⟩
  exact @ReplayService.answers_keyed _ _ _ _ _ _ _ [] _ hbodies' hrecorded horder rfl
    (ReplayMatchEngine.Keyed.inv_new hengine)

/-- Two requests are replayed in the other order. -/
theorem session_replayed_in_any_order_swapped :
    let C : RecordConfig := ⟨.exact, Sha256.digest, .default⟩
    let asks : String → InboundRequest := fun model =>
      ⟨none, [], SerdeJson.exact.toWriterPretty (.object [("model", .string model)])⟩
    let reply : UpstreamReply Bytes := ⟨200, [], SerdeJson.exact.toWriterPretty .null⟩
    let x : String → HttpExchange C := fun model =>
      { exchange :=
          { request := C.observeRequest (asks model)
            apiKey := some "key"
            send := .ok (C.observeResponse reply)
            stream := .error (.io .other)
            metadata := .ok ⟨"chat", "up", "now", 0⟩
            started := 0
            times := []
            faults := .none
            observed := C.observes_observeRequest (asks model)
            observedResponse := by rintro _ ⟨⟩; exact C.observes_observeResponse reply
            clockRuns := by rintro _ ⟨⟩ }
        inbound := asks model
        send := .ok reply
        stream := .error (.io .other)
        carries := ⟨rfl, rfl, rfl⟩
        inboundWf := ⟨by simp [asks], by simp [asks], trivial⟩
        sendWf := by rintro _ ⟨⟩; exact ⟨by simp [reply], by simp [reply], trivial⟩
        streamWf := by rintro _ ⟨⟩ }
    ∃ engine, engine.mode = .keyed ∧ List.Forall₂ HttpExchange.ReplayedAs [x "b", x "a"]
      (httpReplays C.json C.sha256 (.new engine) [asks "b", asks "a"]) := by
  intro C asks reply x
  have hjson : ∀ model, (x model).exchange.request.parsedJson =
      some (.object [("model", .string model)]) := fun model =>
    (x model).parsedJson_eq.trans (SerdeJson.exact_reads (Json.wf_object.2 (by simp [Json.Wf]))
      (Json.depth_object_le.2 (by simp)))
  have hnull : C.parseJsonBytes reply.body = some .null :=
    SerdeJson.exact_reads (by decide) (by decide)
  have hplain : ∀ model, isStreamingChatCompletionsRequest
      (x model).exchange.request.parsedJson = false := by
    intro model
    rw [hjson]
    rfl
  have hattempted : ∀ model, (x model).exchange.attempted.isSome := fun model =>
    Option.isSome_of_eq_some ((x model).exchange.attempted_buffered rfl (hplain model) rfl rfl)
  have hshallow : ∀ model, (x model).exchange.Shallow := by
    intro model
    refine ⟨fun v hv => ?_, ?_, fun hstreaming => ?_⟩
    · obtain rfl := Option.some.inj ((hjson model).symm.trans hv)
      exact Json.depth_object_le.2 (by simp)
    · rintro - _ ⟨⟩ v hv
      obtain rfl := Option.some.inj (hnull.symm.trans hv)
      decide
    · exact absurd (hstreaming.symm.trans (hplain model)) (by decide)
  obtain ⟨hcollect, c, hc⟩ := @Site.recorded_session C "c.json" SerdeJson.exact_lawful
    (fun _ => none) rfl [(x "a").exchange, (x "b").exchange]
    (by simp [hattempted, hshallow, x])
  have hne : ReplayService.hashOf C.sha256 (x "a").exchange.request ≠
      ReplayService.hashOf C.sha256 (x "b").exchange.request := by decide +kernel
  obtain ⟨engine, hengine, hreplays⟩ := @session_replayed_in_any_order C _ _ _ [x "a", x "b"] c
    SerdeJson.exact_lawful (fun c hc => by simp [Session.decoded, content] at hc) hcollect.symm
    (by simp [hjson]) hc [x "b", x "a"] (fun hash => by
      simp only [List.filter_cons, List.filter_nil]
      by_cases ha : ReplayService.hashOf C.sha256 (x "a").exchange.request = hash
      · have hb : ¬ ReplayService.hashOf C.sha256 (x "b").exchange.request = hash :=
          fun hb => hne (ha.trans hb.symm)
        simp [ha, hb]
      · simp [ha])
  exact ⟨engine, (ReplayMatchEngine.new_frame hengine).2.1, hreplays⟩

end SpycatcherHarness
