import SpycatcherHarness.Replay
import SpycatcherHarness.Server.History

/-!
# What was recorded is what is replayed

A session is recorded by one service and its cassette is loaded again.  The same requests are then
all answered, each with what its exchange brought; a further request is told that the cassette is
exhausted.

* `Exchange.Recorded.answer` : what a recorded interaction answers to its own request.
* `Exchange.Faithful.render_bytes` : the bytes of such an answer.
* `replay_of_recorded` : the answers to a whole session.
-/

namespace SpycatcherHarness

open Files Store

variable {C : RecordConfig}

namespace Exchange

/-- A response carries what the exchange brought: the upstream status, the headers less those that
are redacted, and the body, or the comments and the payloads of the stream. -/
inductive Faithful (x : Exchange C) : ReplayResponse → Prop
  | buffered (upstream : ObservedResponse)
      (plain : isStreamingChatCompletionsRequest x.request.parsedJson = false)
      (send : x.send = .ok upstream) :
      Faithful x ⟨upstream.status, redactHeaders upstream.headers C.redaction,
        .oneShot upstream.body⟩
  | stream (upstream : StreamingObservedResponse) (chunks : List Bytes)
      (events replayed : List StreamEvent)
      (streaming : isStreamingChatCompletionsRequest x.request.parsedJson = true)
      (stream : x.stream = .ok upstream) (body : upstream.body = chunks.map .ok)
      (parsed : SseParser.parse C.json.fromStr chunks.flatten = .ok events)
      (same : replayed.map StreamEvent.bare = events.map StreamEvent.bare) :
      Faithful x ⟨upstream.status, redactHeaders upstream.headers C.redaction, .events replayed⟩

/-- A recorded interaction has the hash of its request, and answers it with what was recorded. -/
theorem Recorded.answer {x : Exchange C} {i : Interaction} (h : x.Recorded i) :
    i.request.stableHash = some (ReplayService.hashOf C.sha256 x.request) ∧
      ∃ response, responseFromRecorded i.response
        (isStreamingChatCompletionsRequest x.request.parsedJson) = .ok response ∧
        x.Faithful response := by
  refine ⟨h.stableHash_eq, ?_⟩
  obtain ⟨j, hj, hkept⟩ := h
  have hresponse := hkept.response
  -- what was read back has the shape of what was handed over
  cases hi : i.response with
  | nonStream status headers body p =>
    rw [hi] at hresponse
    cases x.attempted_cases hj with
    | nonStream upstream metadata plain send =>
      obtain ⟨rfl, rfl, rfl⟩ : status = upstream.status ∧
          headers = redactHeaders upstream.headers C.redaction ∧ body = upstream.body := by
        simpa [RecordedResponse.bare, RecordConfig.recordedResponse, eq_comm] using hresponse
      exact ⟨_, by rw [plain]; rfl, .buffered upstream plain send⟩
    | stream => simp [RecordedResponse.bare, RecordConfig.recordedStream] at hresponse
  | stream status headers replayed rawTranscript timing =>
    rw [hi] at hresponse
    cases x.attempted_cases hj with
    | nonStream => simp [RecordedResponse.bare, RecordConfig.recordedResponse] at hresponse
    | stream upstream chunks completed metadata streaming stream body parsed completes =>
      simp only [RecordedResponse.bare, RecordConfig.recordedStream,
        RecordedResponse.stream.injEq] at hresponse
      obtain ⟨hstatus, hheaders, hevents, -⟩ := hresponse
      rw [SseParser.parseChunks_eq_parse] at parsed
      rw [completes.status] at hstatus
      rw [completes.headers] at hheaders
      subst hstatus hheaders
      exact ⟨_, rfl, .stream upstream chunks completed.events replayed streaming stream body
        parsed hevents.symm⟩

end Exchange

/-- A cassette that holds exchanges can be replayed. -/
theorem Cassette.Holds.exists_new {xs : List (Exchange C)} {c : Cassette} (h : c.Holds xs)
    (mode : MatchMode) : ∃ engine, ReplayMatchEngine.new c mode = .ok engine := by
  refine ReplayMatchEngine.exists_new (fun i hi => ?_) mode
  obtain ⟨idx, hidx⟩ := List.mem_iff_getElem?.1 hi
  obtain ⟨x, -, hx⟩ := exists_getElem?_of_forall₂ h hidx
  exact Option.isSome_of_eq_some hx.stableHash_eq

/-- Rendering does not look at the value of a payload. -/
theorem serializeEvents_congr {events replayed : List StreamEvent}
    (h : replayed.map StreamEvent.bare = events.map StreamEvent.bare) :
    serializeEvents replayed = serializeEvents events := by
  have hbare : ∀ es : List StreamEvent,
      serializeEvents (es.map StreamEvent.bare) = serializeEvents es := by
    intro es
    induction es with
    | nil => rfl
    | cons e es ih => cases e <;> simp [StreamEvent.bare, serializeEvent, ih]
  rw [← hbare replayed, h, hbare]

/-- The bytes that are sent for a faithful response: the upstream body, or the rendering of the
events that the upstream stream parsed to. -/
theorem Exchange.Faithful.render_bytes {x : Exchange C} {response : ReplayResponse}
    (h : x.Faithful response) :
    (∃ upstream, x.send = .ok upstream ∧ response.body.render.bytes = upstream.body) ∨
    (∃ upstream chunks events, x.stream = .ok upstream ∧
      upstream.body = List.map Except.ok chunks ∧
      SseParser.parse C.json.fromStr chunks.flatten = .ok events ∧
      response.body.render.bytes = serializeEvents events) := by
  cases h with
  | buffered upstream plain send => exact Or.inl ⟨upstream, send, rfl⟩
  | stream upstream chunks events replayed streaming stream body parsed same =>
    refine Or.inr ⟨upstream, chunks, events, stream, body, parsed, ?_⟩
    rw [ReplayBody.render, buildStreamBody_bytes, serializeEvents_congr same]

/-- **Recording, then replaying.**  A service that is started on a cassette without interactions
handles exchanges whose requests are JSON and appends all of them, and the cassette can be loaded.
Then the replay of the same requests in sequential mode answers each with what its exchange
brought, and any further request with JSON is told that the cassette is exhausted. -/
theorem replay_of_recorded (hjson : C.json.Lawful) {fileName : String} {dir : Dir String}
    (hempty : ∀ c, Session.decoded C.json fileName dir = some c → c.interactions = [])
    {faults : Faults} {r : Recorder} (hstart : (Recorder.start C faults dir fileName).2 = .ok r)
    (xs : List (Exchange C)) (hbodies : ∀ x ∈ xs, x.request.parsedJson.isSome)
    (hpersists : Runs.Along (Recorder.exchange C) (fun r x => ∃ i, r.Persists C x i) r xs)
    {c : Cassette}
    (hreload : Session.decoded C.json fileName (Runs.run (Recorder.exchange C) r xs).dir = some c) :
    ∃ engine, ReplayMatchEngine.new c .sequentialStrict = .ok engine ∧
      List.Forall₂ (fun x answer => ∃ response, answer = .ok response ∧ x.Faithful response) xs
        (ReplayService.answers C.sha256 (.new engine) (xs.map Exchange.request)) ∧
      ∀ q : ObservedRequest, q.parsedJson.isSome →
        ∃ diagnostic, ((Runs.run (ReplayService.step C.sha256) (.new engine)
            (xs.map Exchange.request)).handleChatCompletions C.sha256 q).1 =
          .error (.mismatch diagnostic) ∧ diagnostic.position = .exhausted xs.length := by
  have hfile : FileHolds (C := C) fileName [] dir :=
    ⟨fun c hc => by rw [Cassette.Holds, hempty c hc]; exact .nil, fun _ => rfl⟩
  have hholds : c.Holds xs := (Recorder.holds_all hjson
    ((Recorder.holds_start hjson hfile faults).1 r hstart) hpersists).file.decoded c hreload
  have hanswer := hholds.imp fun x i hx => Exchange.Recorded.answer hx
  obtain ⟨engine, hengine⟩ := hholds.exists_new .sequentialStrict
  obtain ⟨rfl, hmode, hcursor⟩ := ReplayMatchEngine.new_frame hengine
  have hrest : List.Forall₂ (fun x i => i.request.stableHash =
        some (ReplayService.hashOf C.sha256 (Exchange.request x)) ∧
      ∃ response, responseFromRecorded i.response
        (isStreamingChatCompletionsRequest (Exchange.request x).parsedJson) = .ok response ∧
        Exchange.Faithful x response) xs
      ((ReplayService.new engine).engine.cassette.interactions.drop
        (ReplayService.new engine).engine.sequentialCursor) := by
    simpa only [ReplayService.new, hcursor, List.drop_zero] using hanswer
  -- the cursor starts at the front, and every recorded interaction is still to come
  have hstart' : (ReplayService.new engine).engine.sequentialCursor ≤
      (ReplayService.new engine).engine.cassette.interactions.length := by
    simp [ReplayService.new, hcursor]
  obtain ⟨hanswers, hlock, hend⟩ :=
    ReplayService.answers_sequential hbodies hmode rfl hstart' hrest
  obtain ⟨hcassette', hmode'⟩ := ReplayService.run_frame C.sha256 (.new engine)
    (xs.map Exchange.request)
  refine ⟨engine, hengine, hanswers, fun q hq => ?_⟩
  obtain ⟨diagnostic, hmismatch, hposition⟩ :=
    ReplayService.handle_exhausted (hmode'.trans hmode) hlock hq (by rw [hend, hcassette'])
  refine ⟨diagnostic, hmismatch, ?_⟩
  rw [hposition, hcassette', List.Forall₂.length_eq hholds]
  rfl

/-- A buffered exchange, with a header that is redacted, and a stream in two chunks. -/
theorem replay_of_recorded_buffered_and_stream :
    let C : RecordConfig := ⟨.exact, Sha256.digest, .default⟩
    let v : Json := .object [("model", .string "m")]
    let w : Json := .object [("stream", .bool true)]
    let chunks := [Str.asBytes "data: a\n", Str.asBytes "\n"]
    let x : Exchange C :=
      { request := ⟨"POST", chatCompletionsPath, "", [], [], SerdeJson.exact.toWriterPretty v,
          some v⟩
        apiKey := some "key"
        send := .ok ⟨200, [("authorization", "a"), ("x-id", "1")], [],
          SerdeJson.exact.toWriterPretty v, some v⟩
        stream := .error (.io .other)
        metadata := .ok ⟨"chat", "up", "now", 0⟩
        started := 0
        times := []
        faults := .none
        observed := RecordConfig.observes_exact rfl rfl (by decide) (by decide)
        observedResponse := by
          rintro _ ⟨⟩
          exact RecordConfig.observesResponse_exact rfl rfl (by decide) (by decide)
        clockRuns := by rintro _ ⟨⟩ }
    let y : Exchange C :=
      { request := ⟨"POST", chatCompletionsPath, "", [], [], SerdeJson.exact.toWriterPretty w,
          some w⟩
        apiKey := some "key"
        send := .error (.io .other)
        stream := .ok ⟨200, [], [], chunks.map .ok⟩
        metadata := .ok ⟨"chat", "up", "now", 0⟩
        started := 5
        times := [5, 7000000, 9000000]
        faults := .none
        observed := RecordConfig.observes_exact rfl rfl (by decide) (by decide)
        observedResponse := by rintro _ ⟨⟩
        clockRuns := by rintro _ ⟨⟩; decide +kernel }
    ∃ r, (Recorder.start C .none (fun _ => none) "c.json").2 = .ok r ∧ ∃ c engine,
      Session.decoded .exact "c.json" (Runs.run (Recorder.exchange C) r [x, y]).dir = some c ∧
      ReplayMatchEngine.new c .sequentialStrict = .ok engine ∧
      List.Forall₂ (fun x answer => ∃ response, answer = .ok response ∧ x.Faithful response)
        [x, y] (ReplayService.answers C.sha256 (.new engine) [x.request, y.request]) := by
  intro C v w chunks x y
  have habsent : content (fun _ => none) "c.json" = none := rfl
  obtain ⟨dir, hstart⟩ := Recorder.start_none C habsent
  obtain ⟨i, hi⟩ : ∃ i, x.attempted = some i := Option.isSome_iff_exists.1 (by decide +kernel)
  obtain ⟨j, hj⟩ : ∃ j, y.attempted = some j := Option.isSome_iff_exists.1 (by decide +kernel)
  have hx : x.Shallow := by
    refine ⟨?_, ?_, fun hstream => absurd hstream (by decide)⟩
    · rintro _ ⟨⟩
      decide
    · rintro - _ ⟨⟩ _ ⟨⟩
      decide
  have hy : y.Shallow := by
    refine ⟨?_, fun hplain => absurd hplain (by decide), ?_⟩
    · rintro _ ⟨⟩
      decide
    · rintro - _ chunks' events ⟨⟩ hbody hparse
      obtain rfl := Recording.map_ok_injective hbody
      obtain rfl : [StreamEvent.data "a" none] = events := by
        have h : SseParser.parse C.json.fromStr chunks.flatten = .ok [.data "a" none] := by
          decide +kernel
        exact Except.ok.inj (h.symm.trans hparse)
      rintro e he
      obtain rfl := List.mem_singleton.1 he
      exact fun v hv => nomatch hv
  let r : Recorder := ⟨dir, ⟨"c.json", .new⟩, false, 0, 0⟩
  have hr : (Recorder.start C .none (fun _ => none) "c.json").2 = .ok r := by rw [hstart]
  have hpersistsx : r.Persists C x i := Recorder.persists_none rfl rfl hi
  obtain ⟨hlock, hstore, -⟩ := Recorder.exchange_of_persists rfl hpersistsx
  have hpersistsy : (r.exchange C x).Persists C y j := Recorder.persists_none hlock rfl hj
  obtain ⟨-, -, hfile⟩ := Recorder.exchange_of_persists hlock hpersistsy
  have hstorable : ((Cassette.new.append i).append j).Storable :=
    (Cassette.storable_new.append ⟨(x.attempted_cases hi).wf,
        (x.attempted_cases hi).depthLe_iff.2 hx⟩).append
      ⟨(y.attempted_cases hj).wf, (y.attempted_cases hj).depthLe_iff.2 hy⟩
  obtain ⟨c, hc, -⟩ := hstorable.fromReader_writeTo SerdeJson.exact_lawful
  rw [hstore] at hfile
  have hdecoded : Session.decoded .exact "c.json" ((r.exchange C x).exchange C y).dir = some c :=
    Session.decoded_of_read hfile hc
  obtain ⟨engine, hengine, hanswers, -⟩ := replay_of_recorded (C := C) SerdeJson.exact_lawful
    (fun c hc => by simp [Session.decoded, content] at hc) hr [x, y]
    (List.forall_mem_cons.2 ⟨rfl, List.forall_mem_singleton.2 rfl⟩)
    ⟨⟨i, hpersistsx⟩, ⟨j, hpersistsy⟩, trivial⟩ hdecoded
  exact ⟨r, hr, c, engine, hdecoded, hengine, hanswers⟩

end SpycatcherHarness
