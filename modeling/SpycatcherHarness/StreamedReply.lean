import SpycatcherHarness.Fidelity

/-!
# Replies to streaming requests

A reply to a streaming request goes through the parser of event streams, whatever its content type.
If it parses it is recorded, with the bytes that were proxied and the events that they parse to, and
the rendering of these events is what replay sends.  Text that is no event stream can parse to no
events at all, and is then replayed as an empty body.

* `streamed_reply` : what is recorded of a reply, and what is replayed.
* `error_body_replayed_empty` : a JSON error body that is replayed as nothing.
-/

namespace SpycatcherHarness

open Files Store SseParser

variable {C : RecordConfig}

/-- The rendering of the events that a transcript parses to is the transcript exactly if that is the
rendering of some events as the parser emits them. -/
theorem serializeEvents_parse_iff {fromStr : String → Option Json} {transcript : Bytes}
    {events : List StreamEvent} (h : parse fromStr transcript = .ok events) :
    serializeEvents events = transcript ↔
      ∃ es, (∀ e ∈ es, Emitted fromStr e) ∧ serializeEvents es = transcript := by
  constructor
  · exact fun heq => ⟨events, emitted_of_parse h, heq⟩
  · rintro ⟨es, hes, rfl⟩
    obtain rfl : es = events := Except.ok.inj ((parse_serializeEvents hes).symm.trans h)
    rfl

/-- **What becomes of the reply to a streaming request.**  For every status, all headers, every body
in any chunks, and a client that reads any part of it: either nothing is appended, and the store
and the file stay as they are; or the client has received the whole body, and the interaction that
is appended holds exactly the bytes proxied as its transcript, with the events that they parse to.
Replay then sends the rendering of these events, which are the bytes proxied exactly if those are
the rendering of events as the parser emits them. -/
theorem streamed_reply {r : Recorder} (hlock : r.poisoned = false) (x : Exchange C)
    (hstreaming : isStreamingChatCompletionsRequest x.request.parsedJson = true)
    {upstream : StreamingObservedResponse} (hupstream : x.stream = .ok upstream) :
    ((r.exchange C x).store = r.store ∧
      content (r.exchange C x).dir r.store.fileName = content r.dir r.store.fileName) ∨
    ∃ (i : Interaction) (proxied : List Bytes) (events : List StreamEvent)
      (timing : Option StreamTiming),
      (r.exchange C x).store.cassette = r.store.cassette.append i ∧
      content (r.exchange C x).dir r.store.fileName =
        some ((r.store.cassette.append i).writeTo C.json) ∧
      (x.recording upstream).received = proxied.map .ok ∧ upstream.body = proxied.map .ok ∧
      parse C.json.fromStr proxied.flatten = .ok events ∧
      i.response = .stream upstream.status (redactHeaders upstream.headers C.redaction) events
        proxied.flatten timing ∧
      ∀ i', i.Kept i' → ∀ asksStream, ∃ response,
        responseFromRecorded i'.response asksStream = .ok response ∧
        response.body.render.bytes = serializeEvents events ∧
        (response.body.render.bytes = proxied.flatten ↔
          ∃ es, (∀ e ∈ es, Emitted C.json.fromStr e) ∧ serializeEvents es = proxied.flatten) := by
  obtain ⟨-, ⟨i, hi, hstore, hfile⟩ | ⟨-, hsame⟩⟩ := Recorder.exchange_cases hlock x
  · right
    cases x.attempted_cases hi.1 with
    | nonStream _ _ plain =>
      rw [plain] at hstreaming
      cases hstreaming
    | stream up chunks completed metadata streaming stream body parsed completes received =>
      obtain rfl : up = upstream := Except.ok.inj (stream.symm.trans hupstream)
      rw [parseChunks_eq_parse] at parsed
      refine ⟨_, chunks, completed.events, some ⟨completed.ttftMs, completed.chunkOffsetsMs⟩,
        by rw [hstore], hfile, received, body, parsed, ?_, ?_⟩
      · rw [RecordConfig.recordedStream, completes.status, completes.headers,
          completes.rawTranscript]
      · intro i' hkept asksStream
        have hresponse := hkept.response
        -- reading back keeps the events, up to parsed values that replay does not send
        cases hi' : i'.response with
        | nonStream =>
          simp [hi', RecordedResponse.bare, RecordConfig.recordedStream] at hresponse
        | stream status headers replayed rawTranscript timing =>
          simp only [hi', RecordedResponse.bare, RecordConfig.recordedStream,
            RecordedResponse.stream.injEq] at hresponse
          have hbytes : (ReplayBody.events replayed).render.bytes =
              serializeEvents completed.events := by
            rw [ReplayBody.render, buildStreamBody_bytes,
              serializeEvents_congr hresponse.2.2.1.symm]
          refine ⟨_, rfl, hbytes, ?_⟩
          rw [hbytes]
          exact serializeEvents_parse_iff parsed
  · exact Or.inl hsame

/-- An event stream under the content type of JSON is replayed byte for byte. -/
theorem streamed_reply_data :
    let C : RecordConfig := ⟨.exact, Sha256.digest, .default⟩
    let v : Json := .object [("stream", .bool true)]
    let chunks := [Str.asBytes "data: a\n", Str.asBytes "\n"]
    let x : Exchange C :=
      { request := ⟨"POST", chatCompletionsPath, "", [], [], SerdeJson.exact.toWriterPretty v,
          some v⟩
        apiKey := some "key"
        send := .error (.io .other)
        stream := .ok ⟨200, [("content-type", "application/json")], [], chunks.map .ok⟩
        metadata := .ok ⟨"chat", "up", "now", 0⟩
        started := 5
        times := [5, 7000000, 9000000]
        faults := .none
        observed := RecordConfig.observes_exact rfl rfl (by decide) (by decide)
        observedResponse := by rintro _ ⟨⟩
        clockRuns := by rintro _ ⟨⟩; decide +kernel }
    let r : Recorder := ⟨fun _ => none, ⟨"c.json", .new⟩, false, 0, 0⟩
    ∃ i response, (r.exchange C x).store.cassette = Cassette.new.append i ∧
      responseFromRecorded i.response true = .ok response ∧
      response.body.render.bytes = chunks.flatten := by
  intro C v chunks x r
  obtain ⟨i, hi⟩ : ∃ i, x.attempted = some i := Option.isSome_iff_exists.1 (by decide +kernel)
  obtain ⟨-, hstore, -⟩ :=
    Recorder.exchange_of_persists (r := r) rfl (Recorder.persists_none rfl rfl hi)
  rcases streamed_reply (r := r) rfl x rfl rfl with
    ⟨hsame, -⟩ | ⟨j, proxied, events, timing, hcassette, -, -, hbody, -, -, hreplay⟩
  · have hlength := congrArg (fun s : Store => s.cassette.interactions.length)
      (hstore.symm.trans hsame)
    simp [r] at hlength
  · obtain rfl := Recording.map_ok_injective hbody
    obtain ⟨response, hresponse, -, hexact⟩ := hreplay j (.refl j) true
    refine ⟨j, response, hcassette, hresponse, hexact.2 ⟨[.data "a" none], ?_, by decide +kernel⟩⟩
    exact List.forall_mem_singleton.2 (.data (by decide))

/-- **An error body that is replayed as nothing.**  A JSON body with a line break at its end is
proxied and recorded, and what replay sends for it is empty. -/
theorem error_body_replayed_empty :
    let C : RecordConfig := ⟨.exact, Sha256.digest, .default⟩
    let v : Json := .object [("stream", .bool true)]
    let body := Str.asBytes "\x7b\"error\":\"x\"\x7d\n"
    let upstream : StreamingObservedResponse :=
      ⟨400, [("content-type", "application/json")], [], [.ok body]⟩
    let x : Exchange C :=
      { request := ⟨"POST", chatCompletionsPath, "", [], [], SerdeJson.exact.toWriterPretty v,
          some v⟩
        apiKey := some "key"
        send := .error (.io .other)
        stream := .ok upstream
        metadata := .ok ⟨"chat", "up", "now", 0⟩
        started := 5
        times := [5, 7000000]
        faults := .none
        observed := RecordConfig.observes_exact rfl rfl (by decide) (by decide)
        observedResponse := by rintro _ ⟨⟩
        clockRuns := by rintro _ ⟨⟩; decide +kernel }
    let r : Recorder := ⟨fun _ => none, ⟨"c.json", .new⟩, false, 0, 0⟩
    ∃ i response, r.Persists C x i ∧ (r.exchange C x).store.cassette = Cassette.new.append i ∧
      (x.recording upstream).received = [.ok body] ∧ body ≠ [] ∧
      responseFromRecorded i.response true = .ok response ∧ response.body.render.bytes = [] := by
  intro C v body upstream x r
  obtain ⟨i, hi⟩ : ∃ i, x.attempted = some i := Option.isSome_iff_exists.1 (by decide +kernel)
  have hpersists : r.Persists C x i := Recorder.persists_none rfl rfl hi
  obtain ⟨-, hstore, -⟩ := Recorder.exchange_of_persists rfl hpersists
  obtain ⟨response, hresponse, hfaithful⟩ :=
    (Exchange.Recorded.answer (x := x) ⟨i, hi, .refl i⟩).2
  refine ⟨i, response, hpersists, by rw [hstore], by decide +kernel, by decide, hresponse, ?_⟩
  rcases hfaithful.render_bytes with
    ⟨_, hsend, -⟩ | ⟨up, chunks, events, hup, hbody, hparse, hbytes⟩
  · cases hsend
  · cases hup
    have hchunks : [body] = chunks := Recording.map_ok_injective hbody
    have hnone : parse C.json.fromStr [body].flatten = .ok [] := by decide +kernel
    rw [← hchunks, hnone] at hparse
    cases hparse
    exact hbytes

end SpycatcherHarness
