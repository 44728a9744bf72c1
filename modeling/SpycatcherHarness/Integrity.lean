import SpycatcherHarness.Lifetime
import SpycatcherHarness.Server.Calls

/-!
# Cassettes are consistent in themselves

What a cassette file holds agrees with itself: the hash of an interaction is that of its own body,
the events of a stream are those of its transcript and are timed one by one, and no header has a
name that must not be stored.  All of this can be checked from the file alone, without the
exchanges it was recorded from.

* `Interaction.Consistent.kept` : storing and reading back keep an interaction consistent.
* `Exchange.Carries.consistent` : what is handed to the store is consistent.
* `Life.file_consistent` : so is what the file holds after any life.
-/

namespace SpycatcherHarness

open Files Store

variable {C : RecordConfig}

/-! ### Consistent interactions -/

/-- A response that is stored as a stream. -/
def RecordedResponse.isStream : RecordedResponse → Bool
  | .nonStream _ _ _ _ => false
  | .stream _ _ _ _ _ => true

/-- A name that a header may be stored under. -/
structure MayStore (redaction : RedactionConfig) (excluded : List String) (name : String) :
    Prop where
  hopByHop : name ∉ hopByHopHeaders
  excluded : name ∉ excluded
  kept : shouldPersistHeader name redaction = true

/-- The parts of a stored stream agree: the transcript parses to its events, and these are timed one
by one, none before the first chunk. -/
def StreamTiming.Fits (timing : StreamTiming) (events : List StreamEvent) : Prop :=
  timing.chunkOffsetsMs.length = events.length ∧ timing.chunkOffsetsMs.Pairwise (· ≤ ·) ∧
    ∀ o ∈ timing.chunkOffsetsMs, timing.ttftMs ≤ o

variable (C) in
/-- The parts of an interaction agree with each other. -/
structure Interaction.Consistent (i : Interaction) : Prop where
  stableHash : i.request.stableHash = some (stableHash C.sha256
    (canonicalForm { i.request with parsedJson := C.parseJsonBytes i.request.body }))
  kind : i.response.isStream =
    isStreamingChatCompletionsRequest (C.parseJsonBytes i.request.body)
  stream : ∀ status headers events rawTranscript timing,
    i.response = .stream status headers events rawTranscript timing →
      (∃ parsed, SseParser.parse C.json.fromStr rawTranscript = .ok parsed ∧
        events.map StreamEvent.bare = parsed.map StreamEvent.bare) ∧
      ∃ t, timing = some t ∧ t.Fits events
  requestHeaders : ∀ header ∈ i.request.headers,
    MayStore C.redaction requestOnlyExcludedHeaders header.1
  responseHeaders : ∀ header ∈ i.response.headers,
    MayStore C.redaction responseOnlyExcludedHeaders header.1

/-- What is recorded of headers has names that may be stored. -/
theorem mayStore_persistedHeaders (redaction : RedactionConfig) (excluded : List String)
    (headers : HeaderMap) :
    ∀ header ∈ persistedHeaders redaction excluded headers,
      MayStore redaction excluded header.1 := by
  intro header hheader
  obtain ⟨raw, hraw, rfl⟩ := List.mem_map.1 hheader
  obtain ⟨-, hkeep⟩ := List.mem_filter.1 hraw
  obtain ⟨hpermitted, hredacted⟩ := of_decide_eq_true hkeep
  exact ⟨hpermitted.hopByHop, hpermitted.excluded,
    (shouldPersistHeader_iff redaction raw.1).2 hredacted⟩

/-- What was stored as a stream is read back as one. -/
theorem Interaction.Kept.isStream {i j : Interaction} (h : i.Kept j) :
    j.response.isStream = i.response.isStream := by
  have hresponse := h.response
  cases hi : i.response <;> cases hj : j.response <;>
    simp_all [RecordedResponse.bare, RecordedResponse.isStream]

/-- Storing and reading back keep an interaction consistent. -/
theorem Interaction.Consistent.kept {i j : Interaction} (h : i.Consistent C) (hkept : i.Kept j) :
    j.Consistent C := by
  have hkind := hkept.isStream
  obtain ⟨hrequest, hresponse, -⟩ := hkept
  have hheaders : j.response.headers = i.response.headers := by
    cases hi : i.response <;> cases hj : j.response <;>
      simp_all [RecordedResponse.bare, RecordedResponse.headers]
  refine ⟨?_, ?_, ?_, ?_, ?_⟩
  · rw [hrequest]
    exact h.stableHash
  · rw [hrequest, hkind]
    exact h.kind
  · intro status headers events rawTranscript timing hj
    cases hi : i.response with
    | nonStream => simp [hi, hj, RecordedResponse.bare] at hresponse
    | stream status' headers' events' rawTranscript' timing' =>
      rw [hi, hj] at hresponse
      simp only [RecordedResponse.bare, RecordedResponse.stream.injEq] at hresponse
      obtain ⟨rfl, rfl, hevents, rfl, rfl⟩ := hresponse
      obtain ⟨⟨parsed, hparsed, hsame⟩, t, rfl, hlength, hsorted, hfirst⟩ :=
        h.stream _ _ _ _ _ hi
      refine ⟨⟨parsed, hparsed, hevents.symm.trans hsame⟩, t, rfl, ?_, hsorted, hfirst⟩
      have hcount := congrArg List.length hevents
      simp only [List.length_map] at hcount
      omega
  · rw [hrequest]
    exact h.requestHeaders
  · rw [hheaders]
    exact h.responseHeaders

/-- What is handed to the store is consistent. -/
theorem Exchange.Carries.consistent {x : Exchange C} {inbound : InboundRequest}
    {send : HarnessResult (UpstreamReply Bytes)}
    {stream : HarnessResult (UpstreamReply (List (HarnessResult Bytes)))}
    (h : x.Carries inbound send stream) {i : Interaction} (hi : x.attempted = some i) :
    i.Consistent C := by
  obtain ⟨upstream, -, hrequest, hresponse⟩ := h.headers_attempted hi
  have hjson : x.request.parsedJson = C.parseJsonBytes x.request.body := x.observed
  have hhash : (C.recordedRequest x.request).stableHash = some (stableHash C.sha256
      (canonicalForm { C.recordedRequest x.request with
        parsedJson := C.parseJsonBytes x.request.body })) := by
    rw [← hjson]
    rfl
  refine ⟨?_, ?_, ?_, ?_, ?_⟩
  · cases x.attempted_cases hi <;> exact hhash
  · cases x.attempted_cases hi with
    | nonStream response metadata plain => exact (plain.symm.trans (congrArg _ hjson))
    | stream response chunks completed metadata streaming =>
      exact (streaming.symm.trans (congrArg _ hjson))
  · intro status headers events rawTranscript timing hstream
    cases x.attempted_cases hi with
    | nonStream response => simp [RecordConfig.recordedResponse] at hstream
    | stream response chunks completed metadata streaming _ _ parsed completes =>
      simp only [RecordConfig.recordedStream, RecordedResponse.stream.injEq] at hstream
      obtain ⟨rfl, rfl, rfl, rfl, rfl⟩ := hstream
      rw [SseParser.parseChunks_eq_parse, ← completes.rawTranscript] at parsed
      exact ⟨⟨completed.events, parsed, rfl⟩, _, rfl, completes.length_eq, completes.sorted,
        completes.first⟩
  · rw [hrequest]
    exact mayStore_persistedHeaders _ _ _
  · rw [hresponse]
    exact mayStore_persistedHeaders _ _ _

/-! ### Over a life -/

namespace Life

variable {Url : Type}

/-- The exchanges that an event is about. -/
def Event.exchanges : Event C Url → List (Exchange C)
  | .exchange x | .killedExchange x _ => [x]
  | .start _ | .killedStart _ _ | .request _ | .shutdown => []

/-- Only what an event is about can be persisted. -/
theorem mem_exchanges_of_persisted {s : Life} {e : Event C Url} {x : Exchange C}
    (h : x ∈ s.persisted e) : x ∈ e.exchanges := by
  have hif : ∀ (p : Prop) [Decidable p] (y : Exchange C),
      x ∈ (if p then [y] else []) → x ∈ [y] := by
    intro p _ y hx
    split_ifs at hx
    · exact hx
    · cases hx
  cases e with
  | exchange y =>
    cases s with
    | recording r => exact hif _ y h
    | stopped dir => cases h
    | replaying dir service => cases h
  | killedExchange y after =>
    cases s with
    | recording r => exact hif _ y h
    | stopped dir => cases h
    | replaying dir service => cases h
  | start a => cases h
  | killedStart a after => cases h
  | request q => cases h
  | shutdown => cases h

/-- **A cassette file is consistent in itself.**  Whatever happens over a life that begins without
interactions, every interaction in the file has the hash of its own body, is a stream exactly if
its body asks for one, has the events of its transcript, timed one by one, and has no header whose
name is redacted, hop-by-hop or excluded. -/
theorem file_consistent (hjson : C.json.Lawful) {cassetteDir name fileName : String}
    (hname : cassetteName (Path.join cassetteDir name) = .ok fileName) {dir : Dir String}
    (hempty : ∀ c, Session.decoded C.json fileName dir = some c → c.interactions = [])
    (es : List (Event C Url))
    (hcarries : ∀ e ∈ es, ∀ x ∈ e.exchanges, ∃ inbound send stream,
      x.Carries inbound send stream) {c : Cassette}
    (hdecoded : Session.decoded C.json fileName
      (Runs.run (step C cassetteDir name) (stopped dir) es).dir = some c) :
    ∀ i ∈ c.interactions, i.Consistent C := by
  have hholds := (holds_run hjson hname hempty es).file.decoded c hdecoded
  have hpersisted : ∀ x ∈ Runs.collect (step C cassetteDir name) persisted (stopped dir) es,
      ∃ inbound send stream, x.Carries inbound send stream :=
    Runs.forall_mem_collect
      (fun e he s x hx => hcarries e he x (mem_exchanges_of_persisted hx)) _
  intro i hi
  obtain ⟨idx, hidx⟩ := List.mem_iff_getElem?.1 hi
  obtain ⟨x, hx, j, hj, hkept⟩ := exists_getElem?_of_forall₂ hholds hidx
  obtain ⟨inbound, send, stream, hx'⟩ := hpersisted x (List.mem_of_getElem? hx)
  exact (hx'.consistent hj).kept hkept

/-- A call that is answered by a stream with one event. -/
def smallStream : RecordCall SmallUrl :=
  { RecordCall.small "key" [] 0 with
    inbound := ⟨none, [], Str.asBytes "\x7b\"stream\":true\x7d"⟩
    streamClient := .replying ⟨200, [], [.ok (Str.asBytes "data: a\n"), .ok (Str.asBytes "\n")]⟩
    times := [5, 7, 9]
    clockRuns := by decide }

theorem shallow_small :
    (RecordService.small.exchange exact (RecordCall.small "key"
      [(authorization, Str.asBytes "Bearer client")] 0)).Shallow := by
  generalize hx : RecordService.small.exchange exact (RecordCall.small "key"
    [(authorization, Str.asBytes "Bearer client")] 0) = x
  have hrequest : x.request.parsedJson = some (.object []) := by
    rw [← hx]
    decide +kernel
  have hsend : x.send = .ok ⟨200, [], [], Str.asBytes "null", some .null⟩ := by
    rw [← hx]
    decide +kernel
  refine ⟨?_, fun _ response hresponse => ?_, fun hstream => ?_⟩
  · rw [hrequest]
    rintro _ ⟨⟩
    decide
  · obtain rfl := Except.ok.inj (hsend.symm.trans hresponse)
    rintro _ ⟨⟩
    decide
  · rw [hrequest] at hstream
    cases hstream

theorem shallow_smallStream : (RecordService.small.exchange exact smallStream).Shallow := by
  generalize hy : RecordService.small.exchange exact smallStream = y
  have hrequest : y.request.parsedJson = some (.object [("stream", .bool true)]) := by
    rw [← hy]
    decide +kernel
  have hstream : y.stream.map StreamingObservedResponse.body =
      .ok ([Str.asBytes "data: a\n", Str.asBytes "\n"].map .ok) := by
    rw [← hy]
    decide +kernel
  have hparse : SseParser.parse SerdeJson.exact.fromStr
      [Str.asBytes "data: a\n", Str.asBytes "\n"].flatten = .ok [.data "a" none] := by
    decide +kernel
  refine ⟨?_, fun hplain => ?_, fun _ response chunks events hresponse hbody hevents => ?_⟩
  · rw [hrequest]
    rintro _ ⟨⟩
    decide
  · rw [hrequest] at hplain
    cases hplain
  · rw [hresponse] at hstream
    obtain rfl := Recording.map_ok_injective (hbody.symm.trans (Except.ok.inj hstream))
    obtain rfl := Except.ok.inj (hparse.symm.trans hevents)
    intro e he
    obtain rfl := List.mem_singleton.1 he
    exact fun v hv => by cases hv

/-- A session with two calls: the client of the first sends a credential, the second is answered by
a stream. -/
theorem file_consistent_small :
    let x := RecordService.small.exchange exact
      (RecordCall.small "key" [(authorization, Str.asBytes "Bearer client")] 0)
    let y := RecordService.small.exchange exact smallStream
    ∃ c, Session.decoded .exact "a.json" (Runs.run (step exact "llm" "a.json")
        (stopped fun _ => none) (session (.calm .record) [x, y])).dir = some c ∧
      c.interactions.map (fun i => i.response.isStream) = [false, true] ∧
      ∀ i ∈ c.interactions, i.Consistent exact := by
  intro x y
  have hname : cassetteName (Path.join "llm" "a.json") = .ok "a.json" := by decide
  have hcalm : ∀ mode, StartEnvironment.calm.Calm ((Start.calm mode).config "llm" "a.json")
      "a.json" := fun mode => StartEnvironment.calm_calm hname
  have hall : ∀ x' ∈ [x, y], x'.faults = .none ∧ x'.attempted.isSome ∧ x'.Shallow :=
    List.forall_mem_cons.2 ⟨⟨rfl, by decide +kernel, shallow_small⟩,
      List.forall_mem_singleton.2 ⟨rfl, by decide +kernel, shallow_smallStream⟩⟩
  have hreplays : Runs.collect (step exact "llm" "a.json") persisted (stopped fun _ => none)
        (session (.calm .record) [x, y]) = [x, y] ∧
      ∃ dir service, Runs.run (step exact "llm" "a.json") (stopped fun _ => none)
        (session (.calm .record) [x, y] ++ [.start (.calm .replay)]) = replaying dir service :=
    replaying_of_session SerdeJson.exact_lawful hname rfl rfl rfl (hcalm .record) (hcalm .replay)
      (by decide) (by decide) hall
  obtain ⟨hcollect, dir, service, hrun⟩ := hreplays
  rw [Runs.run_concat] at hrun
  obtain ⟨c, -, hdecoded, -⟩ := start_replaying hname hrun
  have hempty : ∀ c, Session.decoded .exact "a.json" (fun _ => none) = some c →
      c.interactions = [] := by
    intro c hc
    simp [Session.decoded, content] at hc
  have hheld := holds_run SerdeJson.exact_lawful hname hempty (session (.calm .record) [x, y])
  rw [hcollect] at hheld
  have hkinds : ([x, y].map fun x => x.attempted.map fun i => i.response.isStream) =
      [some false, some true] := by decide +kernel
  refine ⟨c, hdecoded, ?_, ?_⟩
  · have hforall := hheld.file.decoded c hdecoded
    obtain ⟨i, _, ⟨i', hi', hi⟩, hrest, hcons⟩ := List.forall₂_cons_left_iff.1 hforall
    obtain ⟨j, _, ⟨j', hj', hj⟩, hnil, hcons'⟩ := List.forall₂_cons_left_iff.1 hrest
    obtain rfl := List.forall₂_nil_left_iff.1 hnil
    simp only [List.map_cons, List.map_nil, hi', hj', Option.map_some, List.cons.injEq,
      Option.some.injEq, and_true] at hkinds
    rw [hcons, hcons', List.map_cons, List.map_cons, hi.isStream, hj.isStream, hkinds.1, hkinds.2]
    rfl
  refine file_consistent SerdeJson.exact_lawful hname hempty _ ?_ hdecoded
  have hcarries : ∀ call : RecordCall SmallUrl, ∃ inbound send stream,
      (RecordService.small.exchange exact call).Carries inbound send stream :=
    fun call => ⟨_, _, _, RecordService.small.carries call⟩
  simpa [session, Event.exchanges] using ⟨hcarries _, hcarries _⟩

end Life

end SpycatcherHarness
