import SpycatcherHarness.Machine.Runs
import SpycatcherHarness.Server.Exchange
import SpycatcherHarness.Sse.Chunking

/-!
# The streaming recorder

While a client reads a proxied stream, the recorder keeps a transcript of it and parses it as an
event stream; when the upstream ends, it appends the interaction.  The proxied stream is a
`try_unfold` over `processStreamChunk`: each time the client asks for an item, one chunk is taken
from the upstream, observed, and passed on.

`Recording` is the proxied stream together with what the client has received and what the recorder
has done to the service so far; an event of its runs is the clock's reading when the client asks
for the next item.

* `StreamRecordingState.Observed` : what observing chunks keeps as long as nothing has failed.
* `Recording.After` : where a recording is after a number of items.
* `Recording.received_and_appended` : the client receives what the upstream sends, and a stream is
  appended exactly if it was read to its end and parses.
-/

namespace SpycatcherHarness

/-- `elapsed().as_millis()`: whole milliseconds since a clock reading in nanoseconds. -/
def elapsedMillis (start now : ℕ) : ℕ := (now - start) / 1000000

/-- `millis_u64`. -/
def millisU64 (value : ℕ) : UInt64 := UInt64.ofNat (min value (2 ^ 64 - 1))

theorem millisU64_mono {a b : ℕ} (h : a ≤ b) : millisU64 a ≤ millisU64 b := by
  simp only [UInt64.le_iff_toNat_le, millisU64, UInt64.toNat_ofNat']
  omega

/-- Milliseconds since the upstream request was started. -/
def elapsedSince (start now : ℕ) : UInt64 := millisU64 (elapsedMillis start now)

theorem elapsedSince_mono (start : ℕ) {now later : ℕ} (h : now ≤ later) :
    elapsedSince start now ≤ elapsedSince start later :=
  millisU64_mono (Nat.div_le_div_right (by omega))

/-- What the recorder does to the service. -/
inductive RecordAction where
  /-- The failure count is incremented. -/
  | failure
  /-- The interaction is handed to the store. -/
  | append (interaction : Interaction)
  deriving DecidableEq

/-- The interactions handed to the store. -/
def appends (actions : List RecordAction) : List Interaction :=
  actions.filterMap fun
    | .append interaction => some interaction
    | .failure => none

@[simp] theorem appends_append (actions actions' : List RecordAction) :
    appends (actions ++ actions') = appends actions ++ appends actions' := List.filterMap_append

@[simp] theorem appends_nil : appends [] = [] := rfl

@[simp] theorem appends_failure : appends [.failure] = [] := rfl

/-- `StreamRecordingState`. -/
structure StreamRecordingState where
  /-- Request to include in the recording. -/
  request : Option ObservedRequest
  status : UInt16
  headers : Headers
  /-- Remaining upstream chunks, or errors in their place. -/
  upstreamBody : List (HarnessResult Bytes)
  upstreamStart : ℕ
  parser : SseParser
  rawTranscript : Bytes
  events : List StreamEvent
  /-- Elapsed milliseconds for parsed events, in the same order as `events`. -/
  chunkOffsetsMs : List UInt64
  ttftMs : Option UInt64
  /-- Whether parsing failed and the partial stream must not be persisted. -/
  recordingFailed : Bool

namespace StreamRecordingState

variable (C : RecordConfig)

/-- `observe_chunk`. -/
def observeChunk (now : ℕ) (state : StreamRecordingState) (chunk : Bytes) :
    StreamRecordingState × List RecordAction :=
  if state.recordingFailed then (state, [])
  else
    let elapsed := elapsedSince state.upstreamStart now
    let state :=
      { state with
        ttftMs := some (state.ttftMs.getD elapsed)
        rawTranscript := state.rawTranscript ++ chunk }
    match state.parser.feed C.json.fromStr chunk with
    -- the chunk stays in the transcript, but events found before the error are dropped
    | (.error _, parser) => ({ state with parser, recordingFailed := true }, [.failure])
    | (.ok newEvents, parser) =>
      ({ state with
          parser
          chunkOffsetsMs := state.chunkOffsetsMs ++ List.replicate newEvents.length elapsed
          events := state.events ++ newEvents }, [])

/-- `append_completed_recording`. -/
def appendCompletedRecording (metadata : HarnessResult InteractionMetadata)
    (state : StreamRecordingState) : List RecordAction :=
  match state.request with
  | none => [.failure]
  | some request =>
    let completed : CompletedStream :=
      { status := state.status
        headers := state.headers
        rawTranscript := state.rawTranscript
        events := state.events
        ttftMs := state.ttftMs.getD 0
        chunkOffsetsMs := state.chunkOffsetsMs }
    match C.buildStreamInteraction request completed metadata with
    | .ok interaction => [.append interaction]
    | .error _ => [.failure]

/-- `finish_recording`. -/
def finishRecording (metadata : HarnessResult InteractionMetadata) (now : ℕ)
    (state : StreamRecordingState) : List RecordAction :=
  if state.recordingFailed then []
  else
    match state.parser.finish C.json.fromStr with
    | (.ok newEvents, _) =>
      let elapsed := elapsedSince state.upstreamStart now
      appendCompletedRecording C metadata
        { state with
          chunkOffsetsMs := state.chunkOffsetsMs ++ List.replicate newEvents.length elapsed
          events := state.events ++ newEvents }
    | (.error _, _) => [.failure]

/-- `process_stream_chunk`: the next chunk and state, or the end, and what is done to the
service. -/
def processStreamChunk (metadata : HarnessResult InteractionMetadata) (now : ℕ)
    (state : StreamRecordingState) :
    HarnessResult (Option (Bytes × StreamRecordingState)) × List RecordAction :=
  match state.upstreamBody with
  | [] => (.ok none, finishRecording C metadata now state)
  | .error e :: _ => (.error e, [.failure])
  | .ok chunk :: upstreamBody =>
    let (state, actions) := observeChunk C now { state with upstreamBody } chunk
    (.ok (some (chunk, state)), actions)

/-- The state in which `recording_stream` starts. -/
def start (request : ObservedRequest) (response : StreamingObservedResponse)
    (upstreamStart : ℕ) : StreamRecordingState where
  request := some request
  status := response.status
  headers := response.headers
  upstreamBody := response.body
  upstreamStart
  parser := .empty
  rawTranscript := []
  events := []
  chunkOffsetsMs := []
  ttftMs := none
  recordingFailed := false

end StreamRecordingState

/-- A proxied stream, with what has come of it so far. -/
structure Recording where
  /-- The state of `try_unfold`, which is gone once the stream has ended or failed. -/
  stream : Option StreamRecordingState
  /-- What the client has received. -/
  received : List (HarnessResult Bytes)
  /-- What the recorder has done to the service. -/
  actions : List RecordAction
  /-- The last reading of the clock. -/
  clock : ℕ

namespace Recording

variable (C : RecordConfig) (metadata : HarnessResult InteractionMetadata)

/-- The client asks for the next item. -/
def step (r : Recording) (now : ℕ) : Recording :=
  match r.stream with
  | none => { r with clock := now }
  | some state =>
    match state.processStreamChunk C metadata now with
    | (.ok (some (chunk, state)), actions) =>
      ⟨some state, r.received ++ [.ok chunk], r.actions ++ actions, now⟩
    | (.ok none, actions) => ⟨none, r.received, r.actions ++ actions, now⟩
    | (.error e, actions) => ⟨none, r.received ++ [.error e], r.actions ++ actions, now⟩

/-- What is done to the service when the client asks for the next item. -/
def polled (r : Recording) (now : ℕ) : List RecordAction :=
  match r.stream with
  | none => []
  | some state => (state.processStreamChunk C metadata now).2

theorem actions_step (r : Recording) (now : ℕ) :
    (r.step C metadata now).actions = r.actions ++ r.polled C metadata now := by
  unfold step polled
  cases r.stream with
  | none => simp
  | some state =>
    cases hchunk : state.processStreamChunk C metadata now with
    | mk result actions =>
      rcases result with e | (_ | ⟨chunk, next⟩) <;> simp only [hchunk]

def start (request : ObservedRequest) (response : StreamingObservedResponse)
    (upstreamStart : ℕ) : Recording :=
  ⟨some (.start request response upstreamStart), [], [], upstreamStart⟩

/-- The clock does not go back. -/
def ClockRuns (r : Recording) (now : ℕ) : Prop := r.clock ≤ now

instance (r : Recording) (now : ℕ) : Decidable (ClockRuns r now) :=
  inferInstanceAs (Decidable (_ ≤ _))

end Recording

/-! ### Observing chunks -/

namespace StreamRecordingState

variable {C : RecordConfig}

/-- As long as nothing has failed, the chunks so far have been parsed and timed. -/
structure Observed (fromStr : String → Option Json) (chunks : List Bytes) (clock : ℕ)
    (state : StreamRecordingState) : Prop where
  parsed : SseParser.feedAll fromStr .empty chunks = (.ok state.events, state.parser)
  rawTranscript : state.rawTranscript = chunks.flatten
  length_eq : state.chunkOffsetsMs.length = state.events.length
  sorted : state.chunkOffsetsMs.Pairwise (· ≤ ·)
  bounded : ∀ o ∈ state.chunkOffsetsMs, o ≤ elapsedSince state.upstreamStart clock
  /-- The first chunk came no later than now, and no later than any event. -/
  first : ∀ t, state.ttftMs = some t →
    t ≤ elapsedSince state.upstreamStart clock ∧ ∀ o ∈ state.chunkOffsetsMs, t ≤ o
  unset : state.ttftMs = none → state.chunkOffsetsMs = []

theorem observed_start (request : ObservedRequest) (response : StreamingObservedResponse)
    (upstreamStart clock : ℕ) (fromStr : String → Option Json) :
    Observed fromStr [] clock (.start request response upstreamStart) where
  parsed := rfl
  rawTranscript := rfl
  length_eq := rfl
  sorted := .nil
  bounded := by simp [start]
  first := by simp [start]
  unset := fun _ => rfl

/-- It does not matter what is left of the upstream. -/
theorem Observed.setBody {fromStr : String → Option Json} {chunks : List Bytes} {clock : ℕ}
    {state : StreamRecordingState} (h : Observed fromStr chunks clock state)
    (upstreamBody : List (HarnessResult Bytes)) :
    Observed fromStr chunks clock { state with upstreamBody } :=
  ⟨h.parsed, h.rawTranscript, h.length_eq, h.sorted, h.bounded, h.first, h.unset⟩

/-- Offsets that are followed by the present one, any number of times. -/
theorem pairwise_append_replicate {offsets : List UInt64} {elapsed : UInt64} (n : ℕ)
    (hsorted : offsets.Pairwise (· ≤ ·)) (hbounded : ∀ o ∈ offsets, o ≤ elapsed) :
    (offsets ++ List.replicate n elapsed).Pairwise (· ≤ ·) := by
  refine List.pairwise_append.2 ⟨hsorted, List.pairwise_replicate.2 (Or.inr (UInt64.le_refl _)), ?_⟩
  intro o ho o' ho'
  rw [List.eq_of_mem_replicate ho']
  exact hbounded o ho

/-- What observing a chunk leaves alone. -/
theorem observeChunk_frame (now : ℕ) (state : StreamRecordingState) (chunk : Bytes) :
    (state.observeChunk C now chunk).1.request = state.request ∧
      (state.observeChunk C now chunk).1.status = state.status ∧
      (state.observeChunk C now chunk).1.headers = state.headers ∧
      (state.observeChunk C now chunk).1.upstreamBody = state.upstreamBody ∧
      appends (state.observeChunk C now chunk).2 = [] := by
  unfold observeChunk
  split_ifs
  · simp
  · cases hfeed : state.parser.feed C.json.fromStr chunk with
    | mk result parser => cases result <;> simp [hfeed]

/-- Observing one more chunk: it is parsed and timed, or parsing fails. -/
theorem Observed.observeChunk {chunks : List Bytes} {clock now : ℕ}
    {state : StreamRecordingState} (h : Observed C.json.fromStr chunks clock state)
    (hlive : state.recordingFailed = false) (hclock : clock ≤ now) (chunk : Bytes) :
    ((state.observeChunk C now chunk).1.recordingFailed = false ∧
      Observed C.json.fromStr (chunks ++ [chunk]) now (state.observeChunk C now chunk).1) ∨
    ((state.observeChunk C now chunk).1.recordingFailed = true ∧
      ∃ e, (SseParser.feedAll C.json.fromStr .empty (chunks ++ [chunk])).1 = .error e) := by
  have hfeedAll := SseParser.feedAll_append C.json.fromStr chunks [chunk] .empty
  rw [h.parsed] at hfeedAll
  have hmono := elapsedSince_mono state.upstreamStart hclock
  have hbounded : ∀ o ∈ state.chunkOffsetsMs, o ≤ elapsedSince state.upstreamStart now :=
    fun o ho => UInt64.le_trans (h.bounded o ho) hmono
  simp only [SseParser.feedAll] at hfeedAll
  unfold StreamRecordingState.observeChunk
  simp only [hlive, Bool.false_eq_true, if_false]
  cases hfeed : state.parser.feed C.json.fromStr chunk with
  | mk result parser =>
    rw [hfeed] at hfeedAll
    cases result with
    | error e => exact Or.inr ⟨rfl, e, by simp [hfeedAll, Except.map]⟩
    | ok newEvents =>
      refine Or.inl ⟨rfl, ?_, ?_, ?_, ?_, ?_, ?_, by simp⟩
      · simp [hfeedAll, Except.map]
      · simp [h.rawTranscript]
      · simp [h.length_eq]
      · exact pairwise_append_replicate _ h.sorted hbounded
      · intro o ho
        rcases List.mem_append.1 ho with ho | ho
        · exact hbounded o ho
        · rw [List.eq_of_mem_replicate ho]
          exact UInt64.le_refl _
      -- the first chunk's time is kept, or is this one's
      · rintro t ⟨⟩
        cases ht : state.ttftMs with
        | none =>
          refine ⟨UInt64.le_refl _, fun o ho => ?_⟩
          simp only [h.unset ht, List.nil_append] at ho
          rw [List.eq_of_mem_replicate ho]
          exact UInt64.le_refl _
        | some t =>
          obtain ⟨hnow, hfirst⟩ := h.first t ht
          refine ⟨UInt64.le_trans hnow hmono, fun o ho => ?_⟩
          rcases List.mem_append.1 ho with ho | ho
          · exact hfirst o ho
          · rw [List.eq_of_mem_replicate ho]
            exact UInt64.le_trans hnow hmono

/-- A completed stream of the chunks, timed event by event. -/
structure Completes (status : UInt16) (headers : Headers) (chunks : List Bytes)
    (events : List StreamEvent) (stream : CompletedStream) : Prop where
  status : stream.status = status
  headers : stream.headers = headers
  rawTranscript : stream.rawTranscript = chunks.flatten
  events : stream.events = events
  length_eq : stream.chunkOffsetsMs.length = stream.events.length
  sorted : stream.chunkOffsetsMs.Pairwise (· ≤ ·)
  first : ∀ o ∈ stream.chunkOffsetsMs, stream.ttftMs ≤ o

/-- Finishing hands the interaction to the store if the chunks parse and it can be built. -/
theorem Observed.finishRecording {chunks : List Bytes} {clock now : ℕ}
    {state : StreamRecordingState} (h : Observed C.json.fromStr chunks clock state)
    (hlive : state.recordingFailed = false) (hclock : clock ≤ now) {request : ObservedRequest}
    (hrequest : state.request = some request) (metadata : HarnessResult InteractionMetadata) :
    (∀ e, SseParser.parseChunks C.json.fromStr chunks = .error e →
      state.finishRecording C metadata now = [.failure]) ∧
    ∀ events, SseParser.parseChunks C.json.fromStr chunks = .ok events →
      ∃ stream, Completes state.status state.headers chunks events stream ∧
        state.finishRecording C metadata now =
          match metadata with
          | .error _ => [.failure]
          | .ok metadata =>
            [.append ⟨C.recordedRequest request, C.recordedStream stream, metadata⟩] := by
  have hbounded : ∀ o ∈ state.chunkOffsetsMs, o ≤ elapsedSince state.upstreamStart now :=
    fun o ho => UInt64.le_trans (h.bounded o ho) (elapsedSince_mono state.upstreamStart hclock)
  unfold SseParser.parseChunks StreamRecordingState.finishRecording
  simp only [h.parsed, hlive, Bool.false_eq_true, if_false]
  cases hfinish : state.parser.finish C.json.fromStr with
  | mk result parser =>
    cases result with
    | error e => exact ⟨fun _ _ => rfl, fun events he => (nomatch he)⟩
    | ok newEvents =>
      refine ⟨fun e he => (nomatch he), ?_⟩
      rintro events ⟨⟩
      -- events held back until the end are timed by the end
      refine ⟨⟨state.status, state.headers, state.rawTranscript, state.events ++ newEvents,
        state.ttftMs.getD 0, state.chunkOffsetsMs ++ List.replicate newEvents.length
          (elapsedSince state.upstreamStart now)⟩,
        ⟨rfl, rfl, h.rawTranscript, rfl, by simp [h.length_eq],
          pairwise_append_replicate newEvents.length h.sorted hbounded, ?_⟩, ?_⟩
      · intro o ho
        cases ht : state.ttftMs with
        | none => exact UInt64.zero_le
        | some t =>
          obtain ⟨hnow, hfirst⟩ := h.first t ht
          rcases List.mem_append.1 ho with ho | ho
          · exact hfirst o ho
          · rw [List.eq_of_mem_replicate ho]
            exact UInt64.le_trans hnow (elapsedSince_mono state.upstreamStart hclock)
      · simp only [appendCompletedRecording, hrequest, C.buildStreamInteraction_eq]
        cases metadata <;> rfl

/-- The state goes with the chunks: they are observed, or parsing them has failed. -/
structure Tracks (fromStr : String → Option Json) (chunks : List Bytes) (clock : ℕ)
    (state : StreamRecordingState) : Prop where
  observed : state.recordingFailed = false → Observed fromStr chunks clock state
  failed : state.recordingFailed = true →
    ∃ e, (SseParser.feedAll fromStr .empty chunks).1 = .error e

theorem Tracks.setBody {fromStr : String → Option Json} {chunks : List Bytes} {clock : ℕ}
    {state : StreamRecordingState} (h : Tracks fromStr chunks clock state)
    (upstreamBody : List (HarnessResult Bytes)) :
    Tracks fromStr chunks clock { state with upstreamBody } :=
  ⟨fun hlive => (h.observed hlive).setBody upstreamBody, h.failed⟩

/-- Observing goes on with the next chunk, also where parsing has failed. -/
theorem Tracks.observeChunk {chunks : List Bytes} {clock now : ℕ} {state : StreamRecordingState}
    (h : Tracks C.json.fromStr chunks clock state) (hclock : clock ≤ now) (chunk : Bytes) :
    Tracks C.json.fromStr (chunks ++ [chunk]) now (state.observeChunk C now chunk).1 := by
  cases hlive : state.recordingFailed with
  | true =>
    -- a failed recording ignores the chunk
    have hsame : (state.observeChunk C now chunk).1 = state := by
      simp [StreamRecordingState.observeChunk, hlive]
    rw [hsame]
    refine ⟨fun hlive' => by simp [hlive] at hlive', fun _ => ?_⟩
    obtain ⟨e, he⟩ := h.failed hlive
    refine ⟨e, ?_⟩
    rw [SseParser.feedAll_append]
    cases hall : SseParser.feedAll C.json.fromStr .empty chunks with
    | mk result p => rw [hall] at he; cases he; rfl
  | false =>
    rcases (h.observed hlive).observeChunk hlive hclock chunk with ⟨hok, hnext⟩ | ⟨hbad, hnext⟩
    · exact ⟨fun _ => hnext, fun hfailed => by simp [hok] at hfailed⟩
    · exact ⟨fun hlive' => by simp [hbad] at hlive', fun _ => hnext⟩

/-- What finishing hands to the store, also where parsing has failed. -/
theorem Tracks.finishRecording {chunks : List Bytes} {clock now : ℕ}
    {state : StreamRecordingState} (h : Tracks C.json.fromStr chunks clock state)
    (hclock : clock ≤ now) {request : ObservedRequest} (hrequest : state.request = some request)
    (metadata : HarnessResult InteractionMetadata) :
    (∀ e, SseParser.parseChunks C.json.fromStr chunks = .error e →
      appends (state.finishRecording C metadata now) = []) ∧
    ∀ events, SseParser.parseChunks C.json.fromStr chunks = .ok events →
      ∃ stream, Completes state.status state.headers chunks events stream ∧
        appends (state.finishRecording C metadata now) =
          match metadata with
          | .error _ => []
          | .ok metadata => [⟨C.recordedRequest request, C.recordedStream stream, metadata⟩] := by
  cases hlive : state.recordingFailed with
  | true =>
    have hnone : state.finishRecording C metadata now = [] := by
      simp [StreamRecordingState.finishRecording, hlive]
    obtain ⟨e, he⟩ := h.failed hlive
    have hparse : SseParser.parseChunks C.json.fromStr chunks = .error e := by
      unfold SseParser.parseChunks
      cases hall : SseParser.feedAll C.json.fromStr .empty chunks with
      | mk result p => rw [hall] at he; cases he; rfl
    refine ⟨fun _ _ => by rw [hnone, appends_nil], fun events hevents => ?_⟩
    rw [hparse] at hevents
    cases hevents
  | false =>
    obtain ⟨hunparsed, hparsed⟩ :=
      (h.observed hlive).finishRecording hlive hclock hrequest metadata
    refine ⟨fun e he => by rw [hunparsed e he, appends_failure], fun events hevents => ?_⟩
    obtain ⟨stream, hcompletes, heq⟩ := hparsed events hevents
    refine ⟨stream, hcompletes, ?_⟩
    rw [heq]
    cases metadata <;> rfl

end StreamRecordingState

/-- What passes through a stream: all chunks up to the first error, and that error. -/
def delivered : List (HarnessResult Bytes) → List (HarnessResult Bytes)
  | [] => []
  | .error e :: _ => [.error e]
  | .ok chunk :: body => .ok chunk :: delivered body

theorem delivered_append (chunks : List Bytes) (body : List (HarnessResult Bytes)) :
    delivered (chunks.map .ok ++ body) = chunks.map .ok ++ delivered body := by
  induction chunks with
  | nil => rfl
  | cons chunk chunks ih => simp [delivered, ih]

/-! ### Runs -/

namespace Recording

open StreamRecordingState

variable (C : RecordConfig) (metadata : HarnessResult InteractionMetadata)

/-- Where a recording is after the client has asked for `n` items. -/
inductive After (request : ObservedRequest) (response : StreamingObservedResponse) (n : ℕ)
    (r : Recording) : Prop
  /-- The client has received one chunk for each. -/
  | reading (chunks : List Bytes) (state : StreamRecordingState) (stream : r.stream = some state)
      (body : response.body = chunks.map .ok ++ state.upstreamBody) (asked : chunks.length = n)
      (received : r.received = chunks.map .ok) (actions : appends r.actions = [])
      (request : state.request = some request) (status : state.status = response.status)
      (headers : state.headers = response.headers)
      (observed : state.recordingFailed = false →
        Observed C.json.fromStr chunks r.clock state)
      (failed : state.recordingFailed = true →
        ∃ e, (SseParser.feedAll C.json.fromStr .empty chunks).1 = .error e)
  /-- The stream has come to its end. -/
  | ended (chunks : List Bytes) (stream : r.stream = none)
      (body : response.body = chunks.map .ok) (asked : chunks.length < n)
      (received : r.received = chunks.map .ok)
      (unparsed : ∀ e, SseParser.parseChunks C.json.fromStr chunks = .error e →
        appends r.actions = [])
      (parsed : ∀ events, SseParser.parseChunks C.json.fromStr chunks = .ok events →
        ∃ stream, Completes response.status response.headers chunks events stream ∧
          appends r.actions =
            match metadata with
            | .error _ => []
            | .ok metadata => [⟨C.recordedRequest request, C.recordedStream stream, metadata⟩])
  /-- The upstream has failed. -/
  | failed (chunks : List Bytes) (e : HarnessError) (rest : List (HarnessResult Bytes))
      (stream : r.stream = none) (body : response.body = chunks.map .ok ++ .error e :: rest)
      (asked : chunks.length < n) (received : r.received = chunks.map .ok ++ [.error e])
      (actions : appends r.actions = [])

variable {C metadata}

theorem step_none {r : Recording} (h : r.stream = none) (now : ℕ) :
    r.step C metadata now = { r with clock := now } := by
  simp [step, h]

theorem step_end {r : Recording} {state : StreamRecordingState} (h : r.stream = some state)
    (hbody : state.upstreamBody = []) (now : ℕ) :
    r.step C metadata now =
      ⟨none, r.received, r.actions ++ state.finishRecording C metadata now, now⟩ := by
  simp [step, h, processStreamChunk, hbody]

theorem step_error {r : Recording} {state : StreamRecordingState} (h : r.stream = some state)
    {e : HarnessError} {rest : List (HarnessResult Bytes)}
    (hbody : state.upstreamBody = .error e :: rest) (now : ℕ) :
    r.step C metadata now = ⟨none, r.received ++ [.error e], r.actions ++ [.failure], now⟩ := by
  simp [step, h, processStreamChunk, hbody]

theorem step_chunk {r : Recording} {state : StreamRecordingState} (h : r.stream = some state)
    {chunk : Bytes} {rest : List (HarnessResult Bytes)}
    (hbody : state.upstreamBody = .ok chunk :: rest) (now : ℕ) :
    r.step C metadata now =
      ⟨some (observeChunk C now { state with upstreamBody := rest } chunk).1,
        r.received ++ [.ok chunk],
        r.actions ++ (observeChunk C now { state with upstreamBody := rest } chunk).2, now⟩ := by
  simp [step, h, processStreamChunk, hbody]

/-- An interaction is handed to the store at the end of the stream only. -/
theorem stream_step_of_appends {r : Recording} {now : ℕ}
    (h : appends (r.polled C metadata now) ≠ []) : (r.step C metadata now).stream = none := by
  cases hstream : r.stream with
  | none => rw [step_none hstream, hstream]
  | some state =>
    rcases hbody : state.upstreamBody with _ | ⟨e | chunk, rest⟩
    · rw [step_end hstream hbody]
    · rw [step_error hstream hbody]
    · -- a chunk that is passed on hands nothing to the store
      obtain ⟨-, -, -, -, hnone⟩ :=
        observeChunk_frame (C := C) now { state with upstreamBody := rest } chunk
      simp [polled, hstream, processStreamChunk, hbody, hnone] at h

/-- After the end of the stream nothing is done. -/
theorem actions_run_ended {r : Recording} (h : r.stream = none) (times : List ℕ) :
    (Runs.run (step C metadata) r times).actions = r.actions := by
  induction times generalizing r with
  | nil => rfl
  | cons now times ih =>
    rw [Runs.run_cons, step_none h]
    exact ih (r := { r with clock := now }) h

theorem after_start (request : ObservedRequest) (response : StreamingObservedResponse)
    (upstreamStart : ℕ) :
    After C metadata request response 0 (.start request response upstreamStart) :=
  .reading [] _ rfl rfl rfl rfl rfl rfl rfl rfl
    (fun _ => observed_start request response upstreamStart _ _) (fun h => nomatch h)

theorem After.step {request : ObservedRequest} {response : StreamingObservedResponse} {n : ℕ}
    {r : Recording} {now : ℕ} (h : After C metadata request response n r)
    (hclock : ClockRuns r now) :
    After C metadata request response (n + 1) (r.step C metadata now) := by
  cases h with
  | ended chunks stream body asked received unparsed parsed =>
    rw [step_none stream]
    exact .ended chunks stream body (by omega) received unparsed parsed
  | failed chunks e rest stream body asked received actions =>
    rw [step_none stream]
    exact .failed chunks e rest stream body (by omega) received actions
  | reading chunks state stream body asked received actions hrequest status headers observed
      failed =>
    have htracks : Tracks C.json.fromStr chunks r.clock state := ⟨observed, failed⟩
    rcases hbody : state.upstreamBody with _ | ⟨e | chunk, rest⟩
    -- the upstream has ended: the recording is finished
    · rw [step_end stream hbody]
      rw [hbody, List.append_nil] at body
      have hfinish := htracks.finishRecording hclock hrequest metadata
      rw [status, headers] at hfinish
      refine .ended chunks rfl body (by omega) received ?_ ?_
      · simpa only [appends_append, actions, List.nil_append] using hfinish.1
      · simpa only [appends_append, actions, List.nil_append] using hfinish.2
    -- the upstream has failed: its error is passed on, and nothing is appended
    · rw [step_error stream hbody]
      exact .failed chunks e rest rfl (by rw [body, hbody]) (by omega) (by rw [received])
        (by simp [actions])
    -- a chunk is observed and passed on, whether or not it parses
    · rw [step_chunk stream hbody]
      obtain ⟨hrequest', hstatus', hheaders', hbody', hnone⟩ :=
        observeChunk_frame (C := C) now { state with upstreamBody := rest } chunk
      have hnext := (htracks.setBody rest).observeChunk hclock chunk
      exact .reading (chunks ++ [chunk]) _ rfl (by simp [body, hbody, hbody']) (by simp [asked])
        (by simp [received]) (by simp [actions, hnone]) (hrequest'.trans hrequest)
        (hstatus'.trans status) (hheaders'.trans headers) hnext.observed hnext.failed

theorem after_run (request : ObservedRequest) (response : StreamingObservedResponse)
    (upstreamStart : ℕ) {times : List ℕ}
    (hclock : Runs.Along (step C metadata) ClockRuns
      (.start request response upstreamStart) times) :
    After C metadata request response times.length
      (Runs.run (step C metadata) (.start request response upstreamStart) times) := by
  refine Runs.run_history (I := fun times r => After C metadata request response times.length r)
    (after_start request response upstreamStart) ?_ times hclock
  intro times now h hnow
  rw [List.length_append, List.length_singleton]
  exact h.step hnow

/-- The client has received what passes through the stream, up to where it stopped asking. -/
theorem After.received_eq {request : ObservedRequest} {response : StreamingObservedResponse} {n : ℕ}
    {r : Recording} (h : After C metadata request response n r) :
    r.received = (delivered response.body).take n := by
  cases h with
  | reading chunks state _ body asked received =>
    rw [body, delivered_append, received, List.take_left' (by simpa using asked)]
  | ended chunks _ body asked received =>
    have hdelivered := delivered_append chunks []
    rw [List.append_nil] at hdelivered
    rw [body, hdelivered, received]
    simp only [delivered, List.append_nil]
    rw [List.take_of_length_le (by simp; omega)]
  | failed chunks e rest _ body asked received =>
    rw [body, delivered_append, received]
    simp only [delivered]
    rw [List.take_of_length_le (by simp; omega)]

/-- The chunks of a body that does not fail are determined. -/
theorem map_ok_injective :
    Function.Injective (List.map (Except.ok : Bytes → HarnessResult Bytes)) :=
  List.map_injective_iff.2 fun _ _ h => Except.ok.inj h

/-- What has been handed to the store: one interaction, if the stream was read to its end and
parses, and otherwise nothing. -/
theorem After.appends_eq {request : ObservedRequest} {response : StreamingObservedResponse} {n : ℕ}
    {r : Recording} (h : After C metadata request response n r) :
    (appends r.actions = [] ∧ ¬ (∃ chunks events m, response.body = chunks.map .ok ∧
        chunks.length < n ∧ SseParser.parseChunks C.json.fromStr chunks = .ok events ∧
        metadata = .ok m)) ∨
    ∃ chunks stream m, response.body = chunks.map .ok ∧ chunks.length < n ∧
      SseParser.parseChunks C.json.fromStr chunks = .ok stream.events ∧ metadata = .ok m ∧
      Completes response.status response.headers chunks stream.events stream ∧
      r.received = chunks.map .ok ∧
      appends r.actions = [⟨C.recordedRequest request, C.recordedStream stream, m⟩] := by
  cases h with
  | reading chunks state _ body asked received actions =>
    refine Or.inl ⟨actions, ?_⟩
    rintro ⟨chunks', events, m, hbody, hlen, -⟩
    have hlength := congrArg List.length (body.symm.trans hbody)
    simp at hlength
    omega
  | failed chunks e rest _ body asked received actions =>
    refine Or.inl ⟨actions, ?_⟩
    rintro ⟨chunks', events, m, hbody, hlen, -⟩
    -- a body that fails has an error in it
    have hmem : Except.error e ∈ chunks'.map (Except.ok : Bytes → HarnessResult Bytes) := by
      rw [← hbody, body]
      simp
    simp at hmem
  | ended chunks _ body asked received unparsed parsed =>
    cases hparse : SseParser.parseChunks C.json.fromStr chunks with
    | error e =>
      refine Or.inl ⟨unparsed e hparse, ?_⟩
      rintro ⟨chunks', events, m, hbody, -, hevents, -⟩
      rw [← map_ok_injective (body.symm.trans hbody), hparse] at hevents
      cases hevents
    | ok events =>
      obtain ⟨stream, hcompletes, happends⟩ := parsed events hparse
      cases hmetadata : metadata with
      | error e =>
        subst hmetadata
        refine Or.inl ⟨happends, ?_⟩
        rintro ⟨_, _, _, _, _, _, hm⟩
        cases hm
      | ok m =>
        subst hmetadata
        obtain rfl : stream.events = events := hcompletes.events
        exact Or.inr ⟨chunks, stream, m, body, asked, hparse, rfl, hcompletes, received, happends⟩

/-- **The recorder records what it proxies.**  For every upstream response, every sequence of clock
readings that does not go back, and a client that stops asking at any point: the client receives
exactly the upstream's chunks in order, and its error if there is one.  As long as parsing has not
failed, the transcript is what the client has received, and the events are timed one by one, in
order, the first chunk not after any of them.  At most one interaction is handed to the store, and
one is exactly if the client has read the stream to its end, the upstream has not failed, and the
chunks parse; it holds all bytes that were received and the events of their one-shot parse. -/
theorem received_and_appended (m : InteractionMetadata) (request : ObservedRequest)
    (response : StreamingObservedResponse) (upstreamStart : ℕ) (times : List ℕ)
    (hclock : Runs.Along (step C (.ok m)) ClockRuns (.start request response upstreamStart) times) :
    let r := Runs.run (step C (.ok m)) (.start request response upstreamStart) times
    r.received = (delivered response.body).take times.length ∧
    (∀ state, r.stream = some state → state.recordingFailed = false →
      (∃ chunks : List Bytes, r.received = chunks.map .ok ∧ state.rawTranscript = chunks.flatten) ∧
      state.events.length = state.chunkOffsetsMs.length ∧
      state.chunkOffsetsMs.Pairwise (· ≤ ·) ∧
      ∀ t, state.ttftMs = some t → ∀ o ∈ state.chunkOffsetsMs, t ≤ o) ∧
    (appends r.actions).length ≤ 1 ∧
    (appends r.actions ≠ [] ↔ ∃ chunks events, response.body = chunks.map .ok ∧
      chunks.length < times.length ∧
      SseParser.parseChunks C.json.fromStr chunks = .ok events) ∧
    ∀ i ∈ appends r.actions, ∃ (chunks : List Bytes) (stream : CompletedStream),
      r.received = chunks.map .ok ∧
      i = ⟨C.recordedRequest request, C.recordedStream stream, m⟩ ∧
      stream.rawTranscript = chunks.flatten ∧
      SseParser.parse C.json.fromStr stream.rawTranscript = .ok stream.events ∧
      stream.chunkOffsetsMs.length = stream.events.length := by
  intro r
  have hafter : After C (.ok m) request response times.length r :=
    after_run request response upstreamStart hclock
  refine ⟨hafter.received_eq, ?_, ?_⟩
  · intro state hstate hlive
    cases hafter with
    | reading chunks state' stream _ _ received _ _ _ _ observed _ =>
      obtain rfl : state = state' := Option.some.inj (hstate.symm.trans stream)
      have hobserved := observed hlive
      exact ⟨⟨chunks, received, hobserved.rawTranscript⟩, hobserved.length_eq.symm,
        hobserved.sorted, fun t ht => (hobserved.first t ht).2⟩
    | ended _ stream => rw [hstate] at stream; cases stream
    | failed _ _ _ stream => rw [hstate] at stream; cases stream
  · rcases hafter.appends_eq with ⟨hnone, hnot⟩ |
      ⟨chunks, stream, m', hbody, hasked, hparse, hm, hcompletes, hreceived, happends⟩
    · refine ⟨by simp [hnone], ⟨fun h => absurd hnone h, ?_⟩, by simp [hnone]⟩
      rintro ⟨chunks, events, hbody, hasked, hparse⟩
      exact absurd ⟨chunks, events, m, hbody, hasked, hparse, rfl⟩ hnot
    · obtain rfl : m = m' := Except.ok.inj hm
      rw [happends]
      refine ⟨by simp, ⟨fun _ => ⟨chunks, _, hbody, hasked, hparse⟩, fun _ => by simp⟩, ?_⟩
      intro i hi
      obtain rfl := List.mem_singleton.1 hi
      refine ⟨chunks, stream, hreceived, rfl, hcompletes.rawTranscript, ?_, hcompletes.length_eq⟩
      rw [hcompletes.rawTranscript, ← SseParser.parseChunks_eq_parse]
      exact hparse

/-- An event in two chunks, read to the end. -/
theorem received_and_appended_two_chunks :
    let C : RecordConfig := ⟨.exact, Sha256.digest, .default⟩
    let m : InteractionMetadata := ⟨"chat", "up", "now", 0⟩
    let request : ObservedRequest := ⟨"POST", chatCompletionsPath, "", [], [], [], none⟩
    let chunks := [Str.asBytes "data: a\n", Str.asBytes "\n"]
    let r := Runs.run (step C (.ok m)) (start request ⟨200, [], [], chunks.map .ok⟩ 5)
      [5, 7000000, 9000000]
    r.received = chunks.map .ok ∧ (appends r.actions).length ≤ 1 ∧ appends r.actions ≠ [] := by
  intro C m request chunks r
  obtain ⟨hreceived, -, hone, hsome, -⟩ := received_and_appended (C := C) m request
    ⟨200, [], [], chunks.map .ok⟩ 5 [5, 7000000, 9000000] (by decide +kernel)
  exact ⟨hreceived, hone, hsome.2 ⟨chunks, [.data "a" none], rfl, by decide, by decide +kernel⟩⟩

end Recording

end SpycatcherHarness
