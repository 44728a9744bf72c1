import SpycatcherHarness.Cassette.Session
import SpycatcherHarness.Server.RecordStream
import SpycatcherHarness.Sse.RoundTrip

/-!
# The record service

The service forwards a request, hands the response on, and appends the interaction to its store.  A
streaming request is answered by a recording stream, and appended when the client has read that to
its end.

An `Exchange` is one request with everything that happens around it: what the upstream answers,
whether the metadata can be created, when the client asks for the items of a stream, and which
steps of the append fail.  `Recorder.exchange` handles it to its end.

* `Exchange.attempted` : the interaction that an exchange hands to the store.
* `Recorder.exchange_eq` : an exchange is its actions, one after another.
* `Recorder.session_exchange` : all that an exchange does to the store and the file.
* `Recorder.exchange_cases` : it extends both by what it persists, or changes neither.
* `Exchange.attempted_cases` : what an interaction handed to the store is made of.
-/

namespace SpycatcherHarness

open Files Store

/-- One request and what happens around it. -/
structure Exchange (C : RecordConfig) where
  request : ObservedRequest
  /-- The credential that the environment provider reads. -/
  apiKey : Option String
  /-- What `send_chat_completions` returns. -/
  send : HarnessResult ObservedResponse
  /-- What `stream_chat_completions` returns. -/
  stream : HarnessResult StreamingObservedResponse
  metadata : HarnessResult InteractionMetadata
  /-- The clock when the upstream request is started. -/
  started : ℕ
  /-- The clock whenever the client asks for the next item of a stream. -/
  times : List ℕ
  /-- Which steps of the append fail. -/
  faults : Faults
  observed : C.Observes request
  observedResponse : ∀ response, send = .ok response → C.ObservesResponse response
  clockRuns : ∀ response, stream = .ok response →
    Runs.Along (Recording.step C metadata) Recording.ClockRuns
      (.start request response started) times

/-- Body data returned to the HTTP adapter. -/
inductive ProxyBody where
  | buffered (bytes : Bytes)
  | stream (recording : Recording)

/-- Response data returned to the HTTP adapter. -/
structure ProxyResponse where
  status : UInt16
  headers : List (String × Bytes)
  body : ProxyBody

/-- A record service and the directory its store writes to. -/
structure Recorder where
  dir : Dir String
  store : Store
  /-- The store's lock is poisoned. -/
  poisoned : Bool
  /-- Number of interactions successfully persisted in this session. -/
  recordedCount : UInt64
  /-- Number of upstream, build, or persistence failures observed. -/
  failureCount : UInt64

namespace Recorder

variable (C : RecordConfig)

/-- The directory after opening the cassette, and the service of the new session. -/
def start (faults : Faults) (dir : Dir String) (fileName : String) :
    Dir String × HarnessResult Recorder :=
  let (ops, result) := openOrCreateForRecord C.json faults dir fileName
  (applyAll dir ops, result.map fun store => ⟨applyAll dir ops, store, false, 0, 0⟩)

/-- `append_interaction`. -/
def appendInteraction (faults : Faults) (r : Recorder) (interaction : Interaction) :
    Except RecordError Unit × Recorder :=
  if r.poisoned then (.error .internal, r)
  else
    match Store.append C.json faults r.dir r.store interaction with
    | ((ops, .ok ()), store) => (.ok (), { r with dir := applyAll r.dir ops, store })
    | ((ops, .error _), store) => (.error .internal, { r with dir := applyAll r.dir ops, store })

/-- The failure count is incremented. -/
def countFailure (r : Recorder) : Recorder := { r with failureCount := r.failureCount + 1 }

/-- The recorded count is incremented. -/
def countRecorded (r : Recorder) : Recorder := { r with recordedCount := r.recordedCount + 1 }

/-- `persist_interaction`. -/
def persistInteraction (faults : Faults) (r : Recorder) (interaction : Interaction) : Recorder :=
  match r.appendInteraction C faults interaction with
  | (.ok (), r) => r.countRecorded
  | (.error _, r) => r.countFailure

/-- An action of a recording stream. -/
def act (faults : Faults) (r : Recorder) : RecordAction → Recorder
  | .failure => r.countFailure
  | .append interaction => r.persistInteraction C faults interaction

/-- `record_response`. -/
def recordResponse (x : Exchange C) (response : ObservedResponse) (r : Recorder) :
    Except RecordError Unit × Recorder :=
  match C.buildInteraction x.request response x.metadata with
  | .error e => (.error e, r)
  | .ok interaction =>
    match r.appendInteraction C x.faults interaction with
    | (.error e, r) => (.error e, r)
    | (.ok (), r) => (.ok (), r.countRecorded)

/-- `handle_streaming_chat_completions`. -/
def handleStreamingChatCompletions (r : Recorder) (x : Exchange C) :
    Except RecordError ProxyResponse × Recorder :=
  match x.apiKey with
  | none => (.error .missingApiKeyNotConfigured, r)
  | some _ =>
    match x.stream with
    | .error _ => (.error .internal, r.countFailure)
    | .ok response =>
      (.ok ⟨response.status, response.proxyHeaders,
        .stream (.start x.request response x.started)⟩, r)

/-- `handle_chat_completions`. -/
def handleChatCompletions (r : Recorder) (x : Exchange C) :
    Except RecordError ProxyResponse × Recorder :=
  if isStreamingChatCompletionsRequest x.request.parsedJson then
    r.handleStreamingChatCompletions C x
  else
    match x.apiKey with
    | none => (.error .missingApiKeyNotConfigured, r)
    | some _ =>
      match x.send with
      | .error _ => (.error .internal, r.countFailure)
      | .ok response =>
        let proxied : ProxyResponse :=
          ⟨response.status, response.proxyHeaders, .buffered response.body⟩
        match r.recordResponse C x response with
        | (.ok (), r) => (.ok proxied, r)
        | (.error _, r) => (.ok proxied, r.countFailure)

/-- A request is handled and, if it is answered by a stream, the client reads from that. -/
def exchange (r : Recorder) (x : Exchange C) : Recorder :=
  match r.handleChatCompletions C x with
  | (.ok ⟨_, _, .stream recording⟩, r) =>
    (Runs.run (Recording.step C x.metadata) recording x.times).actions.foldl (act C x.faults) r
  | (.ok ⟨_, _, .buffered _⟩, r) | (.error _, r) => r

end Recorder

namespace Exchange

variable {C : RecordConfig} (x : Exchange C)

/-- The recording of a streaming exchange, once the client has stopped asking. -/
def recording (response : StreamingObservedResponse) : Recording :=
  Runs.run (Recording.step C x.metadata) (.start x.request response x.started) x.times

/-- The interaction that an exchange hands to the store. -/
def attempted : Option Interaction :=
  if x.apiKey.isNone then none
  else if isStreamingChatCompletionsRequest x.request.parsedJson then
    match x.stream with
    | .error _ => none
    | .ok response => (appends (x.recording response).actions).head?
  else
    match x.send with
    | .error _ => none
    | .ok response => (C.buildInteraction x.request response x.metadata).toOption

/-- What an exchange does to the service. -/
def actions : List RecordAction :=
  if x.apiKey.isNone then []
  else if isStreamingChatCompletionsRequest x.request.parsedJson then
    match x.stream with
    | .error _ => [.failure]
    | .ok response => (x.recording response).actions
  else
    match x.send with
    | .error _ => [.failure]
    | .ok response =>
      match C.buildInteraction x.request response x.metadata with
      | .error _ => [.failure]
      | .ok interaction => [.append interaction]

/-- At most one of the actions hands an interaction to the store. -/
theorem appends_actions : appends x.actions = x.attempted.toList := by
  unfold actions attempted
  split_ifs
  · rfl
  · cases hup : x.stream with
    | error e => rfl
    | ok response =>
      have hafter := Recording.after_run x.request response x.started (x.clockRuns response hup)
      rcases hafter.appends_eq with ⟨hnone, -⟩ | ⟨_, _, _, _, _, _, _, _, _, hone⟩
      · simp [recording, hnone]
      · simp [recording, hone]
  · cases x.send with
    | error e => rfl
    | ok response =>
      simp only
      cases C.buildInteraction x.request response x.metadata <;> rfl

/-- What an interaction handed to the store is made of: the request as it was observed, and the
response, or the whole stream, as the client received it, and its events. -/
inductive Attempted : Interaction → Prop
  | nonStream (response : ObservedResponse) (metadata : InteractionMetadata)
      (plain : isStreamingChatCompletionsRequest x.request.parsedJson = false)
      (send : x.send = .ok response) :
      Attempted ⟨C.recordedRequest x.request, C.recordedResponse response, metadata⟩
  | stream (response : StreamingObservedResponse) (chunks : List Bytes)
      (completed : CompletedStream) (metadata : InteractionMetadata)
      (streaming : isStreamingChatCompletionsRequest x.request.parsedJson = true)
      (stream : x.stream = .ok response) (body : response.body = chunks.map .ok)
      (parsed : SseParser.parseChunks C.json.fromStr chunks = .ok completed.events)
      (completes : StreamRecordingState.Completes response.status response.headers chunks
        completed.events completed)
      (received : (x.recording response).received = chunks.map .ok) :
      Attempted ⟨C.recordedRequest x.request, C.recordedStream completed, metadata⟩

theorem attempted_cases {i : Interaction} (h : x.attempted = some i) : x.Attempted i := by
  unfold attempted at h
  split_ifs at h with hkey hstream
  · cases hup : x.stream with
    | error e => simp [hup] at h
    | ok response =>
      rw [hup] at h
      have hafter := Recording.after_run x.request response x.started (x.clockRuns response hup)
      rcases hafter.appends_eq with ⟨hnone, -⟩ |
        ⟨chunks, completed, m, hbody, -, hparse, -, hcompletes, hreceived, happends⟩
      · simp [recording, hnone] at h
      · obtain rfl : _ = i := by simpa [recording, happends] using h
        exact .stream response chunks completed m hstream hup hbody hparse hcompletes hreceived
  · cases hup : x.send with
    | error e => simp [hup] at h
    | ok response =>
      simp only [hup, C.buildInteraction_eq] at h
      cases hmetadata : x.metadata with
      | error e => simp [hmetadata, Except.toOption] at h
      | ok metadata =>
        obtain rfl : _ = i := by simpa [hmetadata, Except.toOption] using h
        exact .nonStream response metadata (by simpa using hstream) hup

/-- A buffered exchange that gets a response and its metadata hands both to the store. -/
theorem attempted_buffered {key : String} {response : ObservedResponse}
    {metadata : InteractionMetadata} (hkey : x.apiKey = some key)
    (hplain : isStreamingChatCompletionsRequest x.request.parsedJson = false)
    (hsend : x.send = .ok response) (hmetadata : x.metadata = .ok metadata) :
    x.attempted =
      some ⟨C.recordedRequest x.request, C.recordedResponse response, metadata⟩ := by
  simp [attempted, hkey, hplain, hsend, hmetadata, C.buildInteraction_eq, Except.toOption]

/-! ### The values of an interaction -/

variable {x}

/-- What the crate parses has distinct keys. -/
theorem wf_parsedJson {v : Option Json} {bytes : Bytes}
    (h : v = C.parseJsonBytes bytes) : Codec.WfOption v := by
  rintro w rfl
  exact (SerdeJson.within_of_fromSlice h.symm).1

theorem wf_canonicalRequest (x : Exchange C) :
    Codec.WfOption (C.recordedRequest x.request).canonicalRequest := by
  rintro v hv
  obtain rfl := Option.some.inj hv
  exact canonicalRequestValue_wf (canonicalForm_wf (wf_parsedJson x.observed))

/-- The values of an interaction that is handed to the store have distinct keys. -/
theorem Attempted.wf {i : Interaction} (h : x.Attempted i) : i.Wf := by
  refine ⟨?_, ?_, ?_⟩
  · cases h <;> exact wf_parsedJson x.observed
  · cases h <;> exact wf_canonicalRequest x
  · cases h with
    | nonStream response _ _ send => exact wf_parsedJson (x.observedResponse response send)
    | stream response chunks completed _ _ _ _ parsed =>
      rw [SseParser.parseChunks_eq_parse] at parsed
      intro e he
      cases SseParser.emitted_of_parse parsed e he with
      | comment _ => trivial
      | data _ => exact wf_parsedJson rfl

/-- The JSON of an exchange is nested no deeper than can be read back from where it is stored: the
request's body five levels below the document's root, a buffered response's body four levels, and
the payload of a stream event six levels. -/
structure Shallow (x : Exchange C) : Prop where
  request : Codec.DepthLe (maxDepth - 5) x.request.parsedJson
  response : isStreamingChatCompletionsRequest x.request.parsedJson = false →
    ∀ response, x.send = .ok response → Codec.DepthLe (maxDepth - 4) response.parsedJson
  events : isStreamingChatCompletionsRequest x.request.parsedJson = true →
    ∀ (response : StreamingObservedResponse) (chunks : List Bytes) (events : List StreamEvent),
      x.stream = .ok response → response.body = chunks.map .ok →
      SseParser.parse C.json.fromStr chunks.flatten = .ok events →
      ∀ e ∈ events, e.DepthLe (maxDepth - 6)

/-- The canonical request adds a level around the body. -/
theorem depth_canonicalRequest (request : ObservedRequest) (n : ℕ) :
    Codec.DepthLe (n + 1) (C.recordedRequest request).canonicalRequest ↔
      Codec.DepthLe n request.parsedJson := by
  have hvalue : (C.recordedRequest request).canonicalRequest =
      some (canonicalRequestValue (canonicalForm (C.unhashed request))) := rfl
  have hbody : ((request.parsedJson.map Canonical.sortJsonValue).getD .null).depth ≤ n ↔
      Codec.DepthLe n request.parsedJson := by
    cases request.parsedJson <;> simp [Codec.DepthLe, Canonical.depth_sortJsonValue]
  simp only [hvalue, Codec.DepthLe, Option.some.injEq, forall_eq', canonicalRequestValue,
    Json.depth_object_le, List.forall_mem_cons, Json.depth_string, Nat.zero_le, true_and,
    List.not_mem_nil, false_imp_iff, implies_true, and_true]
  exact hbody

/-- An interaction that is handed to the store can be read back exactly if the exchange's JSON is
not nested too deep. -/
theorem Attempted.depthLe_iff {i : Interaction} (h : x.Attempted i) :
    i.DepthLe Cassette.eventDepth ↔ x.Shallow := by
  -- the canonical request puts the body one level deeper than the request itself does
  have hmono : Codec.DepthLe (maxDepth - 5) x.request.parsedJson →
      Codec.DepthLe (Cassette.eventDepth + 2) x.request.parsedJson :=
    fun hd v hv => (hd v hv).trans (by decide)
  have hcanonical := depth_canonicalRequest (C := C) x.request (maxDepth - 5)
  cases h with
  | nonStream response metadata plain send =>
    constructor
    · intro hd
      refine ⟨hcanonical.1 hd.canonicalRequest, fun _ response' send' => ?_, fun hstream => ?_⟩
      · obtain rfl : response = response' := Except.ok.inj (send.symm.trans send')
        exact hd.response
      · rw [plain] at hstream
        cases hstream
    · exact fun hs => ⟨hmono hs.request, hcanonical.2 hs.request, hs.response plain response send⟩
  | stream response chunks completed metadata streaming stream body parsed =>
    rw [SseParser.parseChunks_eq_parse] at parsed
    constructor
    · intro hd
      refine ⟨hcanonical.1 hd.canonicalRequest, fun hplain => ?_, ?_⟩
      · rw [streaming] at hplain
        cases hplain
      · intro _ response' chunks' events stream' body' parsed'
        obtain rfl : response = response' := Except.ok.inj (stream.symm.trans stream')
        obtain rfl := Recording.map_ok_injective (body.symm.trans body')
        obtain rfl : completed.events = events := Except.ok.inj (parsed.symm.trans parsed')
        exact hd.response
    · exact fun hs => ⟨hmono hs.request, hcanonical.2 hs.request,
        hs.events streaming response chunks completed.events stream body parsed⟩

end Exchange

/-! ### What an exchange does to the store -/

namespace Recorder

variable {C : RecordConfig}

/-- The store and the directory, as a session of the store. -/
def session (r : Recorder) : Session := ⟨r.dir, some r.store⟩

/-- An append to a store whose lock is not poisoned is one of its session. -/
theorem session_appendInteraction {r : Recorder} (hlock : r.poisoned = false) (faults : Faults)
    (i : Interaction) (fileName : String) :
    (r.appendInteraction C faults i).2.session =
        Session.step C.json fileName r.session (.append faults i) ∧
      (r.appendInteraction C faults i).2.poisoned = false := by
  cases happend : Store.append C.json faults r.dir r.store i with
  | mk effect store =>
    obtain ⟨ops, result⟩ := effect
    cases result <;> simp [appendInteraction, hlock, happend, session, Session.step]

/-- Counting does not touch the store. -/
theorem session_persistInteraction {r : Recorder} (hlock : r.poisoned = false) (faults : Faults)
    (i : Interaction) (fileName : String) :
    (r.persistInteraction C faults i).session =
        Session.step C.json fileName r.session (.append faults i) ∧
      (r.persistInteraction C faults i).poisoned = false := by
  have h := session_appendInteraction (C := C) hlock faults i fileName
  unfold persistInteraction
  cases happend : r.appendInteraction C faults i with
  | mk result r' =>
    rw [happend] at h
    cases result <;> exact h

/-- The actions of a recording append its interactions, one after another. -/
theorem session_foldl_act (faults : Faults) (fileName : String) (actions : List RecordAction) :
    ∀ r : Recorder, r.poisoned = false →
      (actions.foldl (act C faults) r).session =
          Runs.run (Session.step C.json fileName) r.session
            ((appends actions).map (Session.Event.append faults)) ∧
        (actions.foldl (act C faults) r).poisoned = false := by
  induction actions with
  | nil => exact fun r hlock => ⟨rfl, hlock⟩
  | cons action actions ih =>
    intro r hlock
    cases action with
    | failure => exact ih r.countFailure hlock
    | append i =>
      obtain ⟨hsession, hlock'⟩ := session_persistInteraction (C := C) hlock faults i fileName
      obtain ⟨hrest, hpoisoned⟩ := ih (r.persistInteraction C faults i) hlock'
      refine ⟨?_, hpoisoned⟩
      rw [List.foldl_cons, act, hrest, hsession]
      rfl

/-- An exchange is its actions, one after another. -/
theorem exchange_eq (r : Recorder) (x : Exchange C) :
    r.exchange C x = x.actions.foldl (act C x.faults) r := by
  unfold exchange handleChatCompletions handleStreamingChatCompletions Exchange.actions
  cases hkey : x.apiKey with
  | none => simp
  | some key =>
    simp only [Option.isNone_some, Bool.false_eq_true, if_false]
    split_ifs with hstream
    · cases hup : x.stream with
      | error e => rfl
      | ok response => rfl
    · cases hup : x.send with
      | error e => rfl
      | ok response =>
        simp only [recordResponse]
        cases hbuild : C.buildInteraction x.request response x.metadata with
        | error e => rfl
        | ok i =>
          simp only [List.foldl_cons, List.foldl_nil, act, persistInteraction]
          rcases r.appendInteraction C x.faults i with ⟨e | u, r'⟩ <;> rfl

/-- **An exchange appends what it hands to the store**, and nothing else happens to the store. -/
theorem session_exchange {r : Recorder} (hlock : r.poisoned = false) (x : Exchange C)
    (fileName : String) :
    (r.exchange C x).session =
        Runs.run (Session.step C.json fileName) r.session
          (x.attempted.toList.map (Session.Event.append x.faults)) ∧
      (r.exchange C x).poisoned = false := by
  rw [exchange_eq, ← x.appends_actions]
  exact session_foldl_act x.faults fileName x.actions r hlock

/-- An append to a store whose lock is not poisoned extends the store and its file, or changes
neither. -/
theorem appendInteraction_cases {r : Recorder} (hlock : r.poisoned = false) (faults : Faults)
    (i : Interaction) :
    ((r.appendInteraction C faults i).1 = .ok () ∧
      (r.appendInteraction C faults i).2.store =
        { r.store with cassette := r.store.cassette.append i } ∧
      content (r.appendInteraction C faults i).2.dir r.store.fileName =
        some ((r.store.cassette.append i).writeTo C.json)) ∨
    ((r.appendInteraction C faults i).1 = .error .internal ∧
      (r.appendInteraction C faults i).2.store = r.store ∧
      content (r.appendInteraction C faults i).2.dir r.store.fileName =
        content r.dir r.store.fileName) := by
  rcases append_spec C.json faults r.dir r.store i with ⟨ops, heq, hops⟩ | ⟨ops, e, heq, hops⟩
  · left
    simp [appendInteraction, hlock, heq, hops]
  · right
    simp [appendInteraction, hlock, heq, hops]

variable (C) in
/-- The exchange hands an interaction to the store, and it is appended. -/
def Persists (r : Recorder) (x : Exchange C) (i : Interaction) : Prop :=
  x.attempted = some i ∧ (r.appendInteraction C x.faults i).1 = .ok ()

/-- An exchange extends the store and its file by the interaction that it persists, or changes
neither. -/
theorem exchange_cases {r : Recorder} (hlock : r.poisoned = false) (x : Exchange C) :
    (r.exchange C x).poisoned = false ∧
    ((∃ i, r.Persists C x i ∧
      (r.exchange C x).store = { r.store with cassette := r.store.cassette.append i } ∧
      content (r.exchange C x).dir r.store.fileName =
        some ((r.store.cassette.append i).writeTo C.json)) ∨
    ((∀ i, ¬ r.Persists C x i) ∧ (r.exchange C x).store = r.store ∧
      content (r.exchange C x).dir r.store.fileName = content r.dir r.store.fileName)) := by
  obtain ⟨hsession, hlock'⟩ := session_exchange hlock x r.store.fileName
  refine ⟨hlock', ?_⟩
  cases hattempted : x.attempted with
  | none =>
    have hsame : (r.exchange C x).session = r.session := by rw [hsession, hattempted]; rfl
    simp only [session, Session.mk.injEq, Option.some.injEq] at hsame
    exact Or.inr ⟨fun i h => by simp [Persists, hattempted] at h, hsame.2, by rw [hsame.1]⟩
  -- the counters differ, but store and directory are those of the append
  | some i =>
    have hsame : (r.exchange C x).session = (r.appendInteraction C x.faults i).2.session := by
      rw [hsession, hattempted, (session_appendInteraction hlock x.faults i r.store.fileName).1]
      rfl
    simp only [session, Session.mk.injEq, Option.some.injEq] at hsame
    rw [hsame.1, hsame.2]
    rcases appendInteraction_cases (C := C) hlock x.faults i with ⟨hok, h⟩ | ⟨herror, h⟩
    · exact Or.inl ⟨i, ⟨hattempted, hok⟩, h⟩
    · refine Or.inr ⟨?_, h⟩
      rintro j ⟨hj, hok⟩
      obtain rfl : i = j := Option.some.inj (hattempted.symm.trans hj)
      rw [herror] at hok
      cases hok

/-- What an exchange that persists its interaction leaves. -/
theorem exchange_of_persists {r : Recorder} (hlock : r.poisoned = false) {x : Exchange C}
    {i : Interaction} (h : r.Persists C x i) :
    (r.exchange C x).poisoned = false ∧
      (r.exchange C x).store = { r.store with cassette := r.store.cassette.append i } ∧
      content (r.exchange C x).dir r.store.fileName =
        some ((r.store.cassette.append i).writeTo C.json) := by
  obtain ⟨hlock', ⟨j, hj, hstore, hfile⟩ | ⟨hnone, -⟩⟩ := exchange_cases hlock x
  · obtain rfl : j = i := Option.some.inj (hj.1.symm.trans h.1)
    exact ⟨hlock', hstore, hfile⟩
  · exact (hnone i h).elim

/-- Where no step fails, what is handed to the store is appended. -/
theorem persists_none {r : Recorder} (hlock : r.poisoned = false) {x : Exchange C}
    (hfaults : x.faults = .none) {i : Interaction} (h : x.attempted = some i) :
    r.Persists C x i := by
  obtain ⟨ops, happend, -⟩ := append_none C.json r.dir r.store i
  exact ⟨h, by simp [appendInteraction, hlock, hfaults, happend]⟩

variable (C) in
/-- Where there is no cassette file and no step fails, the service starts with a new cassette. -/
theorem start_none {dir : Dir String} {fileName : String} (habsent : content dir fileName = none) :
    ∃ dir', start C .none dir fileName =
      (dir', .ok ⟨dir', ⟨fileName, .new⟩, false, 0, 0⟩) := by
  obtain ⟨ops, heq, -⟩ := openOrCreateForRecord_none_of_none C.json habsent
  exact ⟨applyAll dir ops, by simp [start, heq, Except.map]⟩

end Recorder

end SpycatcherHarness
