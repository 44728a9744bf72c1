import SpycatcherHarness.Cassette.Matching
import SpycatcherHarness.Machine.Runs
import SpycatcherHarness.Server.Exchange
import SpycatcherHarness.Server.ReplayStream

/-!
# The replay service

The service hashes an observed request, asks the matching engine for an interaction, builds the
response of a match and only then consumes the interaction.

* `ReplayService.handleChatCompletions_eq` : what handling a request comes to.
* `ReplayService.AnsweredFrom.spec` : an answer is built from an interaction with the request's
  hash.
* `ReplayService.handle_sequential` : in sequential mode a request with the next hash is answered
  from the next interaction.
* `ReplayService.answers_sequential` : a list of requests is answered from a list of interactions.
* `ReplayService.answers_new` : the requests of a whole cassette are answered from it.
-/

namespace SpycatcherHarness

/-- Replay body data. -/
inductive ReplayBody where
  /-- Raw recorded body bytes for non-stream responses. -/
  | oneShot (bytes : Bytes)
  /-- Parsed stream events in observed order. -/
  | events (events : List StreamEvent)
  deriving DecidableEq

/-- The body that the HTTP adapter sends for it. -/
def ReplayBody.render : ReplayBody → Body
  | .oneShot bytes => .buffered bytes
  | .events es => buildStreamBody es

/-- Replay response data. -/
structure ReplayResponse where
  status : UInt16
  headers : Headers
  body : ReplayBody
  deriving DecidableEq

/-- Request-level replay failures. -/
inductive ReplayError where
  /-- The observed request does not match the next replayable interaction. -/
  | mismatch (diagnostic : MismatchDiagnostic)
  | unsupportedStream
  /-- A streaming request matched a non-stream cassette interaction. -/
  | streamCassetteRequiredForStreamRequest
  /-- Chat completions replay requires a valid JSON request body. -/
  | malformedJson
  | internal
  deriving DecidableEq

/-- `observed_to_recorded_request`. -/
def observedToRecordedRequest (request : ObservedRequest) : RecordedRequest where
  method := request.method
  path := request.path
  query := request.query
  headers := request.headers
  body := request.body
  parsedJson := request.parsedJson
  canonicalRequest := none
  stableHash := none

/-- `response_from_non_stream`. -/
def responseFromNonStream (status : UInt16) (headers : Headers) (body : Bytes)
    (isStreamRequest : Bool) : Except ReplayError ReplayResponse :=
  if isStreamRequest then .error .streamCassetteRequiredForStreamRequest
  else .ok ⟨status, headers, .oneShot body⟩

/-- `response_from_recorded`. -/
def responseFromRecorded (response : RecordedResponse) (isStreamRequest : Bool) :
    Except ReplayError ReplayResponse :=
  match response with
  | .nonStream status headers body _ => responseFromNonStream status headers body isStreamRequest
  | .stream status headers events _ _ => .ok ⟨status, headers, .events events⟩

/-- `ReplayService`. -/
structure ReplayService where
  engine : ReplayMatchEngine
  /-- The engine's lock is poisoned. -/
  poisoned : Bool
  matchedCount : UInt64
  mismatchCount : UInt64

namespace ReplayService

/-- `ReplayService::with_context`, less the labels for telemetry. -/
def new (engine : ReplayMatchEngine) : ReplayService := ⟨engine, false, 0, 0⟩

/-- `match_recorded_response`. -/
def matchRecordedResponse (service : ReplayService) (observedHash : String)
    (canonicalRequest : Json) (isStreamRequest : Bool) :
    Except ReplayError ReplayResponse × ReplayService :=
  if service.poisoned then (.error .internal, service)
  else
    match service.engine.peekMatch observedHash canonicalRequest with
    | .mismatch diagnostic =>
      (.error (.mismatch diagnostic), { service with mismatchCount := service.mismatchCount + 1 })
    | .matched interactionId interaction =>
      match responseFromRecorded interaction.response isStreamRequest with
      -- nothing is consumed when the response cannot be built
      | .error e => (.error e, service)
      | .ok response =>
        match service.engine.commitMatch interactionId with
        | (false, engine) => (.error .internal, { service with engine })
        | (true, engine) =>
          (.ok response, { service with engine, matchedCount := service.matchedCount + 1 })

section
variable (sha256 : Bytes → Bytes)

/-- `canonicalize_observed_request`. -/
def canonicalizeObservedRequest (request : ObservedRequest) :
    Except ReplayError RecordedRequest :=
  match populateCanonicalFields sha256 (observedToRecordedRequest request) .default with
  | .ok recordedRequest => .ok recordedRequest
  | .error _ => .error .internal

/-- `handle_chat_completions`. -/
def handleChatCompletions (service : ReplayService) (request : ObservedRequest) :
    Except ReplayError ReplayResponse × ReplayService :=
  let isStreamRequest := isStreamingChatCompletionsRequest request.parsedJson
  if request.parsedJson.isNone then (.error .malformedJson, service)
  else
    match canonicalizeObservedRequest sha256 request with
    | .error e => (.error e, service)
    | .ok recordedRequest =>
      match recordedRequest.stableHash, recordedRequest.canonicalRequest with
      | some observedHash, some canonicalRequest =>
        service.matchRecordedResponse observedHash canonicalRequest isStreamRequest
      | _, _ => (.error .internal, service)

/-- The canonical form of an observed request. -/
def canonicalOf (request : ObservedRequest) : CanonicalRequest :=
  canonicalForm (observedToRecordedRequest request)

/-- The hash of an observed request. -/
def hashOf (request : ObservedRequest) : String := stableHash sha256 (canonicalOf request)

/-- What handling a request comes to. -/
theorem handleChatCompletions_eq (service : ReplayService) (request : ObservedRequest) :
    service.handleChatCompletions sha256 request =
      if request.parsedJson.isNone then (.error .malformedJson, service)
      else service.matchRecordedResponse (hashOf sha256 request)
        (canonicalRequestValue (canonicalOf request))
        (isStreamingChatCompletionsRequest request.parsedJson) := by
  unfold handleChatCompletions canonicalizeObservedRequest
  rw [populateCanonicalFields_default]
  rfl

end

/-! ### Answers -/

variable {sha256 : Bytes → Bytes} {service : ReplayService} {request : ObservedRequest}

variable (sha256 service request) in
/-- The request is answered from the interaction at an index of the cassette. -/
def AnsweredFrom (idx : ℕ) : Prop :=
  ∃ response i, (service.handleChatCompletions sha256 request).1 = .ok response ∧
    service.engine.peekMatch (hashOf sha256 request)
      (canonicalRequestValue (canonicalOf request)) = .matched idx i ∧
    responseFromRecorded i.response (isStreamingChatCompletionsRequest request.parsedJson) =
      .ok response

/-- Every answer is built from an interaction, of a request that is JSON. -/
theorem of_handle_ok {response : ReplayResponse}
    (h : (service.handleChatCompletions sha256 request).1 = .ok response) :
    request.parsedJson.isSome ∧ ∃ idx, AnsweredFrom sha256 service request idx := by
  have hok := h
  rw [handleChatCompletions_eq] at h
  split_ifs at h with hnone
  refine ⟨Option.ne_none_iff_isSome.1 (by simpa using hnone), ?_⟩
  unfold matchRecordedResponse at h
  split_ifs at h with hpoisoned
  cases hpeek : service.engine.peekMatch (hashOf sha256 request)
      (canonicalRequestValue (canonicalOf request)) with
  | mismatch diagnostic => simp [hpeek] at h
  | matched idx i =>
    simp only [hpeek] at h
    cases hresponse : responseFromRecorded i.response
        (isStreamingChatCompletionsRequest request.parsedJson) with
    | error e => simp [hresponse] at h
    | ok built =>
      simp only [hresponse] at h
      have hbuilt : built = response := by
        split at h
        · cases h
        · exact Except.ok.inj h
      exact ⟨idx, response, i, hok, hpeek, hbuilt ▸ hresponse⟩

/-- **An answer is built from an interaction with the request's hash.** -/
theorem AnsweredFrom.spec {idx : ℕ} (h : AnsweredFrom sha256 service request idx) :
    request.parsedJson.isSome ∧ ∃ i, service.engine.cassette.interactions[idx]? = some i ∧
      i.request.stableHash = some (hashOf sha256 request) := by
  obtain ⟨response, i, hok, hpeek, -⟩ := h
  obtain ⟨-, hi, hhash⟩ := ReplayMatchEngine.matched_of_peekMatch hpeek
  exact ⟨(of_handle_ok hok).1, i, hi, hhash⟩

variable (sha256) in
/-- Handling a request changes neither the cassette nor the mode. -/
theorem handle_frame (service : ReplayService) (request : ObservedRequest) :
    (service.handleChatCompletions sha256 request).2.engine.cassette =
        service.engine.cassette ∧
      (service.handleChatCompletions sha256 request).2.engine.mode = service.engine.mode := by
  rw [handleChatCompletions_eq]
  split_ifs
  · exact ⟨rfl, rfl⟩
  unfold matchRecordedResponse
  split_ifs
  · exact ⟨rfl, rfl⟩
  cases service.engine.peekMatch (hashOf sha256 request)
      (canonicalRequestValue (canonicalOf request)) with
  | mismatch diagnostic => exact ⟨rfl, rfl⟩
  | matched idx i =>
    have hframe := service.engine.commitMatch_frame idx
    simp only
    cases responseFromRecorded i.response
        (isStreamingChatCompletionsRequest request.parsedJson) with
    | error e => exact ⟨rfl, rfl⟩
    | ok built =>
      simp only
      cases hcommit : service.engine.commitMatch idx with
      | mk done engine =>
        rw [hcommit] at hframe
        cases done <;> exact hframe

/-! ### Sequential replay -/

/-- In sequential mode a request with the next hash is answered from the next interaction, which
is then consumed. -/
theorem handle_sequential {i : Interaction} {response : ReplayResponse}
    (hmode : service.engine.mode = .sequentialStrict) (hlock : service.poisoned = false)
    (hjson : request.parsedJson.isSome)
    (hnext : service.engine.cassette.interactions[service.engine.sequentialCursor]? = some i)
    (hhash : i.request.stableHash = some (hashOf sha256 request))
    (hresponse : responseFromRecorded i.response
      (isStreamingChatCompletionsRequest request.parsedJson) = .ok response) :
    ∃ engine, service.handleChatCompletions sha256 request =
        (.ok response, { service with engine, matchedCount := service.matchedCount + 1 }) ∧
      engine.cassette = service.engine.cassette ∧ engine.mode = .sequentialStrict ∧
      engine.sequentialCursor = service.engine.sequentialCursor + 1 := by
  obtain ⟨hlt, -⟩ := List.getElem?_eq_some_iff.1 hnext
  have hlt' := (List.Forall₂.length_eq service.engine.parallel).symm ▸ hlt
  have hdata : service.engine.interactions[service.engine.sequentialCursor]? =
      some service.engine.interactions[service.engine.sequentialCursor] :=
    List.getElem?_eq_getElem hlt'
  obtain ⟨j, hj, hof⟩ := ReplayMatchEngine.interaction_of_data hdata
  obtain rfl : i = j := Option.some.inj (hnext.symm.trans hj)
  -- the engine's cached hash is that of the interaction
  have heq : hashOf sha256 request =
      (service.engine.interactions[service.engine.sequentialCursor]).stableHash :=
    Option.some.inj (hhash.symm.trans hof.1)
  have hpeek : service.engine.peekMatch (hashOf sha256 request)
      (canonicalRequestValue (canonicalOf request)) =
        .matched service.engine.sequentialCursor i := by
    simp [ReplayMatchEngine.peekMatch, ReplayMatchEngine.candidate, hmode,
      ReplayMatchEngine.sequentialCandidate, hdata, heq, ReplayMatchEngine.matchedAt, hnext]
  have hcommit : service.engine.commitMatch service.engine.sequentialCursor =
      (true, { service.engine with
        sequentialCursor := service.engine.sequentialCursor + 1 }) := by
    unfold ReplayMatchEngine.commitMatch
    split
    · rw [if_pos ⟨rfl, by rw [hdata]; rfl⟩]
    · rename_i hkeyed
      rw [hmode] at hkeyed
      cases hkeyed
  refine ⟨{ service.engine with
    sequentialCursor := service.engine.sequentialCursor + 1 }, ?_, rfl, hmode, rfl⟩
  have hsome : request.parsedJson.isNone = false := by simpa using hjson
  rw [handleChatCompletions_eq, hsome]
  simp [matchRecordedResponse, hlock, hpeek, hresponse, hcommit]

/-- In sequential mode a request after the last interaction is told that the cassette is
exhausted. -/
theorem handle_exhausted (hmode : service.engine.mode = .sequentialStrict)
    (hlock : service.poisoned = false) (hjson : request.parsedJson.isSome)
    (hend : service.engine.sequentialCursor = service.engine.cassette.interactions.length) :
    ∃ diagnostic, (service.handleChatCompletions sha256 request).1 =
        .error (.mismatch diagnostic) ∧
      diagnostic.position = .exhausted service.engine.cassette.interactions.length := by
  have hlength := List.Forall₂.length_eq service.engine.parallel
  have hnone : service.engine.interactions[service.engine.sequentialCursor]? = none := by
    rw [List.getElem?_eq_none_iff]; omega
  rw [hend] at hnone
  have hsome : request.parsedJson.isNone = false := by simpa using hjson
  rw [handleChatCompletions_eq, hsome]
  simp [matchRecordedResponse, hlock, ReplayMatchEngine.peekMatch, ReplayMatchEngine.candidate,
    hmode, ReplayMatchEngine.sequentialCandidate, hnone, hend]

/-! ### Runs -/

variable (sha256) in
/-- The service after a request. -/
def step (service : ReplayService) (request : ObservedRequest) : ReplayService :=
  (service.handleChatCompletions sha256 request).2

variable (sha256) in
/-- What the requests are answered, one after another. -/
def answers (service : ReplayService) (requests : List ObservedRequest) :
    List (Except ReplayError ReplayResponse) :=
  Runs.collect (step sha256)
    (fun service request => [(service.handleChatCompletions sha256 request).1]) service requests

variable (sha256) in
/-- The cassette and the mode stay as they are. -/
theorem run_frame (service : ReplayService) (requests : List ObservedRequest) :
    (Runs.run (step sha256) service requests).engine.cassette = service.engine.cassette ∧
      (Runs.run (step sha256) service requests).engine.mode = service.engine.mode := by
  induction requests generalizing service with
  | nil => exact ⟨rfl, rfl⟩
  | cons request requests ih =>
    obtain ⟨hcassette, hmode⟩ := handle_frame sha256 service request
    obtain ⟨ihcassette, ihmode⟩ := ih (step sha256 service request)
    exact ⟨ihcassette.trans hcassette, ihmode.trans hmode⟩

/-- In sequential mode requests with the hashes of the interactions that are left are all answered
from these, in order, and then the cassette is exhausted. -/
theorem answers_sequential {α : Type*} {asked : α → ObservedRequest}
    {R : α → ReplayResponse → Prop} {xs : List α} (hjson : ∀ x ∈ xs, (asked x).parsedJson.isSome)
    (hmode : service.engine.mode = .sequentialStrict) (hlock : service.poisoned = false)
    (hle : service.engine.sequentialCursor ≤ service.engine.cassette.interactions.length)
    (hrest : List.Forall₂ (fun x i => i.request.stableHash = some (hashOf sha256 (asked x)) ∧
      ∃ response, responseFromRecorded i.response
        (isStreamingChatCompletionsRequest (asked x).parsedJson) = .ok response ∧ R x response) xs
      (service.engine.cassette.interactions.drop service.engine.sequentialCursor)) :
    List.Forall₂ (fun x answer => ∃ response, answer = .ok response ∧ R x response) xs
        (answers sha256 service (xs.map asked)) ∧
      (Runs.run (step sha256) service (xs.map asked)).poisoned = false ∧
      (Runs.run (step sha256) service (xs.map asked)).engine.sequentialCursor =
        service.engine.cassette.interactions.length := by
  induction xs generalizing service with
  | nil =>
    have hdone := List.Forall₂.length_eq hrest
    simp only [List.length_nil, List.length_drop] at hdone
    exact ⟨.nil, hlock, show service.engine.sequentialCursor = _ by omega⟩
  | cons x xs ih =>
    simp only [List.forall_mem_cons] at hjson
    obtain ⟨i, is, ⟨hhash, response, hresponse, hR⟩, his, heq⟩ :=
      List.forall₂_cons_left_iff.1 hrest
    have hnext : service.engine.cassette.interactions[service.engine.sequentialCursor]? =
        some i := by
      rw [← List.head?_drop, heq, List.head?_cons]
    obtain ⟨engine, hhandle, hcassette, hmode', hcursor⟩ :=
      handle_sequential hmode hlock hjson.1 hnext hhash hresponse
    -- the rest is answered from where the cursor now stands
    have hstep : step sha256 service (asked x) =
        { service with engine, matchedCount := service.matchedCount + 1 } := by
      rw [step, hhandle]
    have hlt := (List.getElem?_eq_some_iff.1 hnext).1
    obtain ⟨hanswers, hlock', hend⟩ := @ih (step sha256 service (asked x)) hjson.2
      (by rw [hstep]; exact hmode') (by rw [hstep]; exact hlock)
      (by rw [hstep]; simp only [hcassette, hcursor]; omega)
      (by
        rw [hstep]
        simp only [hcassette, hcursor]
        rwa [← List.tail_drop, heq, List.tail_cons])
    refine ⟨?_, hlock', hend.trans ?_⟩
    · refine .cons ⟨response, ?_, hR⟩ hanswers
      rw [hhandle]
    · rw [hstep]
      simp only [hcassette]

variable (sha256) in
/-- A new service in sequential mode answers the requests of its whole cassette, in order, and
tells the next one that the cassette is exhausted. -/
theorem answers_new {α : Type*} {asked : α → ObservedRequest} {R : α → ReplayResponse → Prop}
    {xs : List α} (hjson : ∀ x ∈ xs, (asked x).parsedJson.isSome) {cassette : Cassette}
    {engine : ReplayMatchEngine}
    (hnew : ReplayMatchEngine.new cassette .sequentialStrict = .ok engine)
    (hall : List.Forall₂ (fun x i => i.request.stableHash = some (hashOf sha256 (asked x)) ∧
      ∃ response, responseFromRecorded i.response
        (isStreamingChatCompletionsRequest (asked x).parsedJson) = .ok response ∧ R x response) xs
      cassette.interactions) :
    List.Forall₂ (fun x answer => ∃ response, answer = .ok response ∧ R x response) xs
        (answers sha256 (new engine) (xs.map asked)) ∧
      ∀ q : ObservedRequest, q.parsedJson.isSome →
        ∃ diagnostic, ((Runs.run (step sha256) (new engine) (xs.map asked)).handleChatCompletions
          sha256 q).1 = .error (.mismatch diagnostic) ∧
          diagnostic.position = .exhausted xs.length := by
  obtain ⟨rfl, hmode, hcursor⟩ := ReplayMatchEngine.new_frame hnew
  have hfront : (new engine).engine.sequentialCursor ≤
      (new engine).engine.cassette.interactions.length := by
    simp [new, hcursor]
  -- the cursor starts at the front, and every recorded interaction is still to come
  have hrest := hall
  rw [← List.drop_zero (l := engine.cassette.interactions), ← hcursor] at hrest
  obtain ⟨hanswers, hlock, hend⟩ := @answers_sequential _ (new engine) _ asked R _ hjson hmode rfl
    hfront hrest
  obtain ⟨hcassette', hmode'⟩ := run_frame sha256 (new engine) (xs.map asked)
  refine ⟨hanswers, fun q hq => ?_⟩
  obtain ⟨diagnostic, hmismatch, hposition⟩ :=
    handle_exhausted (hmode'.trans hmode) hlock hq (by rw [hend, hcassette'])
  refine ⟨diagnostic, hmismatch, ?_⟩
  rw [hposition, hcassette', hall.length_eq]
  rfl

end ReplayService

end SpycatcherHarness
