import SpycatcherHarness.Server.ReplayHandler

/-!
# What replay mode reports

Replay mode reports each request to a metrics recorder: that it was handled and how that ended, why
a match failed, that a request was rejected, how a stream was delivered.  What is reported of a
request is decided by its answer alone (`telemetry_exact`), so that the totals are the numbers of
answers of each kind.
-/

namespace SpycatcherHarness

/-! ### Reports -/

/-- What is reported: a counter that is incremented, or a value for a histogram. -/
inductive Report where
  | counter (name : String) (labels : List (String × String))
  | histogram (name : String) (labels : List (String × String)) (value : UInt32)
  deriving DecidableEq

/-- `ReplayMetricLabels`. -/
structure ReplayMetricLabels where
  protocol : String
  route : String

namespace ReplayMetricLabels

variable (labels : ReplayMetricLabels)

/-- `increment_replay_counter`. -/
def incrementReplayCounter (metricName outcome : String) (reason : Option String) : Report :=
  match reason with
  | some reasonLabel => .counter metricName
    [("protocol", labels.protocol), ("route", labels.route), ("outcome", outcome),
      ("reason", reasonLabel)]
  | none => .counter metricName
    [("protocol", labels.protocol), ("route", labels.route), ("outcome", outcome)]

/-- `record_replay_request`. -/
def recordReplayRequest (outcome : String) : Report :=
  labels.incrementReplayCounter "spycatcher.replay.requests.total" outcome none

/-- `record_replay_mismatch`. -/
def recordReplayMismatch (reason : String) : Report :=
  labels.incrementReplayCounter "spycatcher.replay.mismatches.total" "mismatch" (some reason)

/-- `record_replay_rejection`. -/
def recordReplayRejection (outcome : String) : Report :=
  labels.incrementReplayCounter "spycatcher.replay.rejections.total" outcome none

/-- `record_replay_commit_failure`. -/
def recordReplayCommitFailure : Report :=
  labels.incrementReplayCounter "spycatcher.replay.commit_failures.total" "commit_failure" none

end ReplayMetricLabels

/-- `StreamDeliveryMode`. -/
inductive StreamDeliveryMode where
  | eager
  | streamed
  deriving DecidableEq

/-- `StreamDeliveryMode::as_str`. -/
def StreamDeliveryMode.asStr : StreamDeliveryMode → String
  | eager => "eager"
  | streamed => "streamed"

/-- `bounded_event_count`. -/
def boundedEventCount (eventCount : ℕ) : UInt32 :=
  if eventCount < 2 ^ 32 then UInt32.ofNat eventCount else UInt32.ofNat (2 ^ 32 - 1)

/-- `record_stream_delivery`. -/
def recordStreamDelivery (labels : ReplayMetricLabels) (delivery : StreamDeliveryMode)
    (eventCount : ℕ) : List Report :=
  let all := [("protocol", labels.protocol), ("route", labels.route), ("delivery", delivery.asStr),
    ("outcome", "replayed")]
  [.counter "spycatcher.replay.stream.responses.total" all,
    .counter "spycatcher.replay.stream.delivery.total" all,
    .histogram "spycatcher.replay.stream.events" all (boundedEventCount eventCount)]

/-! ### What is reported on the way -/

/-- What `log_rejection` reports. -/
def logRejection (labels : ReplayMetricLabels) (outcome : String) : List Report :=
  [labels.recordReplayRequest outcome, labels.recordReplayRejection outcome]

/-- What `log_mismatch` reports. -/
def logMismatch (labels : ReplayMetricLabels) (diagnostic : MismatchDiagnostic) : List Report :=
  [labels.recordReplayRequest "mismatch", labels.recordReplayMismatch diagnostic.reasonCode]

/-- What `response_from_recorded` reports. -/
def responseReports (labels : ReplayMetricLabels) (response : RecordedResponse)
    (isStreamRequest : Bool) : List Report :=
  match response with
  | .nonStream .. =>
    if isStreamRequest then logRejection labels "stream_cassette_required" else []
  | .stream .. => []

namespace ReplayService

/-- What `match_recorded_response` reports. -/
def matchReports (labels : ReplayMetricLabels) (service : ReplayService) (observedHash : String)
    (canonicalRequest : Json) (isStreamRequest : Bool) : List Report :=
  if service.poisoned then []
  else
    match service.engine.peekMatch observedHash canonicalRequest with
    | .mismatch diagnostic => logMismatch labels diagnostic
    | .matched interactionId interaction =>
      responseReports labels interaction.response isStreamRequest ++
        match responseFromRecorded interaction.response isStreamRequest with
        | .error _ => []
        | .ok _ =>
          if (service.engine.commitMatch interactionId).1 then
            [labels.recordReplayRequest "matched"]
          else [labels.recordReplayRequest "commit_failure", labels.recordReplayCommitFailure]

/-- What `handle_chat_completions` reports. -/
def handleReports (sha256 : Bytes → Bytes) (labels : ReplayMetricLabels) (service : ReplayService)
    (request : ObservedRequest) : List Report :=
  let isStreamRequest := isStreamingChatCompletionsRequest request.parsedJson
  if request.parsedJson.isNone then logRejection labels "malformed_json"
  else
    match canonicalizeObservedRequest sha256 request with
    | .error _ => []
    | .ok recordedRequest =>
      match recordedRequest.stableHash, recordedRequest.canonicalRequest with
      | some observedHash, some canonicalRequest =>
        service.matchReports labels observedHash canonicalRequest isStreamRequest
      | _, _ => []

end ReplayService

/-- What `build_stream_body` reports: how the body that it builds is delivered. -/
def streamBodyReports (labels : ReplayMetricLabels) (events : List StreamEvent) : List Report :=
  match buildStreamBody events with
  | .buffered _ => recordStreamDelivery labels .eager events.length
  | .stream _ => recordStreamDelivery labels .streamed events.length

/-- What `build_replay_response` reports. -/
def replayResponseReports (labels : ReplayMetricLabels) (response : ReplayResponse) :
    List Report :=
  match response.body with
  | .oneShot _ => []
  | .events events => streamBodyReports labels events

/-- What `replay_chat_completions_handler` reports. -/
def handlerReports (S : SerdeJson) (sha256 : Bytes → Bytes) (labels : ReplayMetricLabels)
    (service : ReplayService) (inbound : InboundRequest) : List Report :=
  service.handleReports sha256 labels (observeReplayRequest S inbound) ++
    match (service.handleChatCompletions sha256 (observeReplayRequest S inbound)).1 with
    | .ok replayed => replayResponseReports labels replayed
    | .error _ => []

/-! ### What an answer stands for -/

/-- How the request of an answer ended. -/
def outcomeLabel : Except ReplayError ReplayResponse → String
  | .ok _ => "matched"
  | .error (.mismatch _) => "mismatch"
  | .error .malformedJson => "malformed_json"
  | .error .streamCassetteRequiredForStreamRequest => "stream_cassette_required"
  | .error .unsupportedStream => "unsupported_stream"
  | .error .internal => "internal"

/-- Why a match failed. -/
def mismatchReason : Except ReplayError ReplayResponse → Option String
  | .error (.mismatch diagnostic) => some diagnostic.reasonCode
  | _ => none

/-- How a request ended that was neither matched nor mismatched. -/
def rejectionLabel : Except ReplayError ReplayResponse → Option String
  | .ok _ | .error (.mismatch _) => none
  | answer => some (outcomeLabel answer)

/-- How the stream of an answer is delivered, and of how many events it is. -/
def streamDelivery : Except ReplayError ReplayResponse → Option (StreamDeliveryMode × ℕ)
  | .ok ⟨_, _, .events events⟩ =>
    some (if (serializeEvents events).length ≤ eagerStreamLimitBytes then .eager else .streamed,
      events.length)
  | _ => none

variable (labels : ReplayMetricLabels) (answer : Except ReplayError ReplayResponse)

/-- What is reported of a request with this answer before the response is built. -/
def outcomeReports : List Report :=
  labels.recordReplayRequest (outcomeLabel answer) ::
    ((mismatchReason answer).map labels.recordReplayMismatch).toList ++
    ((rejectionLabel answer).map labels.recordReplayRejection).toList

/-- All that is reported of a request with this answer. -/
def answerReports : List Report :=
  outcomeReports labels answer ++
    match streamDelivery answer with
    | none => []
    | some (delivery, eventCount) => recordStreamDelivery labels delivery eventCount

/-! ### One request -/

section
variable {labels} {service : ReplayService}

/-- What matching does. -/
theorem ReplayService.matchRecordedResponse_cases (hlock : service.poisoned = false)
    (observedHash : String) (canonicalRequest : Json) (isStreamRequest : Bool) :
    (∃ diagnostic,
      service.engine.peekMatch observedHash canonicalRequest = .mismatch diagnostic ∧
      service.matchRecordedResponse observedHash canonicalRequest isStreamRequest =
        (.error (.mismatch diagnostic),
          { service with mismatchCount := service.mismatchCount + 1 })) ∨
    ∃ interactionId interaction,
      service.engine.peekMatch observedHash canonicalRequest =
        .matched interactionId interaction ∧
      ((∃ e, responseFromRecorded interaction.response isStreamRequest = .error e ∧
        service.matchRecordedResponse observedHash canonicalRequest isStreamRequest =
          (.error e, service)) ∨
      ∃ response, responseFromRecorded interaction.response isStreamRequest = .ok response ∧
        (service.engine.commitMatch interactionId).1 = true ∧
        service.matchRecordedResponse observedHash canonicalRequest isStreamRequest =
          (.ok response, { service with
            engine := (service.engine.commitMatch interactionId).2
            matchedCount := service.matchedCount + 1 })) := by
  unfold matchRecordedResponse
  rw [if_neg (by simp [hlock])]
  cases hpeek : service.engine.peekMatch observedHash canonicalRequest with
  | mismatch diagnostic => exact .inl ⟨diagnostic, rfl, rfl⟩
  | matched interactionId interaction =>
    refine .inr ⟨interactionId, interaction, rfl, ?_⟩
    cases hresponse : responseFromRecorded interaction.response isStreamRequest with
    | error e => exact .inl ⟨e, rfl, by simp only [hresponse]⟩
    | ok response =>
      -- what is looked at under the lock can be committed
      have hcommit := ReplayMatchEngine.commitMatch_of_candidate
        (ReplayMatchEngine.matched_of_peekMatch hpeek).1
      refine .inr ⟨response, rfl, hcommit, ?_⟩
      cases hengine : service.engine.commitMatch interactionId with
      | mk done engine =>
        obtain rfl : done = true := (congrArg Prod.fst hengine).symm.trans hcommit
        simp only [hresponse, hengine]

/-- The reports of a response that is built, or not. -/
theorem responseReports_eq (labels : ReplayMetricLabels) (response : RecordedResponse)
    (isStreamRequest : Bool) :
    responseReports labels response isStreamRequest =
      match responseFromRecorded response isStreamRequest with
      | .ok _ => []
      | .error e => outcomeReports labels (.error e) := by
  cases response <;> cases isStreamRequest <;> rfl

/-- Building a response fails in one way only. -/
theorem eq_of_responseFromRecorded_error {response : RecordedResponse} {isStreamRequest : Bool}
    {e : ReplayError} (h : responseFromRecorded response isStreamRequest = .error e) :
    e = .streamCassetteRequiredForStreamRequest := by
  cases response <;> cases isStreamRequest <;>
    simp_all [responseFromRecorded, responseFromNonStream]

/-- What a request does to the service, and what is reported of it, as its answer tells. -/
structure Reported (labels : ReplayMetricLabels) (service service' : ReplayService)
    (answer : Except ReplayError ReplayResponse) (reports : List Report) : Prop where
  reports : reports = outcomeReports labels answer
  handled : answer ≠ .error .internal ∧ answer ≠ .error .unsupportedStream
  lock : service'.poisoned = false
  matchedCount : service'.matchedCount = service.matchedCount +
    UInt64.ofNat ([outcomeLabel answer].count "matched")
  mismatchCount : service'.mismatchCount = service.mismatchCount +
    UInt64.ofNat ([outcomeLabel answer].count "mismatch")

/-- What matching reports. -/
theorem ReplayService.reported_match (hlock : service.poisoned = false) (observedHash : String)
    (canonicalRequest : Json) (isStreamRequest : Bool) :
    Reported labels service
      (service.matchRecordedResponse observedHash canonicalRequest isStreamRequest).2
      (service.matchRecordedResponse observedHash canonicalRequest isStreamRequest).1
      (service.matchReports labels observedHash canonicalRequest isStreamRequest) := by
  unfold matchReports
  rw [if_neg (by simp [hlock])]
  rcases matchRecordedResponse_cases hlock observedHash canonicalRequest isStreamRequest with
    ⟨diagnostic, hpeek, heq⟩ | ⟨interactionId, interaction, hpeek, ⟨e, hresponse, heq⟩ |
      ⟨response, hresponse, hcommit, heq⟩⟩
  · simp only [hpeek, heq]
    exact ⟨rfl, by simp, hlock, (UInt64.add_zero _).symm, rfl⟩
  · obtain rfl := eq_of_responseFromRecorded_error hresponse
    simp only [hpeek, responseReports_eq, hresponse, heq, List.append_nil]
    exact ⟨rfl, by simp, hlock, (UInt64.add_zero _).symm, (UInt64.add_zero _).symm⟩
  · simp only [hpeek, responseReports_eq, hresponse, hcommit, heq, if_true]
    exact ⟨rfl, by simp, hlock, rfl, (UInt64.add_zero _).symm⟩

/-- What handling a request reports. -/
theorem ReplayService.reported_handle (hlock : service.poisoned = false)
    (sha256 : Bytes → Bytes) (request : ObservedRequest) :
    Reported labels service (service.handleChatCompletions sha256 request).2
      (service.handleChatCompletions sha256 request).1
      (service.handleReports sha256 labels request) := by
  unfold handleReports handleChatCompletions canonicalizeObservedRequest
  rw [populateCanonicalFields_default]
  split_ifs with hnone
  · exact ⟨rfl, by simp, hlock, (UInt64.add_zero _).symm, (UInt64.add_zero _).symm⟩
  · exact reported_match hlock _ _ _

/-- What building a response reports. -/
theorem replayResponseReports_eq (labels : ReplayMetricLabels) (response : ReplayResponse) :
    replayResponseReports labels response =
      match streamDelivery (.ok response) with
      | none => []
      | some (delivery, eventCount) => recordStreamDelivery labels delivery eventCount := by
  obtain ⟨status, headers, body⟩ := response
  cases body with
  | oneShot bytes => rfl
  | events events =>
    have hbody := buildStreamBodyFrom_eq BufferedStream.within_empty events
    simp only [replayResponseReports, streamBodyReports, streamDelivery, buildStreamBody, hbody]
    rw [show BufferedStream.empty.totalLen = 0 from rfl, Nat.zero_add]
    split_ifs <;> rfl

/-- All that is reported of a request is decided by its answer. -/
theorem handlerReports_eq (hlock : service.poisoned = false) (S : SerdeJson)
    (sha256 : Bytes → Bytes) (inbound : InboundRequest) :
    handlerReports S sha256 labels service inbound =
      answerReports labels
        (service.handleChatCompletions sha256 (observeReplayRequest S inbound)).1 := by
  rw [handlerReports, (ReplayService.reported_handle hlock _ _).reports, answerReports]
  cases (service.handleChatCompletions sha256 (observeReplayRequest S inbound)).1 with
  | error e => rfl
  | ok response => simp only [replayResponseReports_eq]

end

/-! ### Totals -/

/-- The totals of the reports are the numbers of answers of each kind. -/
structure Accounted (labels : ReplayMetricLabels)
    (answers : List (Except ReplayError ReplayResponse)) (reports : List Report) : Prop where
  requests : ∀ outcome, reports.count (labels.recordReplayRequest outcome) =
    (answers.map outcomeLabel).count outcome
  mismatches : ∀ reason, reports.count (labels.recordReplayMismatch reason) =
    (answers.filterMap mismatchReason).count reason
  rejections : ∀ outcome, reports.count (labels.recordReplayRejection outcome) =
    (answers.filterMap rejectionLabel).count outcome
  commitFailures : labels.recordReplayCommitFailure ∉ reports

theorem Accounted.append {labels : ReplayMetricLabels}
    {answers answers' : List (Except ReplayError ReplayResponse)} {reports reports' : List Report}
    (h : Accounted labels answers reports) (h' : Accounted labels answers' reports') :
    Accounted labels (answers ++ answers') (reports ++ reports') := by
  refine ⟨fun outcome => ?_, fun reason => ?_, fun outcome => ?_, ?_⟩
  · rw [List.count_append, h.requests, h'.requests, List.map_append, List.count_append]
  · rw [List.count_append, h.mismatches, h'.mismatches, List.filterMap_append, List.count_append]
  · rw [List.count_append, h.rejections, h'.rejections, List.filterMap_append, List.count_append]
  · rw [List.mem_append, not_or]
    exact ⟨h.commitFailures, h'.commitFailures⟩

/-- The reports of one answer count once. -/
theorem accounted_answer (labels : ReplayMetricLabels)
    (answer : Except ReplayError ReplayResponse) :
    Accounted labels [answer] (answerReports labels answer) := by
  -- the counters have different names
  constructor
  all_goals
    rcases answer with (d | _ | _ | _ | _) | ⟨status, headers, _ | events⟩ <;>
    simp [answerReports, outcomeReports, outcomeLabel, mismatchReason, rejectionLabel,
      streamDelivery, recordStreamDelivery, ReplayMetricLabels.recordReplayRequest,
      ReplayMetricLabels.recordReplayMismatch, ReplayMetricLabels.recordReplayRejection,
      ReplayMetricLabels.recordReplayCommitFailure, ReplayMetricLabels.incrementReplayCounter,
      List.count_cons, List.filterMap_cons]

theorem accounted_answers (labels : ReplayMetricLabels)
    (answers : List (Except ReplayError ReplayResponse)) :
    Accounted labels answers (answers.flatMap (answerReports labels)) := by
  induction answers with
  | nil => exact ⟨by simp, by simp, by simp, by simp⟩
  | cons answer answers ih => exact (accounted_answer labels answer).append ih

/-- What the service answers to requests, one after another. -/
def serviceAnswers (S : SerdeJson) (sha256 : Bytes → Bytes) (service : ReplayService)
    (inbounds : List InboundRequest) : List (Except ReplayError ReplayResponse) :=
  Runs.collect (replayed S sha256)
    (fun service inbound =>
      [(service.handleChatCompletions sha256 (observeReplayRequest S inbound)).1])
    service inbounds

/-- A total over one more answer. -/
theorem ofNat_count_cons (label first : String) (labels : List String) :
    UInt64.ofNat ((first :: labels).count label) =
      UInt64.ofNat ([first].count label) + UInt64.ofNat (labels.count label) := by
  rw [← UInt64.ofNat_add, ← List.count_append, List.singleton_append]

/-- What a run reports, one answer after another. -/
theorem reported_run (S : SerdeJson) (sha256 : Bytes → Bytes) (labels : ReplayMetricLabels)
    {service : ReplayService} (hlock : service.poisoned = false) (inbounds : List InboundRequest) :
    (∀ answer ∈ serviceAnswers S sha256 service inbounds,
        answer ≠ .error .internal ∧ answer ≠ .error .unsupportedStream) ∧
      Runs.collect (replayed S sha256) (handlerReports S sha256 labels) service inbounds =
        (serviceAnswers S sha256 service inbounds).flatMap (answerReports labels) ∧
      (Runs.run (replayed S sha256) service inbounds).matchedCount = service.matchedCount +
        UInt64.ofNat
          (((serviceAnswers S sha256 service inbounds).map outcomeLabel).count "matched") ∧
      (Runs.run (replayed S sha256) service inbounds).mismatchCount = service.mismatchCount +
        UInt64.ofNat
          (((serviceAnswers S sha256 service inbounds).map outcomeLabel).count "mismatch") := by
  induction inbounds generalizing service with
  | nil =>
    exact ⟨by simp [serviceAnswers, Runs.collect], rfl, (UInt64.add_zero _).symm,
      (UInt64.add_zero _).symm⟩
  | cons inbound inbounds ih =>
    have hone := @ReplayService.reported_handle labels service hlock sha256
      (observeReplayRequest S inbound)
    rw [← replayed_eq] at hone
    obtain ⟨hhandled, hreports, hmatched, hmismatched⟩ := ih hone.lock
    have hcons : serviceAnswers S sha256 service (inbound :: inbounds) =
        (service.handleChatCompletions sha256 (observeReplayRequest S inbound)).1 ::
          serviceAnswers S sha256 (replayed S sha256 service inbound) inbounds := rfl
    rw [hcons]
    refine ⟨List.forall_mem_cons.2 ⟨hone.handled, hhandled⟩, ?_, ?_, ?_⟩
    · rw [Runs.collect, hreports, handlerReports_eq hlock, List.flatMap_cons]
    · rw [Runs.run_cons, hmatched, hone.matchedCount, List.map_cons, UInt64.add_assoc,
        ← ofNat_count_cons]
    · rw [Runs.run_cons, hmismatched, hone.mismatchCount, List.map_cons, UInt64.add_assoc,
        ← ofNat_count_cons]

/-- **What replay mode reports**, along any run of the handler from any state of the service.  No
request ends in an internal error; what is reported of one is decided by its answer; every request
is counted once, with how it ended, every mismatch with its reason and every rejection with its
kind; and the service's own counters, which wrap, agree with these totals. -/
theorem telemetry_exact (S : SerdeJson) (sha256 : Bytes → Bytes) (labels : ReplayMetricLabels)
    {service : ReplayService} (hlock : service.poisoned = false) (inbounds : List InboundRequest) :
    let answers := serviceAnswers S sha256 service inbounds
    let reports :=
      Runs.collect (replayed S sha256) (handlerReports S sha256 labels) service inbounds
    let after := Runs.run (replayed S sha256) service inbounds
    (∀ answer ∈ answers, answer ≠ .error .internal ∧ answer ≠ .error .unsupportedStream) ∧
      reports = answers.flatMap (answerReports labels) ∧ Accounted labels answers reports ∧
      after.matchedCount = service.matchedCount +
        UInt64.ofNat (reports.count (labels.recordReplayRequest "matched")) ∧
      after.mismatchCount = service.mismatchCount +
        UInt64.ofNat (reports.count (labels.recordReplayRequest "mismatch")) := by
  intro answers reports after
  obtain ⟨hhandled, hreports, hmatched, hmismatched⟩ :=
    reported_run S sha256 labels hlock inbounds
  have haccounted := accounted_answers labels answers
  rw [← hreports] at haccounted
  exact ⟨hhandled, hreports, haccounted, by rw [hmatched, ← haccounted.requests],
    by rw [hmismatched, ← haccounted.requests]⟩

/-- A response, a stream, a mismatch once the cassette is exhausted, and a request that is not
JSON. -/
theorem telemetry_exact_exhausted :
    let labels : ReplayMetricLabels := ⟨"openai.chat_completions.v1", chatCompletionsPath⟩
    let recorded : RecordedResponse → Interaction := fun response =>
      ⟨⟨"POST", chatCompletionsPath, "", [], [], none, none, some ""⟩, response,
        ⟨"chat", "up", "now", 0⟩⟩
    let engine : ReplayMatchEngine :=
      { cassette := ⟨supportedFormatVersion, [recorded (.nonStream 200 [] [] none),
          recorded (.stream 200 [] [.data "a" none] (Str.asBytes "data: a\n\n") none)]⟩
        interactions := [⟨"", none⟩, ⟨"", none⟩], mode := .sequentialStrict
        sequentialCursor := 0, hashToIndices := fun _ => none, consumed := [false, false]
        parallel := .cons ⟨rfl, rfl⟩ (.cons ⟨rfl, rfl⟩ .nil), indexed := rfl }
    let plain : InboundRequest := ⟨none, [], Str.asBytes "\x7b\x7d"⟩
    let streaming : InboundRequest := ⟨none, [], Str.asBytes "\x7b\"stream\":true\x7d"⟩
    let inbounds := [plain, streaming, plain, ⟨none, [], []⟩]
    let reports := Runs.collect (replayed .exact fun _ => [])
      (handlerReports .exact (fun _ => []) labels) (.new engine) inbounds
    let after := Runs.run (replayed .exact fun _ => []) (.new engine) inbounds
    reports.count (labels.recordReplayRequest "matched") = 2 ∧
      reports.count (labels.recordReplayMismatch "cassette_exhausted") = 1 ∧
      reports.count (labels.recordReplayRejection "malformed_json") = 1 ∧
      recordStreamDelivery labels .eager 1 ⊆ reports ∧
      after.matchedCount = 2 ∧ after.mismatchCount = 1 := by
  intro labels recorded engine plain streaming inbounds reports after
  obtain ⟨-, hreports, haccounted, hmatched, hmismatched⟩ :=
    @telemetry_exact .exact (fun _ => []) labels (.new engine) rfl inbounds
  -- what is answered is evaluated; what is reported of it follows
  have houtcomes : (serviceAnswers .exact (fun _ => []) (.new engine) inbounds).map outcomeLabel =
      ["matched", "matched", "mismatch", "malformed_json"] := by decide +kernel
  have hreasons : (serviceAnswers .exact (fun _ => []) (.new engine) inbounds).filterMap
      mismatchReason = ["cassette_exhausted"] := by decide +kernel
  have hkinds : (serviceAnswers .exact (fun _ => []) (.new engine) inbounds).filterMap
      rejectionLabel = ["malformed_json"] := by decide +kernel
  have hstreams : (serviceAnswers .exact (fun _ => []) (.new engine) inbounds).filterMap
      streamDelivery = [(.eager, 1)] := by decide +kernel
  have htotal : ∀ outcome, reports.count (labels.recordReplayRequest outcome) =
      ["matched", "matched", "mismatch", "malformed_json"].count outcome := fun outcome =>
    (haccounted.requests outcome).trans (by rw [houtcomes])
  refine ⟨htotal "matched", ?_, ?_, ?_, ?_, ?_⟩
  · exact (haccounted.mismatches _).trans (by rw [hreasons]; rfl)
  · exact (haccounted.rejections _).trans (by rw [hkinds]; rfl)
  · obtain ⟨answer, hanswer, hdelivery⟩ := List.mem_filterMap.1
      (hstreams ▸ List.mem_singleton_self (StreamDeliveryMode.eager, 1))
    intro report hreport
    rw [show reports = _ from hreports]
    refine List.mem_flatMap.2 ⟨answer, hanswer, List.mem_append_right _ ?_⟩
    rwa [hdelivery]
  · rw [show after.matchedCount = _ from hmatched, htotal]
    rfl
  · rw [show after.mismatchCount = _ from hmismatched, htotal]
    rfl

end SpycatcherHarness
