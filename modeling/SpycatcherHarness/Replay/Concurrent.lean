import SpycatcherHarness.Cassette.Matching.Calls
import SpycatcherHarness.Machine.LockedLog
import SpycatcherHarness.Replay

/-!
# Replaying concurrently

Clones of a replay service share the engine, behind a lock, and the counters.  A request that is
not JSON is turned away before the lock.  Any other takes the lock, looks at a match, builds the
response and commits the match, or gives up on the way; it gives the lock back, and then counts
the outcome.

A `ReplayPool` is the shared state with the requests in it, and an `Event` is one step of one of
them.  Requests are decided one at a time, while they have the lock.

* `ReplayPool.Replayed` : what holds after every run; the pool is a log behind a lock
  (`LockedLog`), and the entries are the decisions.
* `ReplayPool.Replayed.step` : every step keeps it.
* `ReplayPool.concurrent_replay` : the decisions are those of the requests one after another.
-/

namespace SpycatcherHarness

/-- What `match_recorded_response` is called with. -/
structure Lookup where
  observedHash : String
  canonicalRequest : Json
  isStreamRequest : Bool

/-- Where a request stands. -/
inductive ReplayPhase where
  | arrived
  /-- It was turned away before the lock. -/
  | rejected (e : ReplayError)
  /-- It waits for the lock. -/
  | ready (lookup : Lookup)
  | locked (lookup : Lookup)
  | peeked (lookup : Lookup) (outcome : MatchOutcome)
  | built (lookup : Lookup) (interactionId : ℕ) (response : ReplayResponse)
  /-- It is about to give the lock back. -/
  | leaving (result : Except ReplayError ReplayResponse)
  /-- It is about to count the outcome. -/
  | counting (result : Except ReplayError ReplayResponse)
  | returned (result : Except ReplayError ReplayResponse)

/-- A request that is being replayed. -/
structure ReplayTask where
  request : ObservedRequest
  phase : ReplayPhase

/-- The state that clones of a service share, and the requests. -/
structure ReplayPool where
  engine : ReplayMatchEngine
  /-- The request that has the lock. -/
  holder : Option ℕ
  poisoned : Bool
  matchedCount : UInt64
  mismatchCount : UInt64
  tasks : ℕ → Option ReplayTask

/-- What was decided for a request: what it is told, and the interaction that was consumed. -/
structure Decision where
  request : ObservedRequest
  result : Except ReplayError ReplayResponse
  consumed : Option ℕ

namespace ReplayPool

/-- Before the first request. -/
def start (engine : ReplayMatchEngine) : ReplayPool := ⟨engine, none, false, 0, 0, fun _ => none⟩

/-- A request is handed to a thread, or a thread takes the next step for it. -/
inductive Event where
  | arrive (id : ℕ) (request : ObservedRequest)
  | advance (id : ℕ)

/-- The request goes on as given. -/
def set (s : ReplayPool) (id : ℕ) (request : ObservedRequest) (phase : ReplayPhase) : ReplayPool :=
  { s with tasks := Function.update s.tasks id (some ⟨request, phase⟩) }

section
variable (sha256 : Bytes → Bytes)

/-- `handle_chat_completions` up to the lock. -/
def prepare (request : ObservedRequest) : ReplayPhase :=
  if request.parsedJson.isNone then .rejected .malformedJson
  else
    match ReplayService.canonicalizeObservedRequest sha256 request with
    | .error e => .rejected e
    | .ok recordedRequest =>
      match recordedRequest.stableHash, recordedRequest.canonicalRequest with
      | some observedHash, some canonicalRequest =>
        .ready ⟨observedHash, canonicalRequest,
          isStreamingChatCompletionsRequest request.parsedJson⟩
      | _, _ => .rejected .internal

/-- The next step for a request. -/
def advance (s : ReplayPool) (id : ℕ) (request : ObservedRequest) : ReplayPhase → ReplayPool
  | .arrived => s.set id request (prepare sha256 request)
  | .rejected _ | .returned _ => s
  | .ready lookup =>
    match s.holder with
    | some _ => s
    | none =>
      if s.poisoned then s.set id request (.rejected .internal)
      else { s.set id request (.locked lookup) with holder := some id }
  | .locked lookup =>
    s.set id request
      (.peeked lookup (s.engine.peekMatch lookup.observedHash lookup.canonicalRequest))
  | .peeked lookup (.matched interactionId interaction) =>
    match responseFromRecorded interaction.response lookup.isStreamRequest with
    | .error e => s.set id request (.leaving (.error e))
    | .ok response => s.set id request (.built lookup interactionId response)
  | .peeked _ (.mismatch diagnostic) => s.set id request (.leaving (.error (.mismatch diagnostic)))
  | .built _ interactionId response =>
    match s.engine.commitMatch interactionId with
    | (false, engine) => { s.set id request (.leaving (.error .internal)) with engine }
    | (true, engine) => { s.set id request (.leaving (.ok response)) with engine }
  | .leaving result => { s.set id request (.counting result) with holder := none }
  | .counting result =>
    match result with
    -- `log_match`
    | .ok _ => { s.set id request (.returned result) with matchedCount := s.matchedCount + 1 }
    -- `log_mismatch`
    | .error (.mismatch _) =>
      { s.set id request (.returned result) with mismatchCount := s.mismatchCount + 1 }
    | .error _ => s.set id request (.returned result)

def step (s : ReplayPool) : Event → ReplayPool
  | .arrive id request =>
    match s.tasks id with
    | some _ => s
    | none => s.set id request .arrived
  | .advance id =>
    match s.tasks id with
    | none => s
    | some ⟨request, phase⟩ => s.advance sha256 id request phase

end

/-! ### What has happened -/

/-- The request that takes the lock. -/
def taken (s : ReplayPool) : Event → List ℕ
  | .arrive _ _ => []
  | .advance id =>
    match s.tasks id, s.holder, s.poisoned with
    | some ⟨_, .ready _⟩, none, false => [id]
    | _, _, _ => []

/-- The decision that is made with the lock, and its request. -/
def decided (s : ReplayPool) : Event → List (ℕ × Decision)
  | .arrive _ _ => []
  | .advance id =>
    match s.tasks id with
    | some ⟨request, .peeked _ (.mismatch diagnostic)⟩ =>
      [(id, ⟨request, .error (.mismatch diagnostic), none⟩)]
    | some ⟨request, .peeked lookup (.matched _ interaction)⟩ =>
      match responseFromRecorded interaction.response lookup.isStreamRequest with
      | .error e => [(id, ⟨request, .error e, none⟩)]
      | .ok _ => []
    | some ⟨request, .built _ interactionId response⟩ =>
      if (s.engine.commitMatch interactionId).1 then
        [(id, ⟨request, .ok response, some interactionId⟩)]
      else [(id, ⟨request, .error .internal, none⟩)]
    | _ => []

/-- The request is told that it does not match. -/
def isMismatch : Except ReplayError ReplayResponse → Bool
  | .error (.mismatch _) => true
  | _ => false

/-- What is counted, and its request. -/
def counted (s : ReplayPool) : Event → List (ℕ × Except ReplayError ReplayResponse)
  | .arrive _ _ => []
  | .advance id =>
    match s.tasks id with
    | some ⟨_, .counting result⟩ => [(id, result)]
    | _ => []

end ReplayPool

/-! ### The log -/

/-- How far a request is with the lock. -/
def ReplayPhase.status : ReplayPhase → WorkerStatus
  | .arrived | .rejected _ | .ready _ => .fresh
  | .locked _ | .peeked _ _ | .built _ _ _ => .locked
  | .leaving _ | .counting _ => .appended
  | .returned _ => .counted

/-- What was decided for a request. -/
def ReplayPhase.result : ReplayPhase → Option (Except ReplayError ReplayResponse)
  | .leaving result | .counting result | .returned result => some result
  | _ => none

namespace ReplayPool

def status (s : ReplayPool) (id : ℕ) : WorkerStatus :=
  (s.tasks id).elim .fresh fun t => t.phase.status

/-- The request that has the lock and is not decided yet. -/
def pending (s : ReplayPool) : Option ℕ := s.holder.filter fun id => s.status id = .locked

/-- The pool as a log behind a lock.  A request has written its entry when it is decided. -/
def view (s : ReplayPool) (takers : List ℕ) (decisions : List (ℕ × Decision)) (counts : List ℕ) :
    LockedLog ℕ Decision :=
  ⟨s.status, s.pending, s.poisoned, takers, decisions, counts⟩

theorem status_eq {s : ReplayPool} {id : ℕ} {t : ReplayTask} (ht : s.tasks id = some t) :
    s.status id = t.phase.status := by
  rw [status, ht]
  rfl

theorem status_set (s : ReplayPool) (id : ℕ) (request : ObservedRequest) (phase : ReplayPhase) :
    (s.set id request phase).status = Function.update s.status id phase.status := by
  funext other
  by_cases h : other = id
  · subst h
    simp [status, set]
  · simp [status, set, h]

end ReplayPool

/-! ### What a request is told by itself -/

namespace ReplayService

variable {service : ReplayService} {observedHash : String} {canonicalRequest : Json}
  {isStreamRequest : Bool}

/-- A request without a match is told so, and nothing is consumed. -/
theorem matchRecordedResponse_mismatch (hlock : service.poisoned = false)
    {diagnostic : MismatchDiagnostic}
    (hpeek : service.engine.peekMatch observedHash canonicalRequest = .mismatch diagnostic) :
    service.matchRecordedResponse observedHash canonicalRequest isStreamRequest =
      (.error (.mismatch diagnostic),
        { service with mismatchCount := service.mismatchCount + 1 }) := by
  simp [matchRecordedResponse, hlock, hpeek]

/-- A request whose match it cannot be answered from is told so, and nothing is consumed. -/
theorem matchRecordedResponse_error (hlock : service.poisoned = false) {idx : ℕ} {i : Interaction}
    (hpeek : service.engine.peekMatch observedHash canonicalRequest = .matched idx i)
    {e : ReplayError} (hresponse : responseFromRecorded i.response isStreamRequest = .error e) :
    service.matchRecordedResponse observedHash canonicalRequest isStreamRequest =
      (.error e, service) := by
  simp [matchRecordedResponse, hlock, hpeek, hresponse]

/-- A request that can be answered from its match consumes it. -/
theorem matchRecordedResponse_ok (hlock : service.poisoned = false) {idx : ℕ} {i : Interaction}
    (hpeek : service.engine.peekMatch observedHash canonicalRequest = .matched idx i)
    {response : ReplayResponse}
    (hresponse : responseFromRecorded i.response isStreamRequest = .ok response) :
    service.matchRecordedResponse observedHash canonicalRequest isStreamRequest =
      (.ok response, { service with
        engine := (service.engine.commitMatch idx).2
        matchedCount := service.matchedCount + 1 }) := by
  have hcommit := ReplayMatchEngine.commitMatch_of_candidate
    (ReplayMatchEngine.matched_of_peekMatch hpeek).1
  unfold matchRecordedResponse
  simp only [hlock, hpeek, hresponse]
  cases hpair : service.engine.commitMatch idx with
  | mk done engine =>
    rw [hpair] at hcommit
    simp only at hcommit
    subst hcommit
    rfl

end ReplayService

/-- A response can be refused only where a stream was asked for and none was recorded. -/
theorem error_responseFromRecorded {response : RecordedResponse} {isStreamRequest : Bool}
    {e : ReplayError} (h : responseFromRecorded response isStreamRequest = .error e) :
    e = .streamCassetteRequiredForStreamRequest := by
  cases response with
  | nonStream status headers body parsedJson =>
    simp only [responseFromRecorded, responseFromNonStream] at h
    split_ifs at h
    cases h
    rfl
  | stream status headers events rawTranscript timing => cases h

section
variable {sha256 : Bytes → Bytes}

/-- What a request is looked up as. -/
def lookupOf (sha256 : Bytes → Bytes) (request : ObservedRequest) : Lookup :=
  ⟨ReplayService.hashOf sha256 request,
    canonicalRequestValue (ReplayService.canonicalOf request),
    isStreamingChatCompletionsRequest request.parsedJson⟩

theorem prepare_eq (request : ObservedRequest) :
    ReplayPool.prepare sha256 request =
      if request.parsedJson.isNone then .rejected .malformedJson
      else .ready (lookupOf sha256 request) := by
  unfold ReplayPool.prepare ReplayService.canonicalizeObservedRequest
  rw [populateCanonicalFields_default]
  rfl

/-- Handling a request that is JSON is looking it up. -/
theorem handle_eq_lookup (service : ReplayService) {request : ObservedRequest}
    (hjson : request.parsedJson.isSome) :
    service.handleChatCompletions sha256 request =
      service.matchRecordedResponse (lookupOf sha256 request).observedHash
        (lookupOf sha256 request).canonicalRequest (lookupOf sha256 request).isStreamRequest := by
  have hsome : request.parsedJson.isNone = false := by simpa using hjson
  rw [ReplayService.handleChatCompletions_eq, hsome]
  rfl

end

/-! ### What the decisions come to -/

/-- What is decided with a request: an answer is built from the interaction that it consumes, and
a refusal consumes none. -/
def Decision.Ok (cassette : Cassette) (d : Decision) : Prop :=
  match d.result with
  | .ok response => ∃ idx i, d.consumed = some idx ∧ cassette.interactions[idx]? = some i ∧
    responseFromRecorded i.response (isStreamingChatCompletionsRequest d.request.parsedJson) =
      .ok response
  | .error e => d.consumed = none ∧
    (e = .streamCassetteRequiredForStreamRequest ∨ ∃ diagnostic, e = .mismatch diagnostic)

/-- The decisions are those of a service that handles the requests one after another, and the
engine is where they leave it. -/
structure History (sha256 : Bytes → Bytes) (start : ReplayMatchEngine) (decisions : List Decision)
    (engine : ReplayMatchEngine) : Prop where
  answers : ReplayService.answers sha256 (.new start) (decisions.map Decision.request) =
    decisions.map Decision.result
  engine_eq : (Runs.run (ReplayService.step sha256) (.new start)
    (decisions.map Decision.request)).engine = engine
  sound : (Runs.run (ReplayService.step sha256) (.new start)
    (decisions.map Decision.request)).poisoned = false
  ok : ∀ d ∈ decisions, d.Ok start.cassette
  consumed : ∀ idx, engine.IsConsumed idx ↔ idx ∈ decisions.filterMap Decision.consumed
  once : (decisions.filterMap Decision.consumed).Nodup

namespace History

variable {sha256 : Bytes → Bytes} {start engine engine' : ReplayMatchEngine}
  {decisions : List Decision} {d : Decision}

theorem nil (h : ∀ idx, ¬ start.IsConsumed idx) : History sha256 start [] start :=
  ⟨rfl, rfl, rfl, by simp, by simpa using h, by simp⟩

/-- The cassette stays as it is. -/
theorem cassette_eq (h : History sha256 start decisions engine) :
    engine.cassette = start.cassette := by
  rw [← h.engine_eq]
  exact (ReplayService.run_frame sha256 _ _).1

/-- **One more request is decided.** -/
theorem concat (h : History sha256 start decisions engine)
    (hhandle : ∀ service : ReplayService, service.engine = engine → service.poisoned = false →
      (service.handleChatCompletions sha256 d.request).1 = d.result ∧
      (service.handleChatCompletions sha256 d.request).2.engine = engine' ∧
      (service.handleChatCompletions sha256 d.request).2.poisoned = false)
    (hok : d.Ok start.cassette)
    (hconsumed : ∀ idx, engine'.IsConsumed idx ↔ d.consumed = some idx ∨ engine.IsConsumed idx)
    (hfresh : ∀ idx, d.consumed = some idx → ¬ engine.IsConsumed idx) :
    History sha256 start (decisions ++ [d]) engine' := by
  obtain ⟨hresult, hengine, hsound⟩ := hhandle _ h.engine_eq h.sound
  refine ⟨?_, ?_, ?_, ?_, ?_, ?_⟩
  · rw [List.map_append, List.map_append, ReplayService.answers, Runs.collect_append,
      ← ReplayService.answers, h.answers]
    simp [Runs.collect, hresult]
  · rw [List.map_append, Runs.run_append]
    exact hengine
  · rw [List.map_append, Runs.run_append]
    exact hsound
  · intro other hother
    rcases List.mem_append.1 hother with hold | hnew
    · exact h.ok other hold
    · rw [List.mem_singleton.1 hnew]
      exact hok
  · intro idx
    rw [hconsumed, h.consumed, List.filterMap_append, List.mem_append]
    simp [or_comm]
  · rw [List.filterMap_append]
    refine List.nodup_append.2 ⟨h.once, ?_, ?_⟩
    · cases hd : d.consumed <;> simp [hd]
    · rintro idx hidx other hother rfl
      -- what was consumed before is not there any more
      have hd : d.consumed = some idx := by simpa using hother
      exact hfresh idx hd ((h.consumed idx).2 hidx)

/-- A request that consumes nothing is decided. -/
theorem concat_error (h : History sha256 start decisions engine) {request : ObservedRequest}
    {e : ReplayError}
    (hhandle : ∀ service : ReplayService, service.engine = engine → service.poisoned = false →
      ∃ count, service.handleChatCompletions sha256 request =
        (.error e, { service with mismatchCount := count }))
    (he : e = .streamCassetteRequiredForStreamRequest ∨ ∃ diagnostic, e = .mismatch diagnostic) :
    History sha256 start (decisions ++ [⟨request, .error e, none⟩]) engine := by
  refine h.concat (fun service hengine hsound => ?_) ⟨rfl, he⟩ (by simp) (by simp)
  obtain ⟨count, heq⟩ := hhandle service hengine hsound
  rw [heq]
  exact ⟨rfl, hengine, hsound⟩

/-- A request without a match is decided. -/
theorem mismatch (h : History sha256 start decisions engine) {request : ObservedRequest}
    (hjson : request.parsedJson.isSome) {diagnostic : MismatchDiagnostic}
    (hpeek : engine.peekMatch (lookupOf sha256 request).observedHash
      (lookupOf sha256 request).canonicalRequest = .mismatch diagnostic) :
    History sha256 start (decisions ++ [⟨request, .error (.mismatch diagnostic), none⟩])
      engine := by
  refine h.concat_error (fun service hengine hsound => ?_) (.inr ⟨diagnostic, rfl⟩)
  subst hengine
  rw [handle_eq_lookup service hjson,
    ReplayService.matchRecordedResponse_mismatch hsound hpeek]
  exact ⟨_, rfl⟩

/-- A request that asks for a stream where none was recorded is decided. -/
theorem refusal (h : History sha256 start decisions engine) {request : ObservedRequest}
    (hjson : request.parsedJson.isSome) {idx : ℕ} {i : Interaction}
    (hpeek : engine.peekMatch (lookupOf sha256 request).observedHash
      (lookupOf sha256 request).canonicalRequest = .matched idx i) {e : ReplayError}
    (hresponse : responseFromRecorded i.response (lookupOf sha256 request).isStreamRequest =
      .error e) :
    History sha256 start (decisions ++ [⟨request, .error e, none⟩]) engine := by
  refine h.concat_error (fun service hengine hsound => ?_)
    (.inl (error_responseFromRecorded hresponse))
  subst hengine
  rw [handle_eq_lookup service hjson,
    ReplayService.matchRecordedResponse_error hsound hpeek hresponse]
  exact ⟨_, rfl⟩

/-- A request that is answered is decided. -/
theorem answer (h : History sha256 start decisions engine) {request : ObservedRequest}
    (hjson : request.parsedJson.isSome) {idx : ℕ} {i : Interaction}
    (hpeek : engine.peekMatch (lookupOf sha256 request).observedHash
      (lookupOf sha256 request).canonicalRequest = .matched idx i) {response : ReplayResponse}
    (hresponse : responseFromRecorded i.response (lookupOf sha256 request).isStreamRequest =
      .ok response) :
    History sha256 start (decisions ++ [⟨request, .ok response, some idx⟩])
      (engine.commitMatch idx).2 := by
  obtain ⟨hcandidate, hi, -⟩ := ReplayMatchEngine.matched_of_peekMatch hpeek
  obtain ⟨hfresh, hconsumed⟩ := ReplayMatchEngine.isConsumed_commitMatch
    (ReplayMatchEngine.commitMatch_of_candidate hcandidate)
  refine h.concat (fun service hengine hsound => ?_) ?_ ?_ ?_
  · subst hengine
    rw [handle_eq_lookup service hjson,
      ReplayService.matchRecordedResponse_ok hsound hpeek hresponse]
    exact ⟨rfl, rfl, hsound⟩
  · rw [h.cassette_eq] at hi
    exact ⟨idx, i, rfl, hi, hresponse⟩
  · intro other
    rw [hconsumed, Option.some.injEq, eq_comm]
  · rintro _ ⟨⟩
    exact hfresh

end History

/-- What the phase of a request says about it. -/
def ReplayPhase.Ok (sha256 : Bytes → Bytes) (engine : ReplayMatchEngine)
    (request : ObservedRequest) : ReplayPhase → Prop
  | .arrived | .leaving _ | .counting _ | .returned _ => True
  | .rejected e => e = .malformedJson ∧ request.parsedJson.isNone
  | .ready lookup | .locked lookup =>
    request.parsedJson.isSome ∧ lookup = lookupOf sha256 request
  | .peeked lookup outcome =>
    request.parsedJson.isSome ∧ lookup = lookupOf sha256 request ∧
      engine.peekMatch lookup.observedHash lookup.canonicalRequest = outcome
  | .built lookup interactionId response =>
    request.parsedJson.isSome ∧ lookup = lookupOf sha256 request ∧
      ∃ i, engine.peekMatch lookup.observedHash lookup.canonicalRequest =
          .matched interactionId i ∧
        responseFromRecorded i.response lookup.isStreamRequest = .ok response

namespace ReplayPool

/-! ### What holds after every run -/

/-- What holds after a run: the takers of the lock, the decisions and the requests that were counted
are those of a log behind a lock, the decisions are those of the requests one after another, and
what was counted was decided. -/
structure Replayed (sha256 : Bytes → Bytes) (engine : ReplayMatchEngine) (takers : List ℕ)
    (decisions : List (ℕ × Decision)) (counts : List (ℕ × Except ReplayError ReplayResponse))
    (s : ReplayPool) : Prop where
  sound : s.poisoned = false
  log : (s.view takers decisions (counts.map Prod.fst)).Inv
  phases : ∀ id request phase, s.tasks id = some ⟨request, phase⟩ →
    phase.Ok sha256 s.engine request
  leaving : ∀ id request result, s.tasks id = some ⟨request, .leaving result⟩ → s.holder = some id
  decided : ∀ id request phase result, s.tasks id = some ⟨request, phase⟩ →
    phase.result = some result → ∃ consumed, (id, ⟨request, result, consumed⟩) ∈ decisions
  history : History sha256 engine (decisions.map Prod.snd) s.engine
  told : ∀ c ∈ counts, ∃ d, (c.1, d) ∈ decisions ∧ d.result = c.2
  matchedCount : s.matchedCount = UInt64.ofNat (counts.countP fun c => c.2.isOk)
  mismatchCount : s.mismatchCount = UInt64.ofNat (counts.countP fun c => isMismatch c.2)

variable {sha256 : Bytes → Bytes} {engine : ReplayMatchEngine} {takers : List ℕ}
  {decisions : List (ℕ × Decision)} {counts : List (ℕ × Except ReplayError ReplayResponse)}
  {s : ReplayPool} {id : ℕ} {request : ObservedRequest} {phase : ReplayPhase}

theorem replayed_start (h : ∀ idx, ¬ engine.IsConsumed idx) :
    Replayed sha256 engine [] [] [] (start engine) where
  sound := rfl
  log := LockedLog.inv_start
  phases id request phase h := by cases h
  leaving id request result h := by cases h
  decided id request phase result h := by cases h
  history := .nil h
  told c h := by cases h
  matchedCount := rfl
  mismatchCount := rfl

theorem tasks_set {other : ℕ} {t : ReplayTask} (h : (s.set id request phase).tasks other = some t) :
    other = id ∧ t = ⟨request, phase⟩ ∨ other ≠ id ∧ s.tasks other = some t := by
  by_cases hother : other = id
  · subst hother
    exact .inl ⟨rfl, by simpa [set, eq_comm] using h⟩
  · exact .inr ⟨hother, by simpa [set, hother] using h⟩

/-- The log of a pool in which a request has gone on. -/
theorem view_set (holder : Option ℕ) (takers : List ℕ) (decisions : List (ℕ × Decision))
    (counts : List ℕ) :
    ({ s.set id request phase with holder } : ReplayPool).view takers decisions counts =
      ⟨Function.update s.status id phase.status,
        holder.filter fun other => Function.update s.status id phase.status other = .locked,
        s.poisoned, takers, decisions, counts⟩ := by
  have hstatus : ({ s.set id request phase with holder } : ReplayPool).status =
      Function.update s.status id phase.status := status_set s id request phase
  unfold view pending
  rw [hstatus]
  rfl

/-- Who has the lock undecided does not change with a request that has not got it. -/
theorem filter_holder_set (hbefore : s.status id ≠ .locked) (hafter : phase.status ≠ .locked) :
    s.holder.filter (fun other => Function.update s.status id phase.status other = .locked) =
      s.pending := by
  unfold pending
  cases s.holder with
  | none => rfl
  | some other =>
    simp only [Option.filter_some]
    by_cases hother : other = id
    · subst hother
      simp [hbefore, hafter]
    · simp [hother]

/-- A counter over one more request. -/
theorem ofNat_countP_concat {α : Type} (p : α → Bool) (xs : List α) (x : α) :
    UInt64.ofNat ((xs ++ [x]).countP p) =
      if p x then UInt64.ofNat (xs.countP p) + 1 else UInt64.ofNat (xs.countP p) := by
  rw [List.countP_append, List.countP_singleton]
  split_ifs
  · rw [UInt64.ofNat_add]
    rfl
  · rfl

/-- A request goes on, and nothing is decided or counted. -/
theorem Replayed.move (h : Replayed sha256 engine takers decisions counts s)
    {holder : Option ℕ} {takers' : List ℕ} (hok : phase.Ok sha256 s.engine request)
    (hresult : ∀ result, phase.result = some result →
      ∃ consumed, (id, ⟨request, result, consumed⟩) ∈ decisions)
    (hleaving : ∀ other asked result,
      (s.set id request phase).tasks other = some ⟨asked, .leaving result⟩ → holder = some other)
    (hlog : LockedLog.Step (s.view takers decisions (counts.map Prod.fst))
      (({ s.set id request phase with holder } : ReplayPool).view takers' decisions
        (counts.map Prod.fst))) :
    Replayed sha256 engine takers' decisions counts { s.set id request phase with holder } where
  sound := h.sound
  log := h.log.step hlog
  phases other asked phase' ht := by
    rcases tasks_set ht with ⟨-, heq⟩ | ⟨-, hold⟩
    · cases heq
      exact hok
    · exact h.phases other asked phase' hold
  leaving := hleaving
  decided other asked phase' result ht hphase := by
    rcases tasks_set ht with ⟨rfl, heq⟩ | ⟨-, hold⟩
    · cases heq
      exact hresult result hphase
    · exact h.decided other asked phase' result hold hphase
  history := h.history
  told := h.told
  matchedCount := h.matchedCount
  mismatchCount := h.mismatchCount

/-- A request goes on by itself. -/
theorem Replayed.quiet (h : Replayed sha256 engine takers decisions counts s)
    (hok : phase.Ok sha256 s.engine request) (hstatus : phase.status = s.status id)
    (hresult : phase.result = none) :
    Replayed sha256 engine takers decisions counts (s.set id request phase) := by
  show Replayed sha256 engine takers decisions counts
    { s.set id request phase with holder := s.holder }
  refine h.move hok (by simp [hresult]) ?_ ?_
  · intro other asked result ht
    rcases tasks_set ht with ⟨-, heq⟩ | ⟨-, hold⟩
    · obtain rfl := (ReplayTask.mk.inj heq).2
      cases hresult
    · exact h.leaving other asked result hold
  · rw [view_set, hstatus, Function.update_eq_self]
    exact .quiet (s.view takers decisions (counts.map Prod.fst))

/-- A request takes the lock. -/
theorem Replayed.take (h : Replayed sha256 engine takers decisions counts s) {lookup : Lookup}
    (ht : s.tasks id = some ⟨request, .ready lookup⟩) (hholder : s.holder = none) :
    Replayed sha256 engine (takers ++ [id]) decisions counts
      { s.set id request (.locked lookup) with holder := some id } := by
  refine h.move (h.phases id request (.ready lookup) ht) (by simp [ReplayPhase.result]) ?_ ?_
  · intro other asked result ht'
    rcases tasks_set ht' with ⟨-, heq⟩ | ⟨-, hold⟩
    · cases heq
    · have := h.leaving other asked result hold
      rw [hholder] at this
      cases this
  · have hpending : (some id).filter (fun other => Function.update s.status id
        (ReplayPhase.locked lookup).status other = .locked) = some id := by
      simp [ReplayPhase.status]
    rw [view_set, hpending]
    exact .take (s.view takers decisions (counts.map Prod.fst)) id (status_eq ht)
      (by simp [view, pending, hholder]) h.sound

/-- A decided request gives the lock back. -/
theorem Replayed.leave (h : Replayed sha256 engine takers decisions counts s)
    {result : Except ReplayError ReplayResponse}
    (ht : s.tasks id = some ⟨request, .leaving result⟩) :
    Replayed sha256 engine takers decisions counts
      { s.set id request (.counting result) with holder := none } := by
  have hholder := h.leaving id request result ht
  have hstatus : s.status id = .appended := status_eq ht
  refine h.move trivial (fun result' hresult => ?_) ?_ ?_
  · obtain rfl : result = result' := Option.some.inj hresult
    exact h.decided id request _ result ht rfl
  · intro other asked result' ht'
    rcases tasks_set ht' with ⟨-, heq⟩ | ⟨hne, hold⟩
    · cases heq
    · have := h.leaving other asked result' hold
      rw [hholder] at this
      exact absurd (Option.some.inj this).symm hne
  · have hpending : s.pending = none := by simp [pending, hholder, hstatus]
    have hsame : Function.update s.status id (ReplayPhase.counting result).status = s.status := by
      rw [show (ReplayPhase.counting result).status = s.status id from hstatus.symm,
        Function.update_eq_self]
    rw [view_set, hsame, Option.filter_none, ← hpending]
    exact .quiet (s.view takers decisions (counts.map Prod.fst))

/-- Where a request with the lock is not decided yet, nobody else has it. -/
theorem Replayed.pending_eq (h : Replayed sha256 engine takers decisions counts s)
    (ht : s.tasks id = some ⟨request, phase⟩) (hphase : phase.status = .locked) :
    s.pending = some id ∧ s.holder = some id := by
  have hpending : s.pending = some id := (h.log.held id).2 ((status_eq ht).trans hphase)
  exact ⟨hpending, (Option.filter_eq_some_iff.1 hpending).1⟩

/-- **A request is decided.**  The engine may have moved: nobody else looks at it. -/
theorem Replayed.decide (h : Replayed sha256 engine takers decisions counts s)
    (ht : s.tasks id = some ⟨request, phase⟩) (hphase : phase.status = .locked)
    {result : Except ReplayError ReplayResponse} {consumed : Option ℕ}
    {engine' : ReplayMatchEngine}
    (hhistory : History sha256 engine
      (decisions.map Prod.snd ++ [⟨request, result, consumed⟩]) engine') :
    Replayed sha256 engine takers (decisions ++ [(id, ⟨request, result, consumed⟩)]) counts
      { s.set id request (.leaving result) with engine := engine' } := by
  obtain ⟨hpending, hholder⟩ := h.pending_eq ht hphase
  have hlog : LockedLog.Step (s.view takers decisions (counts.map Prod.fst))
      (({ s.set id request (.leaving result) with holder := s.holder } : ReplayPool).view takers
        (decisions ++ [(id, ⟨request, result, consumed⟩)]) (counts.map Prod.fst)) := by
    rw [view_set, hholder]
    have hnone : (some id).filter (fun other => Function.update s.status id
        (ReplayPhase.leaving result).status other = .locked) = none := by
      simp [ReplayPhase.status]
    rw [hnone]
    exact .append (s.view takers decisions (counts.map Prod.fst)) id _ hpending
  refine ⟨h.sound, h.log.step hlog, ?_, ?_, ?_, by simpa using hhistory, ?_, h.matchedCount,
    h.mismatchCount⟩
  · intro other asked phase' ht'
    rcases tasks_set ht' with ⟨-, heq⟩ | ⟨hne, hold⟩
    · cases heq
      trivial
    · -- a request that has looked at the engine would have the lock
      have hunlocked : phase'.status ≠ .locked := by
        intro hlocked
        have := (h.pending_eq hold hlocked).1
        rw [hpending] at this
        exact hne (Option.some.inj this).symm
      have hok := h.phases other asked phase' hold
      cases phase' with
      | locked lookup => exact absurd rfl hunlocked
      | peeked lookup outcome => exact absurd rfl hunlocked
      | built lookup interactionId response => exact absurd rfl hunlocked
      | _ => exact hok
  · intro other asked result' ht'
    rcases tasks_set ht' with ⟨rfl, -⟩ | ⟨-, hold⟩
    · exact hholder
    · exact h.leaving other asked result' hold
  · intro other asked phase' result' ht' hresult
    rcases tasks_set ht' with ⟨rfl, heq⟩ | ⟨-, hold⟩
    · cases heq
      obtain rfl : result = result' := Option.some.inj hresult
      exact ⟨consumed, by simp⟩
    · obtain ⟨c, hc⟩ := h.decided other asked phase' result' hold hresult
      exact ⟨c, List.mem_append_left _ hc⟩
  · intro c hc
    obtain ⟨d, hd, heq⟩ := h.told c hc
    exact ⟨d, List.mem_append_left _ hd, heq⟩

/-- **A decided request is counted.** -/
theorem Replayed.count (h : Replayed sha256 engine takers decisions counts s)
    {result : Except ReplayError ReplayResponse}
    (ht : s.tasks id = some ⟨request, .counting result⟩) {matchedCount mismatchCount : UInt64}
    (hmatched : matchedCount = if result.isOk then s.matchedCount + 1 else s.matchedCount)
    (hmismatch : mismatchCount =
      if isMismatch result then s.mismatchCount + 1 else s.mismatchCount) :
    Replayed sha256 engine takers decisions (counts ++ [(id, result)])
      { s.set id request (.returned result) with matchedCount, mismatchCount } := by
  obtain ⟨consumed, hd⟩ := h.decided id request _ result ht rfl
  have hlog : LockedLog.Step (s.view takers decisions (counts.map Prod.fst))
      (({ s.set id request (.returned result) with holder := s.holder } : ReplayPool).view takers
        decisions ((counts ++ [(id, result)]).map Prod.fst)) := by
    have hbefore : s.status id ≠ .locked := by simp [status_eq ht, ReplayPhase.status]
    rw [view_set, filter_holder_set hbefore (by simp [ReplayPhase.status]), List.map_append]
    exact .count (s.view takers decisions (counts.map Prod.fst)) id (status_eq ht)
  refine ⟨h.sound, h.log.step hlog, ?_, ?_, ?_, h.history, ?_, ?_, ?_⟩
  · intro other asked phase' ht'
    rcases tasks_set ht' with ⟨-, heq⟩ | ⟨-, hold⟩
    · cases heq
      trivial
    · exact h.phases other asked phase' hold
  · intro other asked result' ht'
    rcases tasks_set ht' with ⟨-, heq⟩ | ⟨-, hold⟩
    · cases heq
    · exact h.leaving other asked result' hold
  · intro other asked phase' result' ht' hresult
    rcases tasks_set ht' with ⟨rfl, heq⟩ | ⟨-, hold⟩
    · cases heq
      obtain rfl : result = result' := Option.some.inj hresult
      exact ⟨consumed, hd⟩
    · exact h.decided other asked phase' result' hold hresult
  · intro c hc
    rcases List.mem_append.1 hc with hold | hnew
    · exact h.told c hold
    · rw [List.mem_singleton.1 hnew]
      exact ⟨_, hd, rfl⟩
  · show matchedCount = _
    rw [hmatched, h.matchedCount, ofNat_countP_concat]
  · show mismatchCount = _
    rw [hmismatch, h.mismatchCount, ofNat_countP_concat]

/-- **Every step keeps what holds.** -/
theorem Replayed.advance (h : Replayed sha256 engine takers decisions counts s)
    (ht : s.tasks id = some ⟨request, phase⟩) :
    Replayed sha256 engine (takers ++ s.taken (.advance id)) (decisions ++ s.decided (.advance id))
      (counts ++ s.counted (.advance id)) (s.advance sha256 id request phase) := by
  have hok := h.phases id request phase ht
  have hstatus := status_eq ht
  cases phase with
  | arrived =>
    simp only [taken, ReplayPool.decided, counted, ht, List.append_nil, ReplayPool.advance,
      prepare_eq]
    split_ifs with hnone
    · exact h.quiet ⟨rfl, hnone⟩ hstatus.symm rfl
    · exact h.quiet ⟨Option.ne_none_iff_isSome.1 (by simpa using hnone), rfl⟩ hstatus.symm rfl
  | rejected e => simpa [taken, ReplayPool.decided, counted, ht, ReplayPool.advance] using h
  | returned result => simpa [taken, ReplayPool.decided, counted, ht, ReplayPool.advance] using h
  | ready lookup =>
    cases hholder : s.holder with
    | some other =>
      simpa [taken, ReplayPool.decided, counted, ht, ReplayPool.advance, hholder] using h
    | none =>
      simp only [taken, ReplayPool.decided, counted, ht, List.append_nil, ReplayPool.advance,
        hholder, h.sound, Bool.false_eq_true, if_false]
      exact h.take ht hholder
  | locked lookup =>
    simp only [taken, ReplayPool.decided, counted, ht, List.append_nil, ReplayPool.advance]
    exact h.quiet ⟨hok.1, hok.2, rfl⟩ hstatus.symm rfl
  | peeked lookup outcome =>
    obtain ⟨hjson, rfl, hpeek⟩ := hok
    cases outcome with
    | mismatch diagnostic =>
      simp only [taken, ReplayPool.decided, counted, ht, List.append_nil, ReplayPool.advance]
      exact h.decide ht rfl (h.history.mismatch hjson hpeek)
    | matched interactionId i =>
      simp only [taken, ReplayPool.decided, counted, ht, List.append_nil, ReplayPool.advance]
      cases hresponse : responseFromRecorded i.response (lookupOf sha256 request).isStreamRequest
        with
      | error e => exact h.decide ht rfl (h.history.refusal hjson hpeek hresponse)
      | ok response =>
        simp only [List.append_nil]
        exact h.quiet ⟨hjson, rfl, i, hpeek, hresponse⟩ hstatus.symm rfl
  | built lookup interactionId response =>
    obtain ⟨hjson, rfl, i, hpeek, hresponse⟩ := hok
    have hcommit := ReplayMatchEngine.commitMatch_of_candidate
      (ReplayMatchEngine.matched_of_peekMatch hpeek).1
    have hdecide := h.decide ht rfl (h.history.answer hjson hpeek hresponse)
    simp only [taken, ReplayPool.decided, counted, ht, List.append_nil, ReplayPool.advance,
      hcommit, if_true]
    cases hpair : s.engine.commitMatch interactionId with
    | mk done engine' =>
      rw [hpair] at hcommit hdecide
      simp only at hcommit
      subst hcommit
      exact hdecide
  | leaving result =>
    simp only [taken, ReplayPool.decided, counted, ht, List.append_nil, ReplayPool.advance]
    exact h.leave ht
  | counting result =>
    simp only [taken, ReplayPool.decided, counted, ht, List.append_nil, ReplayPool.advance]
    cases result with
    | ok response => exact h.count ht rfl rfl
    | error e => cases e <;> exact h.count ht rfl rfl

theorem Replayed.step (h : Replayed sha256 engine takers decisions counts s) (e : Event) :
    Replayed sha256 engine (takers ++ s.taken e) (decisions ++ s.decided e)
      (counts ++ s.counted e) (s.step sha256 e) := by
  cases e with
  | arrive id request =>
    simp only [taken, ReplayPool.decided, counted, List.append_nil, ReplayPool.step]
    cases ht : s.tasks id with
    | some t => exact h
    | none => exact h.quiet trivial (by simp [status, ht, ReplayPhase.status]) rfl
  | advance id =>
    cases ht : s.tasks id with
    | none => simpa [taken, ReplayPool.decided, counted, ht, ReplayPool.step] using h
    | some t => simpa only [ReplayPool.step, ht] using h.advance ht

theorem Replayed.run (h : Replayed sha256 engine takers decisions counts s) (es : List Event) :
    Replayed sha256 engine (takers ++ Runs.collect (ReplayPool.step sha256) taken s es)
      (decisions ++ Runs.collect (ReplayPool.step sha256) ReplayPool.decided s es)
      (counts ++ Runs.collect (ReplayPool.step sha256) counted s es)
      (Runs.run (ReplayPool.step sha256) s es) := by
  induction es generalizing s takers decisions counts with
  | nil => simpa [Runs.collect] using h
  | cons e es ih => simpa [Runs.collect, List.append_assoc] using ih (h.step e)

/-- Once every request is over, what was counted is what was decided. -/
theorem Replayed.counts_perm (h : Replayed sha256 engine takers decisions counts s)
    (hover : ∀ id, s.status id ≠ .appended) :
    counts.Perm (decisions.map fun d => (d.1, d.2.result)) := by
  have hids : (decisions.map Prod.fst).Nodup := h.log.nodup
  have hcounts : (counts.map Prod.fst).Nodup := h.log.counted
  refine (List.perm_ext_iff_of_nodup hcounts.of_map ?_).2 fun c => ?_
  · refine List.Nodup.of_map Prod.fst ?_
    rwa [List.map_map]
  · constructor
    · intro hc
      obtain ⟨d, hd, heq⟩ := h.told c hc
      exact List.mem_map.2 ⟨(c.1, d), hd, by simp [heq]⟩
    · intro hc
      obtain ⟨⟨id, d⟩, hd, rfl⟩ := List.mem_map.1 hc
      have hcounted : id ∈ counts.map Prod.fst :=
        h.log.subset_counted hover (List.mem_map.2 ⟨(id, d), hd, rfl⟩)
      obtain ⟨⟨_, result⟩, htold, rfl⟩ := List.mem_map.1 hcounted
      obtain ⟨d', hd', rfl⟩ := h.told _ htold
      -- a request is decided once
      obtain rfl : d' = d := congrArg Prod.snd (List.inj_on_of_nodup_map hids hd' hd rfl)
      exact htold

/-- As many requests are answered as interactions are consumed. -/
theorem length_consumed {cassette : Cassette} {ds : List Decision} (h : ∀ d ∈ ds, d.Ok cassette) :
    (ds.filterMap Decision.consumed).length = ds.countP fun d => d.result.isOk := by
  induction ds with
  | nil => rfl
  | cons d ds ih =>
    rw [List.forall_mem_cons] at h
    have hd := h.1
    unfold Decision.Ok at hd
    cases hresult : d.result with
    | ok response =>
      rw [hresult] at hd
      obtain ⟨idx, i, hconsumed, -⟩ := hd
      simp [hconsumed, hresult, ih h.2, Except.isOk, Except.toBool]
    | error e =>
      rw [hresult] at hd
      simp [hd.1, hresult, ih h.2, Except.isOk, Except.toBool]

/-- **Replaying concurrently.**  After every run of every set of requests on the clones of a new
service, the decisions are those of the requests handled one after another in the order in which
they took the lock, and leave the engine in the same state.  An answered request has consumed the
interaction that its response was built from, and a refused one none; no interaction is consumed
twice, and no commit fails.  A request that is not JSON is turned away, as it would be at any time.
Once every request is over, the counters are the numbers of answers and of mismatches. -/
theorem concurrent_replay {cassette : Cassette} {mode : MatchMode} {engine : ReplayMatchEngine}
    (hnew : ReplayMatchEngine.new cassette mode = .ok engine) (sha256 : Bytes → Bytes)
    (es : List Event) :
    let s := Runs.run (step sha256) (start engine) es
    let takers := Runs.collect (step sha256) taken (start engine) es
    let decisions := Runs.collect (step sha256) decided (start engine) es
    let requests := decisions.map fun d => d.2.request
    (decisions.map Prod.fst).Sublist takers ∧ takers.Nodup ∧
      ReplayService.answers sha256 (.new engine) requests = decisions.map (fun d => d.2.result) ∧
      (Runs.run (ReplayService.step sha256) (.new engine) requests).engine = s.engine ∧
      (∀ d ∈ decisions, d.2.Ok cassette) ∧
      (∀ idx, s.engine.IsConsumed idx ↔ idx ∈ decisions.filterMap fun d => d.2.consumed) ∧
      (decisions.filterMap fun d => d.2.consumed).Nodup ∧
      (∀ id request result, s.tasks id = some ⟨request, .returned result⟩ →
        ∃ consumed, (id, ⟨request, result, consumed⟩) ∈ decisions) ∧
      (∀ id request e, s.tasks id = some ⟨request, .rejected e⟩ →
        e = .malformedJson ∧ id ∉ decisions.map Prod.fst ∧
        ∀ service, ReplayService.handleChatCompletions sha256 service request =
          (.error .malformedJson, service)) ∧
      ((∀ id request phase, s.tasks id = some ⟨request, phase⟩ →
          (∃ e, phase = .rejected e) ∨ ∃ result, phase = .returned result) →
        s.matchedCount = UInt64.ofNat (decisions.countP fun d => d.2.result.isOk) ∧
        (decisions.filterMap fun d => d.2.consumed).length =
          decisions.countP (fun d => d.2.result.isOk) ∧
        s.mismatchCount = UInt64.ofNat (decisions.countP fun d => isMismatch d.2.result)) := by
  intro s takers decisions requests
  have h : Replayed sha256 engine takers decisions _ s :=
    (replayed_start (ReplayMatchEngine.not_isConsumed_new hnew)).run es
  obtain ⟨hcassette, -⟩ := ReplayMatchEngine.new_frame hnew
  have hfilter : decisions.filterMap (fun d => d.2.consumed) =
      (decisions.map Prod.snd).filterMap Decision.consumed := by
    rw [List.filterMap_map]
    rfl
  have hrequests : requests = (decisions.map Prod.snd).map Decision.request := by
    rw [List.map_map]
    rfl
  have hok : ∀ d ∈ decisions, d.2.Ok cassette := by
    intro d hd
    rw [← hcassette]
    exact h.history.ok _ (List.mem_map_of_mem hd)
  rw [hfilter, hrequests]
  refine ⟨h.log.order, h.log.takers, ?_, h.history.engine_eq, hok, h.history.consumed,
    h.history.once, ?_, ?_, ?_⟩
  · rw [h.history.answers, List.map_map]
    rfl
  · intro id request result ht
    exact h.decided id request _ result ht rfl
  · intro id request e ht
    obtain ⟨rfl, hnone⟩ := h.phases id request _ ht
    refine ⟨rfl, fun hmem => ?_, fun service => ?_⟩
    · have hstatus : s.status id = .fresh := status_eq ht
      rcases (h.log.appended id).1 hmem with hold | hold <;> cases hstatus.symm.trans hold
    · rw [ReplayService.handleChatCompletions_eq, if_pos hnone]
  · intro hover
    have hperm := h.counts_perm fun id happended => by
      cases ht : s.tasks id with
      | none => simp [status, ht] at happended
      | some t =>
        have hstatus := (status_eq ht).symm.trans happended
        rcases hover id t.request t.phase ht with ⟨e, heq⟩ | ⟨result, heq⟩ <;>
          (rw [heq] at hstatus; cases hstatus)
    refine ⟨?_, ?_, ?_⟩
    · rw [h.matchedCount, hperm.countP_eq, List.countP_map]
      rfl
    · rw [@length_consumed cassette, List.countP_map]
      · rfl
      · intro d hd
        obtain ⟨p, hp, rfl⟩ := List.mem_map.1 hd
        exact hok p hp
    · rw [h.mismatchCount, hperm.countP_eq, List.countP_map]
      rfl

/-- Of two requests that come for one interaction the second takes the lock first, and consumes it;
the other is told that the cassette is exhausted. -/
theorem concurrent_replay_two :
    let request : ObservedRequest :=
      ⟨"POST", chatCompletionsPath, "", [], [], [], some (.object [("model", .string "m")])⟩
    let engine : ReplayMatchEngine :=
      { cassette := .ofHashes [""], interactions := [⟨"", none⟩], mode := .sequentialStrict
        sequentialCursor := 0, hashToIndices := fun _ => none, consumed := [false]
        parallel := .cons ⟨rfl, rfl⟩ .nil, indexed := rfl }
    let es : List Event :=
      [.arrive 1 request, .arrive 2 request, .advance 1, .advance 2, .advance 2, .advance 1,
        .advance 2, .advance 2, .advance 2, .advance 2, .advance 1, .advance 1, .advance 2,
        .advance 1, .advance 1, .advance 1]
    let s := Runs.run (step fun _ => []) (start engine) es
    s.matchedCount = 1 ∧ s.mismatchCount = 1 ∧ ∀ idx, s.engine.IsConsumed idx ↔ idx = 0 := by
  intro request engine es s
  have hnew : ReplayMatchEngine.new (.ofHashes [""]) .sequentialStrict = .ok engine := rfl
  obtain ⟨-, -, -, -, -, hconsumed, -⟩ := concurrent_replay hnew (fun _ => []) es
  have hdecided : ((Runs.collect (step fun _ => []) decided (start engine) es).filterMap
      fun d => d.2.consumed) = [0] := by decide +kernel
  refine ⟨by decide +kernel, by decide +kernel, fun idx => ?_⟩
  rw [hconsumed, hdecided, List.mem_singleton]

end ReplayPool

end SpycatcherHarness
