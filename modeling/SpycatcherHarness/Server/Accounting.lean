import SpycatcherHarness.Server.Record

/-!
# Counting exchanges

The service counts what it has recorded and what has failed.  Whatever becomes of an exchange, it
comes down to a list of actions on the service: a failure, or an interaction that is handed to the
store and is counted as recorded or as failed.

* `Recorder.count_foldl_act` : every action is counted once.
* `Recording.accounts_run` : a recording acts at most twice, and twice only if its chunks fail to
  parse and its upstream fails.
* `Recorder.accountedOnce_iff` : when an exchange is counted once.
* `Recorder.not_accountedOnce` : a stream that is counted twice.
-/

namespace SpycatcherHarness

open Files Store

/-! ### Actions of a recording -/

/-- The chunks of a stream fail to parse, and then its upstream fails. -/
def FailsTwice (fromStr : String → Option Json) (body : List (HarnessResult Bytes)) : Prop :=
  ∃ (chunks : List Bytes) (e : HarnessError) (rest : List (HarnessResult Bytes))
    (parseError : SseParseError), body = chunks.map .ok ++ .error e :: rest ∧
      (SseParser.feedAll fromStr .empty chunks).1 = .error parseError

theorem not_failsTwice_of_ok {fromStr : String → Option Json} (chunks : List Bytes) :
    ¬ FailsTwice fromStr (chunks.map .ok) := by
  rintro ⟨chunks', e, rest, -, hbody, -⟩
  have hmem : Except.error e ∈ chunks.map (Except.ok : Bytes → HarnessResult Bytes) := by
    rw [hbody]
    simp
  simp at hmem

/-- The chunks before the upstream fails are determined. -/
theorem failsTwice_iff {fromStr : String → Option Json} {chunks : List Bytes} {e : HarnessError}
    {rest : List (HarnessResult Bytes)} :
    FailsTwice fromStr (chunks.map .ok ++ .error e :: rest) ↔
      ∃ parseError, (SseParser.feedAll fromStr .empty chunks).1 = .error parseError := by
  constructor
  · rintro ⟨chunks', e', rest', parseError, hbody, hparse⟩
    have hdelivered := congrArg delivered hbody
    rw [delivered_append, delivered_append, delivered, delivered] at hdelivered
    obtain ⟨hchunks, -⟩ := List.append_inj' hdelivered rfl
    rw [Recording.map_ok_injective hchunks]
    exact ⟨parseError, hparse⟩
  · rintro ⟨parseError, hparse⟩
    exact ⟨chunks, e, rest, parseError, rfl, hparse⟩

namespace StreamRecordingState

variable {C : RecordConfig}

/-- Finishing a recording that has not failed acts once. -/
theorem length_finishRecording {state : StreamRecordingState}
    (hlive : state.recordingFailed = false) (metadata : HarnessResult InteractionMetadata)
    (now : ℕ) :
    (state.finishRecording C metadata now).length = 1 := by
  unfold finishRecording
  rw [hlive, if_neg Bool.false_ne_true]
  rcases state.parser.finish C.json.fromStr with ⟨e | newEvents, parser⟩
  · rfl
  · unfold appendCompletedRecording
    cases state.request with
    | none => rfl
    | some request =>
      simp only
      split <;> rfl

/-- Observing a chunk fails at most once. -/
theorem actions_observeChunk (now : ℕ) (state : StreamRecordingState) (chunk : Bytes) :
    (if state.recordingFailed then [.failure] else []) ++ (state.observeChunk C now chunk).2 =
      if (state.observeChunk C now chunk).1.recordingFailed then [.failure] else [] := by
  unfold observeChunk
  cases hlive : state.recordingFailed with
  | true => simp [hlive]
  | false =>
    rcases hfeed : state.parser.feed C.json.fromStr chunk with ⟨e | newEvents, parser⟩ <;>
      simp [hfeed]

end StreamRecordingState

namespace Recording

open StreamRecordingState

variable {C : RecordConfig} {metadata : HarnessResult InteractionMetadata}

/-- What a recording has done: nothing while it goes on, unless parsing has failed, and at its end
one thing, or two. -/
structure Accounts (fromStr : String → Option Json) (body : List (HarnessResult Bytes))
    (r : Recording) : Prop where
  reading : ∀ state, r.stream = some state →
    r.actions = if state.recordingFailed then [.failure] else []
  once : r.stream = none → ¬ FailsTwice fromStr body → r.actions.length = 1
  twice : r.stream = none → FailsTwice fromStr body → r.actions = [.failure, .failure]

theorem Accounts.step {request : ObservedRequest} {response : StreamingObservedResponse} {n : ℕ}
    {r : Recording} (h : Accounts C.json.fromStr response.body r)
    (hafter : After C metadata request response n r) (now : ℕ) :
    Accounts C.json.fromStr response.body (r.step C metadata now) := by
  cases hafter with
  | ended _ stream | failed _ _ _ stream =>
    rw [step_none stream]
    exact ⟨h.reading, h.once, h.twice⟩
  | reading chunks state stream body _ _ _ _ _ _ observed failed =>
    have hactions := h.reading state stream
    rcases hbody : state.upstreamBody with _ | ⟨e | chunk, rest⟩
    -- the end: the recording is finished, unless parsing has failed
    · rw [step_end stream hbody]
      rw [hbody, List.append_nil] at body
      have hnot : ¬ FailsTwice C.json.fromStr response.body := body ▸ not_failsTwice_of_ok chunks
      refine ⟨fun state h => (by cases h), fun _ _ => ?_, fun _ h => absurd h hnot⟩
      cases hlive : state.recordingFailed with
      | true => simp [hactions, hlive, finishRecording]
      | false => simp [hactions, hlive, length_finishRecording hlive]
    -- the upstream fails: that is counted, whether or not parsing has failed before
    · rw [step_error stream hbody]
      rw [hbody] at body
      refine ⟨fun state h => (by cases h), fun _ hnot => ?_, fun _ htwice => ?_⟩
      · cases hlive : state.recordingFailed with
        | true => exact absurd (body ▸ failsTwice_iff.2 (failed hlive)) hnot
        | false => simp [hactions, hlive]
      · cases hlive : state.recordingFailed with
        | true => simp [hactions, hlive]
        | false =>
          obtain ⟨parseError, hparse⟩ := failsTwice_iff.1 (body ▸ htwice)
          rw [(observed hlive).parsed] at hparse
          cases hparse
    · rw [step_chunk stream hbody]
      refine ⟨?_, fun h => (by cases h), fun h => (by cases h)⟩
      rintro _ ⟨⟩
      rw [hactions]
      exact actions_observeChunk now { state with upstreamBody := rest } chunk

/-- A recording that has come to its end has done one thing, or two if its chunks fail to parse and
its upstream fails. -/
theorem accounts_run (request : ObservedRequest) (response : StreamingObservedResponse)
    (upstreamStart : ℕ) {times : List ℕ}
    (hclock : Runs.Along (step C metadata) ClockRuns
      (.start request response upstreamStart) times) :
    Accounts C.json.fromStr response.body
      (Runs.run (step C metadata) (.start request response upstreamStart) times) := by
  refine (Runs.run_history (I := fun times r => After C metadata request response times.length r ∧
    Accounts C.json.fromStr response.body r)
    ⟨after_start request response upstreamStart, ?_⟩ ?_ times hclock).2
  · refine ⟨?_, fun h => (by cases h), fun h => (by cases h)⟩
    rintro _ ⟨⟩
    rfl
  · rintro times now ⟨hafter, haccounts⟩ hnow
    rw [List.length_append, List.length_singleton]
    exact ⟨hafter.step hnow, haccounts.step hafter now⟩

end Recording

/-! ### Actions of an exchange -/

namespace Exchange

variable {C : RecordConfig} (x : Exchange C)

/-- The request got past the resolution of the API key, and if it is answered by a stream, the
client has read from it until it ended or failed. -/
structure RunsToEnd : Prop where
  apiKey : x.apiKey.isSome
  stream : isStreamingChatCompletionsRequest x.request.parsedJson = true →
    ∀ response, x.stream = .ok response → (x.recording response).stream = none

/-- The request is answered by a stream whose chunks fail to parse before its upstream fails. -/
def FailsTwice : Prop :=
  isStreamingChatCompletionsRequest x.request.parsedJson = true ∧
    ∃ response, x.stream = .ok response ∧
      SpycatcherHarness.FailsTwice C.json.fromStr response.body

variable {x}

/-- An exchange that runs to its end does one thing, or it fails twice. -/
theorem actions_of_runsToEnd (h : x.RunsToEnd) :
    (¬ x.FailsTwice ∧ x.actions.length = 1) ∨
      (x.FailsTwice ∧ x.actions = [.failure, .failure]) := by
  have hkey : x.apiKey.isNone = false := by
    rw [← Option.not_isSome, h.apiKey]
    rfl
  unfold actions
  rw [hkey, if_neg Bool.false_ne_true]
  split_ifs with hstream
  · cases hup : x.stream with
    | error e =>
      refine .inl ⟨?_, rfl⟩
      rintro ⟨-, response, hresponse, -⟩
      rw [hup] at hresponse
      cases hresponse
    | ok response =>
      have haccounts := Recording.accounts_run x.request response x.started
        (x.clockRuns response hup)
      have hend := h.stream hstream response hup
      by_cases htwice : SpycatcherHarness.FailsTwice C.json.fromStr response.body
      · exact .inr ⟨⟨hstream, response, hup, htwice⟩, haccounts.twice hend htwice⟩
      · refine .inl ⟨?_, haccounts.once hend htwice⟩
        rintro ⟨-, response', hresponse, htwice'⟩
        obtain rfl := Except.ok.inj (hup.symm.trans hresponse)
        exact htwice htwice'
  · refine .inl ⟨fun htwice => hstream htwice.1, ?_⟩
    cases x.send with
    | error e => rfl
    | ok response =>
      simp only
      split <;> rfl

end Exchange

namespace Recorder

variable {C : RecordConfig}

/-! ### Counting -/

variable (C) in
/-- The store and its file are extended by the interaction. -/
def Extended (r r' : Recorder) (i : Interaction) : Prop :=
  r'.store = { r.store with cassette := r.store.cassette.append i } ∧
    content r'.dir r.store.fileName = some ((r.store.cassette.append i).writeTo C.json)

/-- The store and its file are as they were. -/
def Kept (r r' : Recorder) : Prop :=
  r'.store = r.store ∧ content r'.dir r.store.fileName = content r.dir r.store.fileName

/-- An interaction that is handed to the store is appended and counted as recorded, or it is not
appended and counted as failed. -/
theorem persistInteraction_cases (faults : Faults) (r : Recorder) (i : Interaction) :
    (Extended C r (r.persistInteraction C faults i) i ∧
      (r.persistInteraction C faults i).recordedCount = r.recordedCount + 1 ∧
      (r.persistInteraction C faults i).failureCount = r.failureCount) ∨
    (Kept r (r.persistInteraction C faults i) ∧
      (r.persistInteraction C faults i).recordedCount = r.recordedCount ∧
      (r.persistInteraction C faults i).failureCount = r.failureCount + 1) := by
  unfold persistInteraction appendInteraction
  cases hlock : r.poisoned with
  | true => exact .inr ⟨⟨rfl, rfl⟩, rfl, rfl⟩
  | false =>
    rcases append_spec C.json faults r.dir r.store i with ⟨ops, heq, hops⟩ | ⟨ops, e, heq, hops⟩
    · simp only [Bool.false_eq_true, if_false, heq]
      exact .inl ⟨⟨rfl, hops⟩, rfl, rfl⟩
    · simp only [Bool.false_eq_true, if_false, heq]
      exact .inr ⟨⟨rfl, hops⟩, rfl, rfl⟩

/-- Every action is counted once. -/
theorem count_act (faults : Faults) (r : Recorder) (action : RecordAction) :
    (r.act C faults action).recordedCount + (r.act C faults action).failureCount =
      r.recordedCount + r.failureCount + 1 := by
  cases action with
  | failure => exact (UInt64.add_assoc r.recordedCount r.failureCount 1).symm
  | append i =>
    rcases persistInteraction_cases (C := C) faults r i with ⟨-, hrecorded, hfailed⟩ |
      ⟨-, hrecorded, hfailed⟩
    · rw [act, hrecorded, hfailed]
      ac_rfl
    · rw [act, hrecorded, hfailed]
      ac_rfl

theorem count_foldl_act (faults : Faults) (r : Recorder) (actions : List RecordAction) :
    (actions.foldl (act C faults) r).recordedCount + (actions.foldl (act C faults) r).failureCount =
      r.recordedCount + r.failureCount + UInt64.ofNat actions.length := by
  induction actions generalizing r with
  | nil => exact (UInt64.add_zero _).symm
  | cons action actions ih =>
    have hact := count_act (C := C) faults r action
    rw [List.foldl_cons, ih, hact, List.length_cons, UInt64.add_assoc, ← UInt64.ofNat_one,
      ← UInt64.ofNat_add, Nat.add_comm 1]

variable (C) in
/-- The exchange is counted once: as recorded if its interaction was appended, and as failed
otherwise. -/
def AccountedOnce (r : Recorder) (x : Exchange C) : Prop :=
  (r.exchange C x).recordedCount + (r.exchange C x).failureCount =
      r.recordedCount + r.failureCount + 1 ∧
    ((∃ i, x.attempted = some i ∧ Extended C r (r.exchange C x) i ∧
        (r.exchange C x).recordedCount = r.recordedCount + 1) ∨
      (Kept r (r.exchange C x) ∧ (r.exchange C x).recordedCount = r.recordedCount))

/-- **When an exchange is counted once.**  For every state of the service, whichever steps of the
append fail: an exchange that runs to its end is counted exactly once, as recorded exactly if its
interaction was appended, unless the chunks of its stream fail to parse and then its upstream
fails. -/
theorem accountedOnce_iff (r : Recorder) {x : Exchange C} (h : x.RunsToEnd) :
    r.AccountedOnce C x ↔ ¬ x.FailsTwice := by
  have hcount := count_foldl_act (C := C) x.faults r x.actions
  rw [← exchange_eq] at hcount
  rcases x.actions_of_runsToEnd h with ⟨hnot, hone⟩ | ⟨htwice, htwo⟩
  · refine iff_of_true ⟨by rw [hcount, hone, UInt64.ofNat_one], ?_⟩ hnot
    obtain ⟨action, haction⟩ := List.length_eq_one_iff.1 hone
    have hattempted := x.appends_actions
    rw [exchange_eq, haction, List.foldl_cons, List.foldl_nil]
    rw [haction] at hattempted
    cases action with
    | failure => exact .inr ⟨⟨rfl, rfl⟩, rfl⟩
    | append i =>
      have hattempted : x.attempted = some i := Option.toList_eq_singleton_iff.1 hattempted.symm
      rcases persistInteraction_cases (C := C) x.faults r i with ⟨hextended, hrecorded, -⟩ |
        ⟨hkept, hrecorded, -⟩
      · exact .inl ⟨i, hattempted, hextended, hrecorded⟩
      · exact .inr ⟨hkept, hrecorded⟩
  · refine iff_of_false (fun haccounted => ?_) (not_not_intro htwice)
    have honce := haccounted.1
    rw [hcount, htwo] at honce
    simp at honce

/-- A stream that is not text is counted once. -/
theorem accountedOnce_unparsed :
    let C : RecordConfig := ⟨.exact, Sha256.digest, .default⟩
    let v : Json := .object [("stream", .bool true)]
    let x : Exchange C :=
      { request := ⟨"POST", chatCompletionsPath, "", [], [], SerdeJson.exact.toWriterPretty v,
          some v⟩
        apiKey := some "key"
        send := .error (.io .other)
        stream := .ok ⟨200, [], [], [.ok [0xff, 0x0a, 0x0a]]⟩
        metadata := .ok ⟨"chat", "up", "now", 0⟩
        started := 0
        times := [0, 0]
        faults := .none
        observed := RecordConfig.observes_exact rfl rfl (by decide) (by decide)
        observedResponse := by rintro _ ⟨⟩
        clockRuns := by rintro _ ⟨⟩; decide +kernel }
    let r : Recorder := ⟨fun _ => none, ⟨"c.json", .new⟩, false, 0, 0⟩
    r.AccountedOnce C x := by
  intro C v x r
  have hends : x.RunsToEnd := by
    refine ⟨rfl, ?_⟩
    rintro - _ ⟨⟩
    decide +kernel
  refine (accountedOnce_iff r hends).2 ?_
  rintro ⟨-, _, ⟨⟩, htwice⟩
  exact not_failsTwice_of_ok [[0xff, 0x0a, 0x0a]] htwice

/-- A stream that is not text and whose upstream then fails is counted as two failures. -/
theorem not_accountedOnce :
    let C : RecordConfig := ⟨.exact, Sha256.digest, .default⟩
    let v : Json := .object [("stream", .bool true)]
    let x : Exchange C :=
      { request := ⟨"POST", chatCompletionsPath, "", [], [], SerdeJson.exact.toWriterPretty v,
          some v⟩
        apiKey := some "key"
        send := .error (.io .other)
        stream := .ok ⟨200, [], [], [.ok [0xff, 0x0a, 0x0a], .error (.io .other)]⟩
        metadata := .ok ⟨"chat", "up", "now", 0⟩
        started := 0
        times := [0, 0]
        faults := .none
        observed := RecordConfig.observes_exact rfl rfl (by decide) (by decide)
        observedResponse := by rintro _ ⟨⟩
        clockRuns := by rintro _ ⟨⟩; decide +kernel }
    let r : Recorder := ⟨fun _ => none, ⟨"c.json", .new⟩, false, 0, 0⟩
    x.RunsToEnd ∧ (r.exchange C x).recordedCount = 0 ∧ (r.exchange C x).failureCount = 2 ∧
      ¬ r.AccountedOnce C x := by
  intro C v x r
  have hends : x.RunsToEnd := by
    refine ⟨rfl, ?_⟩
    rintro - _ ⟨⟩
    decide +kernel
  have hrecorded : (r.exchange C x).recordedCount = 0 := by decide +kernel
  have hfailed : (r.exchange C x).failureCount = 2 := by decide +kernel
  refine ⟨hends, hrecorded, hfailed, fun honce => ?_⟩
  have hcount := honce.1
  rw [hrecorded, hfailed] at hcount
  cases hcount

end Recorder

end SpycatcherHarness
