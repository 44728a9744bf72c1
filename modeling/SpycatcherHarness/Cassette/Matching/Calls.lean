import SpycatcherHarness.Cassette.Matching
import SpycatcherHarness.Machine.Runs

/-!
# Runs of the matching engine

A client of the engine looks at matches, commits them, and takes matches in one go, in any order.
`Client` is the engine together with what the client has been shown.  Nothing is assumed about how
the calls follow one another: a match that was shown can be committed late, twice or never.

* `ReplayMatchEngine.nextMatch_eq` : taking a match is looking at it and committing it.
* `ReplayMatchEngine.commitMatch_of_candidate` : what is looked at can be committed.
* `ReplayMatchEngine.peekMatch_commitMatch` : looking and committing is taking, in every state.
* `Client.step_engine` : what a call does to the engine.
-/

namespace SpycatcherHarness

namespace ReplayMatchEngine

variable {engine : ReplayMatchEngine} {observedHash : String} {observedCanonical : Json}

/-- A position with request data is one with an interaction. -/
theorem length_interactions (engine : ReplayMatchEngine) :
    engine.interactions.length = engine.cassette.interactions.length :=
  List.Forall₂.length_eq engine.parallel

/-- The recorded hash at a position is that of the interaction there. -/
theorem getElem?_stableHash (engine : ReplayMatchEngine) (idx : ℕ) :
    (engine.interactions[idx]?.map InteractionData.stableHash) =
      engine.cassette.interactions[idx]?.bind fun i => i.request.stableHash := by
  cases hd : engine.interactions[idx]? with
  | none =>
    have hlt := List.getElem?_eq_none_iff.1 hd
    rw [length_interactions] at hlt
    rw [List.getElem?_eq_none hlt]
    rfl
  | some d =>
    obtain ⟨i, hi, hof⟩ := interaction_of_data hd
    simp [hi, hof.1]

/-- A candidate is looked at as the interaction at its position. -/
theorem peekMatch_of_candidate {idx : ℕ}
    (h : engine.candidate observedHash observedCanonical = .ok idx) :
    ∃ i, engine.cassette.interactions[idx]? = some i ∧
      i.request.stableHash = some observedHash ∧
      engine.peekMatch observedHash observedCanonical = .matched idx i := by
  obtain ⟨d, hd, rfl⟩ := hash_of_candidate h
  obtain ⟨i, hi, hof⟩ := interaction_of_data hd
  exact ⟨i, hi, hof.1, by simp [peekMatch, h, matchedAt, hi]⟩

/-- Without a candidate, looking for a match tells why there is none. -/
theorem peekMatch_of_error {diagnostic : MismatchDiagnostic}
    (h : engine.candidate observedHash observedCanonical = .error diagnostic) :
    engine.peekMatch observedHash observedCanonical = .mismatch diagnostic := by
  simp [peekMatch, h]

/-- A commit in sequential mode. -/
theorem commitMatch_sequential (hmode : engine.mode = .sequentialStrict) (idx : ℕ) :
    engine.commitMatch idx =
      if engine.sequentialCursor = idx ∧ idx < engine.interactions.length then
        (true, { engine with sequentialCursor := engine.sequentialCursor + 1 })
      else (false, engine) := by
  have hisSome : engine.interactions[idx]?.isSome ↔ idx < engine.interactions.length := by simp
  unfold commitMatch
  split
  · simp only [hisSome]
  · rename_i hkeyed
    rw [hmode] at hkeyed
    cases hkeyed

/-- A commit in keyed mode. -/
theorem commitMatch_keyed (hmode : engine.mode = .keyed) (idx : ℕ) :
    engine.commitMatch idx =
      if engine.consumed[idx]? = some false then
        (true, { engine with consumed := engine.consumed.set idx true })
      else (false, engine) := by
  unfold commitMatch
  split
  · rename_i hsequential
    rw [hmode] at hsequential
    cases hsequential
  · split <;> simp_all

/-- A commit that fails changes nothing. -/
theorem commitMatch_of_false {idx : ℕ} (h : (engine.commitMatch idx).1 = false) :
    (engine.commitMatch idx).2 = engine := by
  cases hmode : engine.mode with
  | sequentialStrict =>
    rw [commitMatch_sequential hmode] at h ⊢
    split_ifs at h ⊢
    rfl
  | keyed =>
    rw [commitMatch_keyed hmode] at h ⊢
    split_ifs at h ⊢
    rfl

/-- Where a candidate is looked at and then committed, the commit succeeds. -/
theorem commitMatch_of_candidate {idx : ℕ}
    (h : engine.candidate observedHash observedCanonical = .ok idx) :
    (engine.commitMatch idx).1 = true := by
  obtain ⟨d, hd, -⟩ := hash_of_candidate h
  have hlt := (List.getElem?_eq_some_iff.1 hd).1
  unfold candidate at h
  cases hmode : engine.mode with
  | sequentialStrict =>
    simp only [hmode, sequentialCandidate] at h
    rw [commitMatch_sequential hmode]
    split at h
    · cases h
    · split_ifs at h
      cases h
      rw [if_pos ⟨rfl, hlt⟩]
  | keyed =>
    simp only [hmode, keyedCandidate] at h
    rw [commitMatch_keyed hmode]
    split at h
    · cases h
    · split at h
      · rename_i hfind
        cases h
        rw [if_pos (by simpa using List.find?_some hfind)]
      · cases h

/-- The interaction at a position has been consumed. -/
def IsConsumed (engine : ReplayMatchEngine) (idx : ℕ) : Prop :=
  match engine.mode with
  | .sequentialStrict => idx < engine.sequentialCursor
  | .keyed => engine.consumed[idx]? = some true

/-- A new engine has consumed nothing. -/
theorem not_isConsumed_new {cassette : Cassette} {mode : MatchMode}
    (h : new cassette mode = .ok engine) (idx : ℕ) : ¬ engine.IsConsumed idx := by
  unfold new at h
  split at h
  · cases h
  obtain rfl := Except.ok.inj h
  cases mode with
  | sequentialStrict => exact Nat.not_lt_zero idx
  | keyed => simp [IsConsumed, List.getElem?_replicate]

/-- **A commit that succeeds consumes one interaction, which was still there.** -/
theorem isConsumed_commitMatch {idx : ℕ} (h : (engine.commitMatch idx).1 = true) :
    ¬ engine.IsConsumed idx ∧ ∀ other,
      (engine.commitMatch idx).2.IsConsumed other ↔ other = idx ∨ engine.IsConsumed other := by
  cases hmode : engine.mode with
  | sequentialStrict =>
    rw [commitMatch_sequential hmode] at h ⊢
    split_ifs at h ⊢ with hnext
    obtain ⟨rfl, -⟩ := hnext
    simp only [IsConsumed, hmode, lt_irrefl, not_false_iff, true_and]
    intro other
    omega
  | keyed =>
    rw [commitMatch_keyed hmode] at h ⊢
    split_ifs at h ⊢ with hfresh
    simp only [IsConsumed, hmode, hfresh]
    refine ⟨by simp, fun other => ?_⟩
    have hlt := (List.getElem?_eq_some_iff.1 hfresh).1
    rw [List.getElem?_set]
    split_ifs with heq
    · simp [heq]
    · simp [Ne.symm heq]

/-- **Taking a match is looking at it and committing it.** -/
theorem nextMatch_eq (engine : ReplayMatchEngine) (observedHash : String)
    (observedCanonical : Json) :
    engine.nextMatch observedHash observedCanonical =
      (engine.peekMatch observedHash observedCanonical,
        match engine.peekMatch observedHash observedCanonical with
        | .matched idx _ => (engine.commitMatch idx).2
        | .mismatch _ => engine) := by
  cases hcandidate : engine.candidate observedHash observedCanonical with
  | error diagnostic =>
    rw [peekMatch_of_error hcandidate]
    unfold candidate at hcandidate
    unfold nextMatch
    cases hmode : engine.mode with
    | sequentialStrict =>
      simp only [hmode] at hcandidate
      simp [sequentialMatch, hcandidate]
    | keyed =>
      simp only [hmode] at hcandidate
      simp [keyedMatch, hcandidate]
  | ok idx =>
    obtain ⟨i, hi, -, hpeek⟩ := peekMatch_of_candidate hcandidate
    have hcommit := commitMatch_of_candidate hcandidate
    rw [hpeek]
    unfold candidate at hcandidate
    unfold nextMatch
    cases hmode : engine.mode with
    | sequentialStrict =>
      simp only [hmode] at hcandidate
      rw [commitMatch_sequential hmode] at hcommit
      obtain ⟨hcursor, hlt⟩ : engine.sequentialCursor = idx ∧ idx < engine.interactions.length := by
        by_contra hne
        simp [hne] at hcommit
      simp [sequentialMatch, hcandidate, hi, commitMatch_sequential hmode, hcursor, hlt]
    | keyed =>
      simp only [hmode] at hcandidate
      rw [commitMatch_keyed hmode] at hcommit
      have hfresh : engine.consumed[idx]? = some false := by
        by_contra hne
        simp [hne] at hcommit
      simp [keyedMatch, hcandidate, matchedAt, hi, commitMatch_keyed hmode, hfresh]

/-- What was committed cannot be committed again. -/
theorem commitMatch_twice {idx : ℕ} (h : (engine.commitMatch idx).1 = true) :
    (engine.commitMatch idx).2.commitMatch idx = (false, (engine.commitMatch idx).2) := by
  have hconsumed := ((isConsumed_commitMatch h).2 idx).2 (Or.inl rfl)
  have hfalse : ((engine.commitMatch idx).2.commitMatch idx).1 = false := by
    by_contra hagain
    rw [Bool.not_eq_false] at hagain
    exact (isConsumed_commitMatch hagain).1 hconsumed
  exact Prod.ext hfalse (commitMatch_of_false hfalse)

/-- **Looking and committing is taking.**  A look shows what taking would give.  If that is a match,
committing it succeeds, leaves the engine as taking would have left it, and cannot be repeated; if
it is not, taking changes nothing either. -/
theorem peekMatch_commitMatch (engine : ReplayMatchEngine) (observedHash : String)
    (observedCanonical : Json) :
    (engine.nextMatch observedHash observedCanonical).1 =
        engine.peekMatch observedHash observedCanonical ∧
      (∀ interactionId interaction,
        engine.peekMatch observedHash observedCanonical = .matched interactionId interaction →
        engine.commitMatch interactionId =
            (true, (engine.nextMatch observedHash observedCanonical).2) ∧
          (engine.nextMatch observedHash observedCanonical).2.commitMatch interactionId =
            (false, (engine.nextMatch observedHash observedCanonical).2)) ∧
      ∀ diagnostic, engine.peekMatch observedHash observedCanonical = .mismatch diagnostic →
        (engine.nextMatch observedHash observedCanonical).2 = engine := by
  rw [nextMatch_eq]
  refine ⟨rfl, fun interactionId interaction hpeek => ?_, fun diagnostic hpeek => ?_⟩
  · have hcommit := commitMatch_of_candidate (matched_of_peekMatch hpeek).1
    simp only [hpeek]
    exact ⟨Prod.ext hcommit rfl, commitMatch_twice hcommit⟩
  · simp only [hpeek]

end ReplayMatchEngine

/-- A cassette of empty exchanges with the hashes. -/
def Cassette.ofHashes (hashes : List String) : Cassette where
  formatVersion := supportedFormatVersion
  interactions := hashes.map fun hash =>
    { request :=
        { method := "POST", path := "/v1/chat/completions", query := "", headers := []
          body := [], parsedJson := none, canonicalRequest := none, stableHash := some hash }
      response := .nonStream 200 [] [] none
      metadata :=
        { protocolId := "openai_chat", upstreamId := "openai"
          recordedAt := "2025-01-01T00:00:00Z", relativeOffsetMs := 0 } }

/-- A call to the engine. -/
inductive Call where
  /-- `next_match`. -/
  | next (observedHash : String) (observedCanonical : Json)
  /-- `peek_match`. -/
  | peek (observedHash : String) (observedCanonical : Json)
  /-- `commit_match`. -/
  | commit (interactionId : ℕ)

/-- An engine, and the interactions that it has shown for which hashes. -/
structure Client where
  engine : ReplayMatchEngine
  shown : List (ℕ × String)

namespace Client

/-- The client of a new engine. -/
def new (engine : ReplayMatchEngine) : Client := ⟨engine, []⟩

variable (client : Client)

/-- A call. -/
def step : Call → Client
  | .next observedHash observedCanonical =>
    { client with engine := (client.engine.nextMatch observedHash observedCanonical).2 }
  | .peek observedHash observedCanonical =>
    match client.engine.peekMatch observedHash observedCanonical with
    | .matched interactionId _ =>
      { client with shown := (interactionId, observedHash) :: client.shown }
    | .mismatch _ => client
  | .commit interactionId => { client with engine := (client.engine.commitMatch interactionId).2 }

/-- The interaction that a call consumes, with the hash it was asked or shown for. -/
def consumes : Call → Option (ℕ × Option String)
  | .next observedHash observedCanonical =>
    match (client.engine.nextMatch observedHash observedCanonical).1 with
    | .matched interactionId _ => some (interactionId, some observedHash)
    | .mismatch _ => none
  | .peek _ _ => none
  | .commit interactionId =>
    if (client.engine.commitMatch interactionId).1 then
      some (interactionId, client.shown.lookup interactionId)
    else none

/-- The hash of a call that asks for an interaction to consume: a commit asks for the one that it
was shown, unless another call has consumed that one already. -/
def requestedHash : Call → Option String
  | .next observedHash _ => some observedHash
  | .peek _ _ => none
  | .commit interactionId =>
    if (client.engine.commitMatch interactionId).1 then client.shown.lookup interactionId
    else none

/-- A commit is of an interaction that was shown. -/
def CommitsShown : Call → Prop
  | .commit interactionId => ∃ observedHash, (interactionId, observedHash) ∈ client.shown
  | _ => True

/-- What the calls consume, in order. -/
def consumed (calls : List Call) : List (ℕ × Option String) :=
  Runs.collect step (fun client call => (client.consumes call).toList) client calls

/-- How many of the calls ask for an interaction with the hash to consume. -/
def requests (calls : List Call) (hash : String) : ℕ :=
  (Runs.collect step (fun client call => (client.requestedHash call).toList) client calls).count
    hash

variable {client}

/-- What a call consumes it has committed. -/
theorem commitMatch_of_consumes {call : Call} {idx : ℕ} {observed : Option String}
    (h : client.consumes call = some (idx, observed)) :
    (client.engine.commitMatch idx).1 = true := by
  cases call with
  | next observedHash observedCanonical =>
    simp only [consumes, ReplayMatchEngine.nextMatch_eq] at h
    cases hpeek : client.engine.peekMatch observedHash observedCanonical with
    | mismatch diagnostic => simp [hpeek] at h
    | matched found i =>
      obtain ⟨rfl, -⟩ : found = idx ∧ some observedHash = observed := by simpa [hpeek] using h
      exact ReplayMatchEngine.commitMatch_of_candidate
        (ReplayMatchEngine.matched_of_peekMatch hpeek).1
  | peek observedHash observedCanonical => cases h
  | commit interactionId =>
    simp only [consumes] at h
    split_ifs at h with hcommit
    cases h
    exact hcommit

/-- **A call changes the engine as far as it consumes an interaction.** -/
theorem step_engine (client : Client) (call : Call) :
    (client.step call).engine =
      match client.consumes call with
      | some (idx, _) => (client.engine.commitMatch idx).2
      | none => client.engine := by
  cases call with
  | next observedHash observedCanonical =>
    simp only [step, consumes, ReplayMatchEngine.nextMatch_eq]
    cases client.engine.peekMatch observedHash observedCanonical <;> rfl
  | peek observedHash observedCanonical =>
    simp only [step, consumes]
    cases client.engine.peekMatch observedHash observedCanonical <;> rfl
  | commit interactionId =>
    simp only [step, consumes]
    cases hcommit : (client.engine.commitMatch interactionId).1 with
    | true => rfl
    | false => exact ReplayMatchEngine.commitMatch_of_false hcommit

@[simp] theorem consumed_nil : client.consumed [] = [] := rfl

theorem consumed_concat (calls : List Call) (call : Call) :
    client.consumed (calls ++ [call]) =
      client.consumed calls ++ ((Runs.run step client calls).consumes call).toList :=
  Runs.collect_concat

@[simp] theorem requests_nil (hash : String) : client.requests [] hash = 0 := rfl

/-- One more request is counted under its hash. -/
theorem requests_concat (calls : List Call) (call : Call) :
    client.requests (calls ++ [call]) =
      match (Runs.run step client calls).requestedHash call with
      | none => client.requests calls
      | some hash =>
        Function.update (client.requests calls) hash (client.requests calls hash + 1) := by
  funext hash
  unfold requests
  rw [Runs.collect_concat, List.count_append]
  cases (Runs.run step client calls).requestedHash call with
  | none => simp
  | some asked =>
    by_cases h : hash = asked
    · subst h; simp
    · simp [Function.update_of_ne h, Ne.symm h]

end Client

end SpycatcherHarness
