import SpycatcherHarness.Cassette.Diff
import SpycatcherHarness.Cassette.Types

/-!
# The replay matching engine

The engine answers requests from the interactions of a cassette, each at most once: in sequential
mode in recorded order, in keyed mode by the request's hash.  Matching is done in two steps, so
that a match can be looked at before it is consumed: `peekMatch` finds one, `commitMatch` consumes
it.

The engine carries the facts that its parallel tables agree as fields.

* `ReplayMatchEngine.exists_new` : a cassette whose interactions have hashes can be replayed.
* `ReplayMatchEngine.matched_of_peekMatch` : a match has the hash that was asked for.
-/

namespace SpycatcherHarness

/-- `MatchMode`. -/
inductive MatchMode where
  /-- Replay expects requests in recorded order. -/
  | sequentialStrict
  /-- Match by request hash, consuming the next unused interaction. -/
  | keyed
  deriving DecidableEq

/-- Position information carried in a mismatch. -/
inductive InteractionPosition where
  /-- The index of the next expected interaction. -/
  | expected (index : ℕ)
  /-- The cassette is exhausted; the number of its interactions. -/
  | exhausted (index : ℕ)
  /-- No match by hash; the number of interactions. -/
  | keyedMiss (index : ℕ)
  deriving DecidableEq

/-- `MismatchDiagnostic`. -/
structure MismatchDiagnostic where
  position : InteractionPosition
  expectedHash : String
  observedHash : String
  diffSummary : String
  deriving DecidableEq

/-- `DIAGNOSTIC_EXHAUSTED`. -/
def diagnosticExhausted : String := "cassette-exhausted"
/-- `DIAGNOSTIC_NO_MATCH`. -/
def diagnosticNoMatch : String := "no-matching-interaction"
/-- `DIAGNOSTIC_CONSUMED`. -/
def diagnosticConsumed : String := "interaction-already-consumed"

/-- `MismatchDiagnostic::reason_code`. -/
def MismatchDiagnostic.reasonCode (diagnostic : MismatchDiagnostic) : String :=
  match diagnostic.position with
  | .expected _ => "request_hash_mismatch"
  | .exhausted _ => "cassette_exhausted"
  | .keyedMiss _ =>
    if diagnosticConsumed.toList <+: diagnostic.diffSummary.toList then
      "interaction_already_consumed"
    else "no_matching_interaction"

/-- `MatchOutcome`. -/
inductive MatchOutcome where
  | matched (interactionId : ℕ) (interaction : Interaction)
  | mismatch (diagnostic : MismatchDiagnostic)
  deriving DecidableEq

/-- Lists that are related element by element have related elements at every index. -/
theorem exists_getElem?_of_forall₂ {α β : Type*} {R : α → β → Prop} {xs : List α} {ys : List β}
    (h : List.Forall₂ R xs ys) {idx : ℕ} {y : β} (hy : ys[idx]? = some y) :
    ∃ x, xs[idx]? = some x ∧ R x y := by
  obtain ⟨hlength, hget⟩ := List.forall₂_iff_get.1 h
  obtain ⟨hidx, rfl⟩ := List.getElem?_eq_some_iff.1 hy
  exact ⟨_, List.getElem?_eq_getElem (hlength ▸ hidx), hget idx _ hidx⟩

/-- Request data cached for one recorded interaction. -/
structure InteractionData where
  stableHash : String
  canonicalRequest : Option Json
  deriving DecidableEq

namespace InteractionData

/-- The data of the interactions, from an index on, unless one has no hash. -/
def collect (idx : ℕ) : List Interaction → HarnessResult (List InteractionData)
  | [] => .ok []
  | i :: is =>
    match i.request.stableHash with
    | none => .error (.invalidCassette (.unhashed idx))
    | some stableHash =>
      (collect (idx + 1) is).map fun data => ⟨stableHash, i.request.canonicalRequest⟩ :: data

/-- The data is that of the interaction. -/
def Of (data : InteractionData) (i : Interaction) : Prop :=
  i.request.stableHash = some data.stableHash ∧ i.request.canonicalRequest = data.canonicalRequest

theorem of_collect {idx : ℕ} {is : List Interaction} {data : List InteractionData}
    (h : collect idx is = .ok data) : List.Forall₂ Of data is := by
  induction is generalizing idx data with
  | nil => cases h; exact .nil
  | cons i is ih =>
    unfold collect at h
    cases hhash : i.request.stableHash with
    | none => rw [hhash] at h; cases h
    | some stableHash =>
      rw [hhash] at h
      cases hrest : collect (idx + 1) is with
      | error e => simp [hrest, Except.map] at h
      | ok rest =>
        obtain rfl : ⟨stableHash, i.request.canonicalRequest⟩ :: rest = data := by
          simpa [hrest, Except.map] using h
        exact .cons ⟨hhash, rfl⟩ (ih hrest)

/-- Collecting fails only where a hash is missing. -/
theorem exists_collect {is : List Interaction} (h : ∀ i ∈ is, i.request.stableHash.isSome)
    (idx : ℕ) : ∃ data, collect idx is = .ok data := by
  induction is generalizing idx with
  | nil => exact ⟨[], rfl⟩
  | cons i is ih =>
    simp only [List.forall_mem_cons] at h
    obtain ⟨stableHash, hhash⟩ := Option.isSome_iff_exists.1 h.1
    obtain ⟨data, hdata⟩ := ih h.2 (idx + 1)
    exact ⟨⟨stableHash, i.request.canonicalRequest⟩ :: data, by
      simp [collect, hhash, hdata, Except.map]⟩

/-- The positions of each hash, in order. -/
def index (data : List InteractionData) : String → Option (List ℕ) :=
  data.zipIdx.foldl
    (fun map (d, idx) =>
      Function.update map d.stableHash (some ((map d.stableHash).getD [] ++ [idx])))
    fun _ => none

/-- The positions of a hash are those where it stands. -/
theorem index_eq (data : List InteractionData) (hash : String) :
    (index data hash).getD [] =
      (data.zipIdx.filter fun d => d.1.stableHash = hash).map Prod.snd := by
  -- stated for any map, so that the induction can go on from the one that a position has changed
  have hfold : ∀ (ds : List (InteractionData × ℕ)) (map : String → Option (List ℕ)),
      (ds.foldl (fun (map : String → Option (List ℕ)) d => Function.update map d.1.stableHash
        (some ((map d.1.stableHash).getD [] ++ [d.2] : List ℕ))) map hash).getD [] =
      (map hash).getD [] ++ (ds.filter fun d => d.1.stableHash = hash).map Prod.snd := by
    intro ds
    induction ds with
    | nil => simp
    | cons d ds ih =>
      intro map
      rw [List.foldl_cons, ih]
      by_cases hd : d.1.stableHash = hash
      · subst hd; simp
      · simp [hd, Function.update_of_ne (Ne.symm hd)]
  simpa [index] using hfold data.zipIdx fun _ => none

/-- A position of a hash holds data with that hash. -/
theorem of_mem_index {data : List InteractionData} {hash : String} {indices : List ℕ} {idx : ℕ}
    (h : index data hash = some indices) (hidx : idx ∈ indices) :
    ∃ d, data[idx]? = some d ∧ d.stableHash = hash := by
  have heq := index_eq data hash
  rw [h, Option.getD_some] at heq
  rw [heq] at hidx
  obtain ⟨⟨d, j⟩, hmem, rfl⟩ := List.mem_map.1 hidx
  obtain ⟨hmem, hhash⟩ := List.mem_filter.1 hmem
  exact ⟨d, List.mem_zipIdx_iff_getElem?.1 hmem, by simpa using hhash⟩

end InteractionData

/-- `ReplayMatchEngine`. -/
structure ReplayMatchEngine where
  cassette : Cassette
  /-- Request data parallel to the cassette's interactions. -/
  interactions : List InteractionData
  mode : MatchMode
  /-- Index of the next interaction in sequential mode. -/
  sequentialCursor : ℕ
  /-- Recorded positions for each request hash in keyed mode. -/
  hashToIndices : String → Option (List ℕ)
  /-- Which keyed interactions have already been replayed. -/
  consumed : List Bool
  parallel : List.Forall₂ InteractionData.Of interactions cassette.interactions
  indexed : hashToIndices =
    match mode with
    | .sequentialStrict => fun _ => none
    | .keyed => InteractionData.index interactions

namespace ReplayMatchEngine

/-- `ReplayMatchEngine::with_policy`, less the stream policy, which matching does not read. -/
def new (cassette : Cassette) (mode : MatchMode) : HarnessResult ReplayMatchEngine :=
  match h : InteractionData.collect 0 cassette.interactions with
  | .error e => .error e
  | .ok interactions => .ok
    { cassette, interactions, mode
      sequentialCursor := 0
      hashToIndices :=
        match mode with
        | .sequentialStrict => fun _ => none
        | .keyed => InteractionData.index interactions
      consumed := List.replicate interactions.length false
      parallel := InteractionData.of_collect h
      indexed := rfl }

/-- A new engine stands at the front of its cassette. -/
theorem new_frame {cassette : Cassette} {mode : MatchMode} {engine : ReplayMatchEngine}
    (h : new cassette mode = .ok engine) :
    engine.cassette = cassette ∧ engine.mode = mode ∧ engine.sequentialCursor = 0 := by
  unfold new at h
  split at h
  · cases h
  · obtain rfl := Except.ok.inj h
    exact ⟨rfl, rfl, rfl⟩

/-- A cassette whose interactions have hashes can be replayed. -/
theorem exists_new {cassette : Cassette}
    (h : ∀ i ∈ cassette.interactions, i.request.stableHash.isSome) (mode : MatchMode) :
    ∃ engine, new cassette mode = .ok engine := by
  obtain ⟨data, hdata⟩ := InteractionData.exists_collect h 0
  unfold new
  split
  · rename_i e herror
    rw [hdata] at herror
    cases herror
  · exact ⟨_, rfl⟩

/-- Only such a cassette can. -/
theorem hashed_of_new {cassette : Cassette} {mode : MatchMode} {engine : ReplayMatchEngine}
    (h : new cassette mode = .ok engine) :
    ∀ i ∈ cassette.interactions, i.request.stableHash.isSome := by
  intro i hi
  obtain ⟨idx, hidx, rfl⟩ := List.mem_iff_getElem.1 ((new_frame h).1 ▸ hi)
  obtain ⟨hlength, hget⟩ := List.forall₂_iff_get.1 engine.parallel
  exact Option.isSome_iff_exists.2 ⟨_, (hget idx (hlength ▸ hidx) hidx).1⟩

variable (engine : ReplayMatchEngine)

/-- `sequential_candidate`. -/
def sequentialCandidate (observedHash : String) (observedCanonical : Json) :
    Except MismatchDiagnostic ℕ :=
  match engine.interactions[engine.sequentialCursor]? with
  | none => .error
    { position := .exhausted engine.sequentialCursor
      expectedHash := ""
      observedHash
      diffSummary := diagnosticExhausted ++ ": no more interactions available" }
  | some expected =>
    if observedHash = expected.stableHash then .ok engine.sequentialCursor
    else .error
      { position := .expected engine.sequentialCursor
        expectedHash := expected.stableHash
        observedHash
        diffSummary :=
          match expected.canonicalRequest with
          | none => "diff unavailable: expected interaction has no canonical_request"
          | some canonical => Diff.canonicalDiffSummary canonical observedCanonical }

/-- `keyed_candidate`. -/
def keyedCandidate (observedHash : String) : Except MismatchDiagnostic ℕ :=
  match engine.hashToIndices observedHash with
  | none => .error
    { position := .keyedMiss engine.interactions.length
      expectedHash := ""
      observedHash
      diffSummary := diagnosticNoMatch ++ ": no interaction with hash " ++ observedHash ++
        " found in cassette" }
  | some indices =>
    match indices.find? fun idx => engine.consumed[idx]? = some false with
    | some idx => .ok idx
    | none => .error
      { position := .keyedMiss engine.interactions.length
        expectedHash := ""
        observedHash
        diffSummary := diagnosticConsumed ++ ": all interactions with hash " ++ observedHash ++
          " have already been consumed; cassette contains " ++ toString indices.length ++
          " interaction(s) with this hash" }

/-- `matched_at`. -/
def matchedAt (idx : ℕ) (observedHash : String) : MatchOutcome :=
  match engine.cassette.interactions[idx]? with
  | some interaction => .matched idx interaction
  | none => .mismatch
    { position := .expected idx
      expectedHash := (engine.interactions[idx]?.map InteractionData.stableHash).getD ""
      observedHash
      diffSummary := "internal error: cassette interaction missing" }

/-- The candidate in the engine's mode. -/
def candidate (observedHash : String) (observedCanonical : Json) :
    Except MismatchDiagnostic ℕ :=
  match engine.mode with
  | .sequentialStrict => engine.sequentialCandidate observedHash observedCanonical
  | .keyed => engine.keyedCandidate observedHash

/-- `peek_match`. -/
def peekMatch (observedHash : String) (observedCanonical : Json) : MatchOutcome :=
  match engine.candidate observedHash observedCanonical with
  | .ok idx => engine.matchedAt idx observedHash
  | .error diagnostic => .mismatch diagnostic

/-- `commit_match`. -/
def commitMatch (interactionId : ℕ) : Bool × ReplayMatchEngine :=
  match engine.mode with
  | .sequentialStrict =>
    if engine.sequentialCursor = interactionId ∧ engine.interactions[interactionId]?.isSome then
      (true, { engine with sequentialCursor := engine.sequentialCursor + 1 })
    else (false, engine)
  | .keyed =>
    match engine.consumed[interactionId]? with
    | none | some true => (false, engine)
    | some false => (true, { engine with consumed := engine.consumed.set interactionId true })

/-- `sequential_match`. -/
def sequentialMatch (observedHash : String) (observedCanonical : Json) :
    MatchOutcome × ReplayMatchEngine :=
  match engine.sequentialCandidate observedHash observedCanonical with
  | .error diagnostic => (.mismatch diagnostic, engine)
  | .ok idx =>
    match engine.cassette.interactions[idx]? with
    | none => (engine.matchedAt idx observedHash, engine)
    | some interaction =>
      (.matched idx interaction,
        { engine with sequentialCursor := engine.sequentialCursor + 1 })

/-- `keyed_match`. -/
def keyedMatch (observedHash : String) : MatchOutcome × ReplayMatchEngine :=
  match engine.keyedCandidate observedHash with
  | .error diagnostic => (.mismatch diagnostic, engine)
  | .ok idx =>
    let engine := { engine with consumed := engine.consumed.set idx true }
    (engine.matchedAt idx observedHash, engine)

/-- `next_match`. -/
def nextMatch (observedHash : String) (observedCanonical : Json) :
    MatchOutcome × ReplayMatchEngine :=
  match engine.mode with
  | .sequentialStrict => engine.sequentialMatch observedHash observedCanonical
  | .keyed => engine.keyedMatch observedHash

/-! ### What a match says -/

variable {engine} {observedHash : String} {observedCanonical : Json}

theorem of_mem_indices {indices : List ℕ} {idx : ℕ}
    (h : engine.hashToIndices observedHash = some indices) (hidx : idx ∈ indices) :
    ∃ d, engine.interactions[idx]? = some d ∧ d.stableHash = observedHash := by
  rw [engine.indexed] at h
  cases hmode : engine.mode with
  | sequentialStrict => simp [hmode] at h
  | keyed => exact InteractionData.of_mem_index (by simpa [hmode] using h) hidx

/-- A candidate has the observed hash. -/
theorem hash_of_candidate {idx : ℕ}
    (h : engine.candidate observedHash observedCanonical = .ok idx) :
    ∃ d, engine.interactions[idx]? = some d ∧ d.stableHash = observedHash := by
  unfold candidate at h
  cases hmode : engine.mode with
  | sequentialStrict =>
    simp only [hmode, sequentialCandidate] at h
    cases hd : engine.interactions[engine.sequentialCursor]? with
    | none => simp [hd] at h
    | some d =>
      simp only [hd] at h
      split_ifs at h with hhash
      cases h
      exact ⟨d, hd, hhash.symm⟩
  | keyed =>
    simp only [hmode, keyedCandidate] at h
    cases hindices : engine.hashToIndices observedHash with
    | none => simp [hindices] at h
    | some indices =>
      simp only [hindices] at h
      cases hfind : indices.find? fun idx => engine.consumed[idx]? = some false with
      | none => simp [hfind] at h
      | some found =>
        obtain rfl : found = idx := by simpa [hfind] using h
        exact of_mem_indices hindices (List.mem_of_find?_eq_some hfind)

/-- Data with a hash belongs to an interaction with that hash. -/
theorem interaction_of_data {idx : ℕ} {d : InteractionData}
    (h : engine.interactions[idx]? = some d) :
    ∃ i, engine.cassette.interactions[idx]? = some i ∧ d.Of i :=
  exists_getElem?_of_forall₂ engine.parallel.flip h

/-- **A match has the hash that was asked for**, and is the interaction at its position. -/
theorem matched_of_peekMatch {idx : ℕ} {i : Interaction}
    (h : engine.peekMatch observedHash observedCanonical = .matched idx i) :
    engine.candidate observedHash observedCanonical = .ok idx ∧
      engine.cassette.interactions[idx]? = some i ∧
      i.request.stableHash = some observedHash := by
  unfold peekMatch at h
  cases hcandidate : engine.candidate observedHash observedCanonical with
  | error diagnostic => simp [hcandidate] at h
  | ok found =>
    obtain ⟨d, hd, rfl⟩ := hash_of_candidate hcandidate
    obtain ⟨j, hj, hof⟩ := interaction_of_data hd
    simp only [hcandidate, matchedAt, hj] at h
    cases h
    exact ⟨rfl, hj, hof.1⟩

/-- Committing changes neither the cassette nor the mode. -/
theorem commitMatch_frame (engine : ReplayMatchEngine) (idx : ℕ) :
    (engine.commitMatch idx).2.cassette = engine.cassette ∧
      (engine.commitMatch idx).2.mode = engine.mode := by
  unfold commitMatch
  split
  · split_ifs <;> exact ⟨rfl, rfl⟩
  · split <;> exact ⟨rfl, rfl⟩

end ReplayMatchEngine

end SpycatcherHarness
