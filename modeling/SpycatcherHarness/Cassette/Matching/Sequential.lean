import SpycatcherHarness.Cassette.Matching.Calls

/-!
# Sequential matching

In sequential mode the engine is a cursor into the cassette.  Whatever the calls, it has passed as
many interactions as they have consumed, in recorded order; a request is served where its hash is
the recorded one at the cursor, and otherwise told what was expected there.

* `ReplayMatchEngine.Sequential.sequentialCandidate_eq` : a candidate is the cursor.
* `ReplayMatchEngine.Sequential.After.concat` : a call takes a run further.
* `ReplayMatchEngine.Sequential.sequential_closed_form` : the law of sequential matching.
-/

namespace SpycatcherHarness

namespace Diff

/-- The summary of a mismatch never tells of an internal error. -/
theorem canonicalDiffSummary_ne (expected observed : Json) :
    canonicalDiffSummary expected observed ≠ "internal error: cassette interaction missing" := by
  intro heq
  rcases labelled_canonicalDiffSummary expected observed with h | ⟨label, hlabel, rest, h⟩
  · rw [h] at heq
    simp at heq
  · -- a label starts with another letter
    rw [heq] at h
    have hchars := congrArg String.toList h
    simp only [List.mem_cons, List.not_mem_nil, or_false] at hlabel
    rcases hlabel with rfl | rfl | rfl <;> simp at hchars

end Diff

namespace ReplayMatchEngine

namespace Sequential

variable {cassette : Cassette} {engine : ReplayMatchEngine} {client start : Client}
  {calls : List Call}

/-- The recorded hash at a position. -/
def recordedHash (cassette : Cassette) (idx : ℕ) : Option String :=
  cassette.interactions[idx]?.bind fun i => i.request.stableHash

/-- What a request is told that the engine has no match for. -/
structure Reports (cassette : Cassette) (cursor : ℕ) (hash : String)
    (diagnostic : MismatchDiagnostic) : Prop where
  observed : diagnostic.observedHash = hash
  position : diagnostic.position =
    if cursor = cassette.interactions.length then .exhausted cassette.interactions.length
    else .expected cursor
  expected : if cursor = cassette.interactions.length then diagnostic.expectedHash = ""
    else recordedHash cassette cursor = some diagnostic.expectedHash
  summary : diagnostic.diffSummary ≠ "internal error: cassette interaction missing"

/-- The client's engine is a cursor into the cassette, and it has shown interactions for their own
hashes. -/
structure Inv (cassette : Cassette) (client : Client) : Prop where
  cassette_eq : client.engine.cassette = cassette
  mode_eq : client.engine.mode = .sequentialStrict
  cursor_le : client.engine.sequentialCursor ≤ cassette.interactions.length
  shown : ∀ {idx hash}, (idx, hash) ∈ client.shown → recordedHash cassette idx = some hash

theorem candidate_eq (inv : Inv cassette client) (hash : String) (canonical : Json) :
    client.engine.candidate hash canonical = client.engine.sequentialCandidate hash canonical := by
  simp [candidate, inv.mode_eq]

/-- The engine's request data at the cursor has the hash that is recorded there. -/
theorem getElem?_cursor (inv : Inv cassette client) :
    client.engine.interactions[client.engine.sequentialCursor]?.map (·.stableHash) =
      recordedHash cassette client.engine.sequentialCursor := by
  have hhash := client.engine.getElem?_stableHash client.engine.sequentialCursor
  rw [inv.cassette_eq] at hhash
  exact hhash

/-- A candidate stands at the cursor. -/
theorem eq_cursor_of_candidate (inv : Inv cassette client) {hash : String} {canonical : Json}
    {idx : ℕ} (h : client.engine.candidate hash canonical = .ok idx) :
    idx = client.engine.sequentialCursor := by
  rw [candidate_eq inv, sequentialCandidate] at h
  split at h
  · cases h
  · split_ifs at h
    exact (Except.ok.inj h).symm

/-- Where there is no candidate, another hash is recorded at the cursor, or none, and the report
says so. -/
theorem reports_of_candidate (inv : Inv cassette client) {hash : String} {canonical : Json}
    {diagnostic : MismatchDiagnostic}
    (h : client.engine.candidate hash canonical = .error diagnostic) :
    recordedHash cassette client.engine.sequentialCursor ≠ some hash ∧
      Reports cassette client.engine.sequentialCursor hash diagnostic := by
  have hle := inv.cursor_le
  have hlength := client.engine.length_interactions
  rw [inv.cassette_eq] at hlength
  rw [candidate_eq inv, sequentialCandidate] at h
  rw [← getElem?_cursor inv]
  split at h
  · rename_i hnone
    have hend : client.engine.sequentialCursor = cassette.interactions.length := by
      have := List.getElem?_eq_none_iff.1 hnone
      omega
    obtain rfl := Except.error.inj h
    exact ⟨by simp [hnone], rfl, by simp [hend], by simp [hend], by simp [diagnosticExhausted]⟩
  · rename_i d hd
    split_ifs at h with hne
    have hlt : client.engine.sequentialCursor ≠ cassette.interactions.length := by
      have := (List.getElem?_eq_some_iff.1 hd).1
      omega
    obtain rfl := Except.error.inj h
    refine ⟨by simpa [hd] using Ne.symm hne, rfl, by simp [hlt], ?_, ?_⟩
    · simp [hlt, ← getElem?_cursor inv, hd]
    · cases d.canonicalRequest with
      | none => simp
      | some canonical => exact Diff.canonicalDiffSummary_ne _ _

/-- **What a request is told**: the interaction at the cursor when it has the hash that is recorded
there, and otherwise what was expected. -/
theorem peekMatch_spec (inv : Inv cassette client) (hash : String) (canonical : Json) :
    (∃ i, recordedHash cassette client.engine.sequentialCursor = some hash ∧
      cassette.interactions[client.engine.sequentialCursor]? = some i ∧
      client.engine.peekMatch hash canonical = .matched client.engine.sequentialCursor i) ∨
    (recordedHash cassette client.engine.sequentialCursor ≠ some hash ∧ ∃ diagnostic,
      client.engine.peekMatch hash canonical = .mismatch diagnostic ∧
      Reports cassette client.engine.sequentialCursor hash diagnostic) := by
  cases hcandidate : client.engine.candidate hash canonical with
  | ok idx =>
    obtain rfl := eq_cursor_of_candidate inv hcandidate
    obtain ⟨i, hi, hihash, hpeek⟩ := peekMatch_of_candidate hcandidate
    rw [inv.cassette_eq] at hi
    exact .inl ⟨i, by simp [recordedHash, hi, hihash], hi, hpeek⟩
  | error diagnostic =>
    obtain ⟨hne, hreports⟩ := reports_of_candidate inv hcandidate
    exact .inr ⟨hne, diagnostic, peekMatch_of_error hcandidate, hreports⟩

/-- What a call consumes is the interaction at the cursor, under its recorded hash unless a commit
was made without looking. -/
theorem of_consumes (inv : Inv cassette client) {call : Call} {idx : ℕ}
    {observed : Option String} (h : client.consumes call = some (idx, observed)) :
    idx = client.engine.sequentialCursor ∧ idx < cassette.interactions.length ∧
      (∀ hash, observed = some hash → recordedHash cassette idx = some hash) ∧
      (client.engine.commitMatch idx).2 =
        { client.engine with sequentialCursor := client.engine.sequentialCursor + 1 } := by
  have hcommit := Client.commitMatch_of_consumes h
  have hlength := client.engine.length_interactions
  rw [inv.cassette_eq] at hlength
  rw [commitMatch_sequential inv.mode_eq, hlength] at hcommit ⊢
  split_ifs at hcommit ⊢ with hnext
  refine ⟨hnext.1.symm, hnext.2, ?_, rfl⟩
  rintro hash rfl
  cases call with
  | next asked canonical =>
    simp only [Client.consumes, nextMatch_eq] at h
    rcases peekMatch_spec inv asked canonical with ⟨i, hhash, -, hpeek⟩ | ⟨-, d, hpeek, -⟩
    · rw [hpeek] at h
      cases h
      exact hhash
    · rw [hpeek] at h
      cases h
  | peek asked canonical => cases h
  | commit interactionId =>
    simp only [Client.consumes] at h
    split_ifs at h
    obtain ⟨rfl, hlookup⟩ := Prod.mk.inj (Option.some.inj h)
    obtain ⟨before, after, heq, -⟩ := List.lookup_eq_some_iff.1 hlookup
    exact inv.shown (by simp [heq])

/-- The cursor moves by what a call consumes. -/
theorem step_cursor (inv : Inv cassette client) (call : Call) :
    (client.step call).engine =
      { client.engine with
        sequentialCursor :=
          client.engine.sequentialCursor + (client.consumes call).toList.length } := by
  rw [Client.step_engine]
  cases hconsumes : client.consumes call with
  | none => rfl
  | some c =>
    obtain ⟨-, -, -, hcommit⟩ := of_consumes inv (hconsumes.trans rfl)
    simpa using hcommit

theorem Inv.step (inv : Inv cassette client) (call : Call) :
    Inv cassette (client.step call) := by
  have hengine := step_cursor inv call
  refine ⟨?_, ?_, ?_, ?_⟩
  · rw [hengine]
    exact inv.cassette_eq
  · rw [hengine]
    exact inv.mode_eq
  · rw [hengine]
    have hle := inv.cursor_le
    cases hconsumes : client.consumes call with
    | none => simpa using hle
    | some c =>
      obtain ⟨hidx, hlt, -⟩ := of_consumes inv (hconsumes.trans rfl)
      simp only [Option.toList_some, List.length_singleton]
      omega
  · intro idx hash hmem
    cases call with
    | next asked canonical => exact inv.shown hmem
    | commit interactionId => exact inv.shown hmem
    | peek asked canonical =>
      simp only [Client.step] at hmem
      rcases peekMatch_spec inv asked canonical with ⟨i, hhash, -, hpeek⟩ | ⟨-, d, hpeek, -⟩
      · rw [hpeek] at hmem
        rcases List.mem_cons.1 hmem with heq | hmem
        · obtain ⟨rfl, rfl⟩ := Prod.mk.inj heq
          exact hhash
        · exact inv.shown hmem
      · rw [hpeek] at hmem
        exact inv.shown hmem

/-! ### Runs -/

/-- A run has consumed the interactions before the cursor. -/
structure After (cassette : Cassette) (start : Client) (calls : List Call) : Prop where
  inv : Inv cassette (Runs.run Client.step start calls)
  consumed : (start.consumed calls).map Prod.fst =
    List.range (Runs.run Client.step start calls).engine.sequentialCursor
  observed : ∀ {idx hash}, (idx, some hash) ∈ start.consumed calls →
    recordedHash cassette idx = some hash

/-- **A call takes a run further.** -/
theorem After.concat (h : After cassette start calls) (call : Call) :
    After cassette start (calls ++ [call]) := by
  refine ⟨?_, ?_, ?_⟩
  · rw [Runs.run_concat]
    exact h.inv.step call
  · rw [Client.consumed_concat, Runs.run_concat, step_cursor h.inv, List.map_append, h.consumed]
    cases hconsumes : (Runs.run Client.step start calls).consumes call with
    | none => simp
    | some c =>
      obtain ⟨hidx, -⟩ := of_consumes h.inv (hconsumes.trans rfl)
      simp [List.range_succ, hidx]
  · intro idx hash hmem
    rw [Client.consumed_concat, List.mem_append, Option.mem_toList] at hmem
    rcases hmem with hmem | hmem
    · exact h.observed hmem
    · exact (of_consumes h.inv hmem).2.2.1 hash rfl

/-- Every run has consumed the interactions before its cursor. -/
theorem after_run (h : new cassette .sequentialStrict = .ok engine) (calls : List Call) :
    After cassette (Client.new engine) calls := by
  induction calls using List.reverseRecOn with
  | nil =>
    obtain ⟨hcassette, hmode, hcursor⟩ := new_frame h
    refine ⟨⟨hcassette, hmode, ?_, by simp [Client.new]⟩, ?_, by simp⟩
    · simp [Client.new, hcursor]
    · simp [Client.new, hcursor]
  | append_singleton calls call ih => exact ih.concat call

/-- The hashes under which a run has consumed are the first recorded ones. -/
theorem After.observed_prefix (h : After cassette start calls)
    (hlooked : ∀ c ∈ start.consumed calls, c.2.isSome) :
    (start.consumed calls).map Prod.snd <+:
      cassette.interactions.map fun i => i.request.stableHash := by
  have hlength : (start.consumed calls).length =
      (Runs.run Client.step start calls).engine.sequentialCursor := by
    simpa using congrArg List.length h.consumed
  have hle := h.inv.cursor_le
  rw [List.prefix_iff_eq_take]
  refine List.ext_getElem (by simp; omega) fun idx hidx hidx' => ?_
  have hlt : idx < (start.consumed calls).length := by simpa using hidx
  -- the interaction consumed at an index is the one recorded there
  have hfst : (start.consumed calls)[idx].1 = idx := by
    have := congrArg (fun ids => ids[idx]?) h.consumed
    simpa [hlt, hlength ▸ hlt] using this
  obtain ⟨hash, hhash⟩ := Option.isSome_iff_exists.1 (hlooked _ (List.getElem_mem hlt))
  have hmem : (idx, some hash) ∈ start.consumed calls := by
    rw [← hhash]
    nth_rewrite 1 [← hfst]
    exact List.getElem_mem hlt
  have hrecorded := h.observed hmem
  rw [recordedHash, List.getElem?_eq_getElem (by omega)] at hrecorded
  simp only [List.getElem_map, List.getElem_take, hhash]
  exact hrecorded.symm

/-- The law of sequential matching: what a client sees after a list of calls. -/
structure Law (cassette : Cassette) (start : Client) (calls : List Call) : Prop where
  cursor_le : (Runs.run Client.step start calls).engine.sequentialCursor ≤
    cassette.interactions.length
  /-- The consumed interactions are those before the cursor, in order, -/
  consumed : (start.consumed calls).map Prod.fst =
    List.range (Runs.run Client.step start calls).engine.sequentialCursor
  /-- under their recorded hashes, unless committed without looking. -/
  observed : ∀ {idx hash}, (idx, some hash) ∈ start.consumed calls →
    recordedHash cassette idx = some hash
  observed_prefix : (∀ c ∈ start.consumed calls, c.2.isSome) →
    (start.consumed calls).map Prod.snd <+:
      cassette.interactions.map fun i => i.request.stableHash
  /-- A request with the next recorded hash is served with the next interaction, -/
  served : ∀ {hash i} (canonical : Json),
    cassette.interactions[(Runs.run Client.step start calls).engine.sequentialCursor]? = some i →
    i.request.stableHash = some hash →
    ((Runs.run Client.step start calls).engine.nextMatch hash canonical).1 =
      .matched (Runs.run Client.step start calls).engine.sequentialCursor i
  /-- and any other is told what was expected, which changes nothing. -/
  missed : ∀ {hash} (canonical : Json),
    recordedHash cassette (Runs.run Client.step start calls).engine.sequentialCursor ≠ some hash →
    ∃ diagnostic, (Runs.run Client.step start calls).engine.nextMatch hash canonical =
        (.mismatch diagnostic, (Runs.run Client.step start calls).engine) ∧
      Reports cassette (Runs.run Client.step start calls).engine.sequentialCursor hash diagnostic
  /-- Looking at a match shows what taking it would give. -/
  peeked : ∀ hash canonical, (Runs.run Client.step start calls).engine.peekMatch hash canonical =
    ((Runs.run Client.step start calls).engine.nextMatch hash canonical).1
  /-- A commit takes the interaction at the cursor, or nothing. -/
  committed : ∀ idx, ((Runs.run Client.step start calls).engine.commitMatch idx).1 = true ↔
    idx = (Runs.run Client.step start calls).engine.sequentialCursor ∧
      idx < cassette.interactions.length
  declined : ∀ {idx}, ((Runs.run Client.step start calls).engine.commitMatch idx).1 = false →
    ((Runs.run Client.step start calls).engine.commitMatch idx).2 =
      (Runs.run Client.step start calls).engine

theorem After.law (h : After cassette start calls) : Law cassette start calls := by
  refine ⟨h.inv.cursor_le, h.consumed, h.observed, h.observed_prefix, ?_, ?_, ?_, ?_,
    commitMatch_of_false⟩
  · intro hash i canonical hi hhash
    rw [nextMatch_eq]
    rcases peekMatch_spec h.inv hash canonical with ⟨j, -, hj, hpeek⟩ | ⟨hne, -⟩
    · rw [hi] at hj
      cases hj
      exact hpeek
    · exact absurd (by simp [recordedHash, hi, hhash]) hne
  · intro hash canonical hne
    rcases peekMatch_spec h.inv hash canonical with ⟨-, heq, -⟩ | ⟨-, d, hpeek, hreports⟩
    · exact absurd heq hne
    · exact ⟨d, by rw [nextMatch_eq, hpeek], hreports⟩
  · intro hash canonical
    rw [nextMatch_eq]
  · intro idx
    have hlength := (Runs.run Client.step start calls).engine.length_interactions
    rw [h.inv.cassette_eq] at hlength
    rw [commitMatch_sequential h.inv.mode_eq, hlength]
    split_ifs with hnext
    · simp [hnext.1, hnext.2]
    · simp only [false_iff]
      rintro ⟨rfl, hlt⟩
      exact hnext ⟨rfl, hlt⟩

/-- **Sequential matching in closed form.**  An engine can be made of every cassette whose
interactions have hashes, and every run of calls to it has the law. -/
theorem sequential_closed_form (hashed : ∀ i ∈ cassette.interactions, i.request.stableHash.isSome) :
    ∃ engine, new cassette .sequentialStrict = .ok engine ∧ ∀ calls : List Call,
      Law cassette (Client.new engine) calls := by
  obtain ⟨engine, hnew⟩ := exists_new hashed .sequentialStrict
  exact ⟨engine, hnew, fun calls => (after_run hnew calls).law⟩

/-- Two interactions are served in order, the first after it was looked at and the second although
it was asked for too early. -/
theorem sequential_closed_form_two :
    ∃ engine, new (.ofHashes ["hash_a", "hash_b"]) .sequentialStrict = .ok engine ∧
      Law (.ofHashes ["hash_a", "hash_b"]) (Client.new engine)
        [.next "hash_b" .null, .peek "hash_a" .null, .commit 0, .commit 0, .next "hash_b" .null,
          .next "hash_b" .null] := by
  obtain ⟨engine, hnew, hlaw⟩ := @sequential_closed_form
    (.ofHashes ["hash_a", "hash_b"]) (by simp [Cassette.ofHashes])
  exact ⟨engine, hnew, hlaw _⟩

end Sequential

end ReplayMatchEngine

end SpycatcherHarness
