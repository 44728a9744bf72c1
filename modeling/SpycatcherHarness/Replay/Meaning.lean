import SpycatcherHarness.Cassette.Matching.Calls
import SpycatcherHarness.Replay

/-!
# What replay looks at in a request

A request is looked up by its method, its path, the pairs of its query and the value of its body.
Everything else makes no difference: headers, the spelling of the body and of the query, the order
of object keys and of query pairs, the case of the method.

* `canonicalOf_eq` : requests with the same meaning have the same canonical form.
* `isStreaming_eq` : they ask for a stream alike.
* `handle_same_meaning` : they are told the same, and leave the service in the same state.
-/

namespace SpycatcherHarness

open ReplayService

/-- Two requests mean the same: the method up to ASCII case, the path, the decoded query pairs in
any order, and bodies that are the same value up to key order, or both not JSON. -/
structure SameMeaning (q r : ObservedRequest) : Prop where
  method : toAsciiUppercase q.method = toAsciiUppercase r.method
  path : q.path = r.path
  query : (Query.decodedPairs q.query).Perm (Query.decodedPairs r.query)
  body : Option.Rel Json.KeyEquiv q.parsedJson r.parsedJson

variable {q r : ObservedRequest}

/-- Bodies that mean the same have the same sorted form. -/
theorem SameMeaning.sorted (h : SameMeaning q r) (hq : ∀ v, q.parsedJson = some v → v.Wf) :
    q.parsedJson.map Canonical.sortJsonValue = r.parsedJson.map Canonical.sortJsonValue := by
  have hbody := h.body
  cases hv : q.parsedJson with
  | none =>
    rw [hv] at hbody
    cases hw : r.parsedJson with
    | none => rfl
    | some w => rw [hw] at hbody; cases hbody
  | some v =>
    rw [hv] at hbody
    cases hw : r.parsedJson with
    | none => rw [hw] at hbody; cases hbody
    | some w =>
      rw [hw] at hbody
      cases hbody with
      | some hvw => simp [Canonical.sortJsonValue_eq_of_keyEquiv (hq v hv) w hvw]

/-- **Requests that mean the same have the same canonical form.** -/
theorem canonicalOf_eq (h : SameMeaning q r) (hq : ∀ v, q.parsedJson = some v → v.Wf) :
    canonicalOf q = canonicalOf r := by
  have hsorted := h.sorted hq
  have hquery := Query.canonicalizeQuery_eq_iff.2 h.query
  simp only [canonicalOf, canonicalForm, observedToRecordedRequest, h.method, h.path, hquery,
    hsorted]

/-- A request asks for a stream as its sorted body does. -/
theorem isStreaming_sorted (hq : ∀ v, q.parsedJson = some v → v.Wf) :
    isStreamingChatCompletionsRequest q.parsedJson =
      isStreamingChatCompletionsRequest (q.parsedJson.map Canonical.sortJsonValue) := by
  cases hv : q.parsedJson with
  | none => rfl
  | some v =>
    simp only [isStreamingChatCompletionsRequest, Option.map_some, Option.bind_some,
      Canonical.get_sortJsonValue (hq v hv)]
    cases v.get "stream" <;> simp

theorem isStreaming_eq (h : SameMeaning q r) (hq : ∀ v, q.parsedJson = some v → v.Wf)
    (hr : ∀ v, r.parsedJson = some v → v.Wf) :
    isStreamingChatCompletionsRequest q.parsedJson =
      isStreamingChatCompletionsRequest r.parsedJson := by
  rw [isStreaming_sorted hq, h.sorted hq, ← isStreaming_sorted hr]

/-- **Replay ignores everything that is not meaningful.**  In any state of the service, two requests
that mean the same are told the same, down to the summary of a mismatch, and leave the service in
the same state. -/
theorem handle_same_meaning {C : RecordConfig} (hq : C.Observes q) (hr : C.Observes r)
    (h : SameMeaning q r) (service : ReplayService) :
    service.handleChatCompletions C.sha256 q = service.handleChatCompletions C.sha256 r := by
  have hwf : ∀ {request : ObservedRequest}, C.Observes request →
      ∀ v, request.parsedJson = some v → v.Wf := by
    intro request hobserves v hv
    exact (SerdeJson.within_of_fromSlice (hobserves.symm.trans hv)).1
  have hnone : q.parsedJson.isNone = r.parsedJson.isNone := by
    have hsorted := congrArg Option.isNone (h.sorted (hwf hq))
    simpa using hsorted
  rw [handleChatCompletions_eq, handleChatCompletions_eq, hnone, hashOf, hashOf,
    canonicalOf_eq h (hwf hq), isStreaming_eq h (hwf hq) (hwf hr)]

/-- A request is told the same when its query, its body and its method are spelled in another way
and it comes with other headers. -/
theorem handle_same_meaning_respelled :
    let service : ReplayService := .new
      { cassette := .ofHashes [""], interactions := [⟨"", none⟩], mode := .sequentialStrict
        sequentialCursor := 0, hashToIndices := fun _ => none, consumed := [false]
        parallel := .cons ⟨rfl, rfl⟩ .nil, indexed := rfl }
    let C : RecordConfig := ⟨.exact, Sha256.digest, .default⟩
    let v : Json := .object [("model", .string "m"), ("stream", .bool true)]
    let w : Json := .object [("stream", .bool true), ("model", .string "m")]
    let q : ObservedRequest :=
      ⟨"post", chatCompletionsPath, "b=%2f&a", [("accept", "text/plain")], [],
        SerdeJson.exact.toWriterPretty v, some v⟩
    let r : ObservedRequest :=
      ⟨"POST", chatCompletionsPath, "&%61=&&b=%2F", [], [], SerdeJson.exact.toWriterPretty w,
        some w⟩
    service.handleChatCompletions C.sha256 q = service.handleChatCompletions C.sha256 r := by
  intro service C v w q r
  refine handle_same_meaning (RecordConfig.observes_exact rfl rfl (by decide) (by decide))
    (RecordConfig.observes_exact rfl rfl (by decide) (by decide)) ?_ service
  refine ⟨by decide, rfl, ?_, .some ?_⟩
  · have hb : Query.SpellsSegment "b=%2f" [([0x62], [0x2f])] :=
      @Query.SpellsSegment.pair "b" "%2f" _ _ (by decide) (.plain (by decide) .nil)
        (.escape 0x2f .lower .lower .nil)
    have hb' : Query.SpellsSegment "b=%2F" [([0x62], [0x2f])] :=
      @Query.SpellsSegment.pair "b" "%2F" _ _ (by decide) (.plain (by decide) .nil)
        (.escape 0x2f .upper .upper .nil)
    have ha : Query.SpellsSegment "a" [([0x61], [])] :=
      .bare (by decide) (by decide) (.plain (by decide) .nil)
    have ha' : Query.SpellsSegment "%61=" [([0x61], [])] :=
      @Query.SpellsSegment.pair "%61" "" _ _ (by decide) (.escape 0x61 .lower .lower .nil) .nil
    have hq : Query.SpellsQuery q.query [([0x62], [0x2f]), ([0x61], [])] := by
      refine ⟨[("b=%2f", [([0x62], [0x2f])]), ("a", [([0x61], [])])], by simp, rfl, rfl, ?_⟩
      simp only [List.forall_mem_cons]
      exact ⟨⟨by decide, hb⟩, ⟨by decide, ha⟩, by simp⟩
    have hr : Query.SpellsQuery r.query [([0x61], []), ([0x62], [0x2f])] := by
      refine ⟨[("", []), ("%61=", [([0x61], [])]), ("", []), ("b=%2F", [([0x62], [0x2f])])],
        by simp, rfl, rfl, ?_⟩
      simp only [List.forall_mem_cons]
      exact ⟨⟨by decide, .empty⟩, ⟨by decide, ha'⟩, ⟨by decide, .empty⟩, ⟨by decide, hb'⟩, by simp⟩
    rw [Query.decodedPairs_of_spells hq, Query.decodedPairs_of_spells hr]
    exact .swap _ _ _
  · exact .object (List.Perm.swap _ _ _) (.cons (.bool true) (.cons (.string "m") .nil))

end SpycatcherHarness
