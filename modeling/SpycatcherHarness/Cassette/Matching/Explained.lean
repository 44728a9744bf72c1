import SpycatcherHarness.Cassette.Canonical.Request
import SpycatcherHarness.Cassette.Diff.Changes
import SpycatcherHarness.Cassette.Matching.Calls
import SpycatcherHarness.Crypto.Sha256
import SpycatcherHarness.Json.Crate

/-!
# What a mismatch explains

In sequential mode a mismatch is decided by comparing hashes of written-out requests and explained
by comparing the requests as values.  The text of a number has a sign where the number is a negative
zero, and as values the two zeros are equal.

* `mismatch_explained_iff` : a mismatch is explained exactly if the requests differ in more than the
  signs of zeros.
* `mismatch_unexplained` : two requests that differ in the sign of a zero, and the empty summary.
-/

namespace SpycatcherHarness

open Canonical

/-! ### Filled requests -/

/-- The request's hash and canonical form were filled in by `populate_canonical_fields`. -/
def Filled (sha256 : Bytes → Bytes) (request : RecordedRequest) (hash : String)
    (canonical : Json) : Prop :=
  ∃ source ignoreConfig, (∀ body, source.parsedJson = some body → body.Wf) ∧
    populateCanonicalFields sha256 source ignoreConfig = .ok request ∧
    request.stableHash = some hash ∧ request.canonicalRequest = some canonical

/-- A canonical body has its keys sorted. -/
theorem canonicalizeBody_sorted {body v : Json} {ignoredBodyPaths : List String}
    (h : canonicalizeBody body ignoredBodyPaths = .ok v) : sortJsonValue v = v := by
  obtain ⟨-, canonical, -, rfl⟩ := exists_of_canonicalizeBody h
  exact Json.sortJsonValue_sortJsonValue canonical

/-- The body of a canonical request has distinct keys, which are sorted. -/
theorem canonicalize_body {request : RecordedRequest} {ignoreConfig : IgnorePathConfig}
    {canonical : CanonicalRequest} (hbody : ∀ body, request.parsedJson = some body → body.Wf)
    (h : canonicalize request ignoreConfig = .ok canonical) :
    canonical.Wf ∧
      sortJsonValue (canonical.canonicalBody.getD .null) = canonical.canonicalBody.getD .null := by
  unfold canonicalize at h
  cases hvalid : validateIgnorePaths ignoreConfig with
  | error e => rw [hvalid] at h; cases h
  | ok _ =>
    rw [hvalid] at h
    cases hparsed : request.parsedJson with
    | none =>
      rw [hparsed] at h
      cases h
      exact ⟨fun _ hnone => (by cases hnone), rfl⟩
    | some body =>
      rw [hparsed] at h
      cases hcanonical : canonicalizeBody body ignoreConfig.ignoredBodyPaths with
      | error e => simp only [bind, Except.bind, hcanonical] at h; cases h
      | ok v =>
        simp only [bind, Except.bind, hcanonical] at h
        cases h
        refine ⟨fun w hw => ?_, canonicalizeBody_sorted hcanonical⟩
        obtain rfl := Option.some.inj hw
        exact canonicalizeBody_wf (hbody body hparsed) hcanonical

/-- What was filled in is the value of a canonical request. -/
theorem Filled.exists_canonical {sha256 : Bytes → Bytes} {request : RecordedRequest}
    {hash : String} {canonical : Json} (h : Filled sha256 request hash canonical) :
    ∃ c : CanonicalRequest, canonical = canonicalRequestValue c ∧ c.Wf ∧
      sortJsonValue (c.canonicalBody.getD .null) = c.canonicalBody.getD .null := by
  obtain ⟨source, ignoreConfig, hbody, hfill, -, hcanonical⟩ := h
  obtain ⟨c, hc, rfl⟩ := exists_of_map_eq_ok hfill
  exact ⟨c, (Option.some.inj hcanonical).symm, canonicalize_body hbody hc⟩

/-- Canonical requests are equal as values exactly if they differ at most in the signs of zeros. -/
theorem valueEq_canonicalRequestValue {c d : CanonicalRequest} (hc : c.Wf) (hd : d.Wf)
    (hcsort : sortJsonValue (c.canonicalBody.getD .null) = c.canonicalBody.getD .null)
    (hdsort : sortJsonValue (d.canonicalBody.getD .null) = d.canonicalBody.getD .null) :
    (canonicalRequestValue c).valueEq (canonicalRequestValue d) = true ↔
      (canonicalRequestValue c).unsigned = (canonicalRequestValue d).unsigned := by
  -- a sorted body has its normal form without sorting
  have hnormal : ∀ {v : Json}, sortJsonValue v = v → v.normal = v.unsigned := by
    intro v hv
    rw [Json.normal, ← Json.unsigned_sortJsonValue, hv]
  have hstring : ∀ text, (Json.string text).normal = .string text := fun _ => rfl
  rw [Json.valueEq_iff (canonicalRequestValue_wf hc) (canonicalRequestValue_wf hd)]
  constructor
  · intro h
    rw [canonicalRequestValue, canonicalRequestValue, Json.normal_object, Json.normal_object,
      Json.object.injEq, Json.sorted_eq_iff (by rw [Json.map_fst_normal]; simp)] at h
    have hsub := h.subset
    simp [hstring, hnormal hcsort, hnormal hdsort] at hsub
    simp [canonicalRequestValue, Json.unsigned_object, hsub, Json.unsigned]
  · intro h
    rw [Json.normal, Json.normal, h]

/-! ### Explanations -/

/-- A summary names a place where the values differ: one of its lines is about that place. -/
def Explains (summary : String) (expected observed : Json) : Prop :=
  summary ≠ "" ∧ ∃ place kind, Diff.Differs expected observed place kind ∧
    ∃ before after, summary =
      "\n".intercalate (before ++ Diff.render "" ⟨place, kind⟩ :: after)

/-- A summary explains a difference between two objects exactly if they are not equal. -/
theorem explains_canonicalDiffSummary {es fs : List (String × Json)} (he : (Json.object es).Wf)
    (ho : (Json.object fs).Wf) :
    Explains (Diff.canonicalDiffSummary (.object es) (.object fs)) (.object es) (.object fs) ↔
      (Json.object es).valueEq (.object fs) = false := by
  have hnil := Diff.changes_eq_nil_iff he ho rfl
  have hlines := Diff.diffRecursive_eq (.object es) (.object fs) ""
  constructor
  · rintro ⟨-, place, kind, hdiffers, -⟩
    exact Diff.valueEq_of_differs hdiffers he ho
  · intro hne
    have hchanges : Diff.changes (.object es) (.object fs) ≠ [] := by
      rw [ne_eq, hnil, hne]
      simp
    obtain ⟨change, rest, hcons⟩ := List.exists_cons_of_ne_nil hchanges
    have hmem : change ∈ Diff.changes (.object es) (.object fs) := by
      rw [hcons]
      exact List.mem_cons_self
    have hsummary : Diff.canonicalDiffSummary (.object es) (.object fs) =
        "\n".intercalate (Diff.render "" change :: rest.map (Diff.render "")) := by
      rw [Diff.canonicalDiffSummary, hlines, hcons, List.map_cons]
    exact ⟨mt Diff.canonicalDiffSummary_eq_empty_iff.1 hchanges, change.place, change.kind,
      (Diff.mem_changes he ho (Or.inr rfl)).1 hmem, [], rest.map (Diff.render ""), hsummary⟩

namespace ReplayMatchEngine

/-- A mismatch at a recorded position in sequential mode is summarized from the request recorded
there. -/
theorem diffSummary_of_expected {engine : ReplayMatchEngine} {observedHash : String}
    {observedCanonical expectedCanonical : Json} {i : ℕ} {interaction : Interaction}
    {diagnostic : MismatchDiagnostic} (hmode : engine.mode = .sequentialStrict)
    (hmiss : (engine.nextMatch observedHash observedCanonical).1 = .mismatch diagnostic)
    (hposition : diagnostic.position = .expected i)
    (hi : engine.cassette.interactions[i]? = some interaction)
    (hcanonical : interaction.request.canonicalRequest = some expectedCanonical) :
    diagnostic.diffSummary = Diff.canonicalDiffSummary expectedCanonical observedCanonical := by
  rw [nextMatch_eq] at hmiss
  cases hcandidate : engine.candidate observedHash observedCanonical with
  | ok idx =>
    obtain ⟨j, -, -, hpeek⟩ := peekMatch_of_candidate hcandidate
    rw [hpeek] at hmiss
    cases hmiss
  | error found =>
    rw [peekMatch_of_error hcandidate] at hmiss
    obtain rfl := MatchOutcome.mismatch.inj hmiss
    simp only [candidate, hmode, sequentialCandidate] at hcandidate
    cases hdata : engine.interactions[engine.sequentialCursor]? with
    | none =>
      rw [hdata] at hcandidate
      cases hcandidate
      cases hposition
    | some expected =>
      rw [hdata] at hcandidate
      simp only at hcandidate
      split_ifs at hcandidate
      cases hcandidate
      obtain rfl := InteractionPosition.expected.inj hposition
      obtain ⟨other, hother, -, hof⟩ := interaction_of_data hdata
      obtain rfl := Option.some.inj (hother.symm.trans hi)
      simp [← hof, hcanonical]

/-- A new engine in sequential mode reports a mismatch at the front of its cassette for every other
hash. -/
theorem mismatch_of_new {cassette : Cassette} {engine : ReplayMatchEngine}
    {interaction : Interaction} {hash observedHash : String} (observedCanonical : Json)
    (hnew : new cassette .sequentialStrict = .ok engine)
    (hfront : cassette.interactions[0]? = some interaction)
    (hhash : interaction.request.stableHash = some hash) (hne : observedHash ≠ hash) :
    ∃ diagnostic, (engine.nextMatch observedHash observedCanonical).1 = .mismatch diagnostic ∧
      diagnostic.position = .expected 0 := by
  obtain ⟨rfl, hmode, hcursor⟩ := new_frame hnew
  obtain ⟨data, hdata, hof, -⟩ := exists_getElem?_of_forall₂ engine.parallel hfront
  obtain rfl := Option.some.inj (hhash.symm.trans hof)
  simp only [nextMatch, hmode, sequentialMatch, sequentialCandidate, hcursor, hdata, if_neg hne]
  exact ⟨_, rfl, rfl⟩

end ReplayMatchEngine

/-- Two requests with different hashes meet in a mismatch, when one is recorded and the other is
observed. -/
theorem exists_mismatch {sha256 : Bytes → Bytes} {recorded : RecordedRequest}
    {expectedHash observedHash : String} {expected : Json}
    (hrecorded : Filled sha256 recorded expectedHash expected) (observed : Json)
    (hne : observedHash ≠ expectedHash) :
    ∃ (engine : ReplayMatchEngine) (interaction : Interaction) (diagnostic : MismatchDiagnostic),
      engine.mode = .sequentialStrict ∧ engine.cassette.interactions[0]? = some interaction ∧
      interaction.request = recorded ∧
      (engine.nextMatch observedHash observed).1 = .mismatch diagnostic ∧
      diagnostic.position = .expected 0 := by
  let interaction : Interaction := ⟨recorded, .nonStream 200 [] [] none, ⟨"", "", "", 0⟩⟩
  obtain ⟨-, -, -, -, hhash, -⟩ := hrecorded
  let cassette : Cassette := Cassette.new.append interaction
  have hashed : ∀ i ∈ cassette.interactions, i.request.stableHash.isSome :=
    List.forall_mem_singleton.2 (Option.isSome_of_eq_some hhash)
  have hfront : cassette.interactions[0]? = some interaction := rfl
  obtain ⟨engine, hnew⟩ := ReplayMatchEngine.exists_new hashed .sequentialStrict
  obtain ⟨diagnostic, hmiss, hposition⟩ :=
    ReplayMatchEngine.mismatch_of_new observed hnew hfront hhash hne
  obtain ⟨hcassette, hmode, -⟩ := ReplayMatchEngine.new_frame hnew
  exact ⟨engine, interaction, diagnostic, hmode, hcassette ▸ hfront, rfl, hmiss, hposition⟩

/-- A request with a JSON body of distinct keys can be filled in without ignored paths. -/
theorem filled_default (sha256 : Bytes → Bytes) (request : RecordedRequest)
    (hbody : ∀ body, request.parsedJson = some body → body.Wf) :
    Filled sha256
      { request with
        stableHash := some (stableHash sha256 (canonicalForm request))
        canonicalRequest := some (canonicalRequestValue (canonicalForm request)) }
      (stableHash sha256 (canonicalForm request))
      (canonicalRequestValue (canonicalForm request)) :=
  ⟨request, .default, hbody,
    by rw [populateCanonicalFields, canonicalize_default]; rfl, rfl, rfl⟩

/-- **When a mismatch is explained.**  For requests whose hash and canonical form were filled in, a
mismatch that sequential mode reports between them is explained exactly if their canonical forms
differ in more than the signs of zeros. -/
theorem mismatch_explained_iff {sha256 : Bytes → Bytes} {engine : ReplayMatchEngine} {i : ℕ}
    {interaction : Interaction} {request : RecordedRequest} {expectedHash observedHash : String}
    {expected observed : Json} {diagnostic : MismatchDiagnostic}
    (hmode : engine.mode = .sequentialStrict)
    (hi : engine.cassette.interactions[i]? = some interaction)
    (hrecorded : Filled sha256 interaction.request expectedHash expected)
    (hobserved : Filled sha256 request observedHash observed)
    (hmiss : (engine.nextMatch observedHash observed).1 = .mismatch diagnostic)
    (hposition : diagnostic.position = .expected i) :
    Explains diagnostic.diffSummary expected observed ↔ expected.unsigned ≠ observed.unsigned := by
  obtain ⟨-, -, -, -, -, hcanonical⟩ := id hrecorded
  rw [ReplayMatchEngine.diffSummary_of_expected hmode hmiss hposition hi hcanonical]
  obtain ⟨c, rfl, hc, hcsort⟩ := hrecorded.exists_canonical
  obtain ⟨d, rfl, hd, hdsort⟩ := hobserved.exists_canonical
  rw [ne_eq, ← valueEq_canonicalRequestValue hc hd hcsort hdsort, Bool.not_eq_true]
  exact explains_canonicalDiffSummary (canonicalRequestValue_wf hc) (canonicalRequestValue_wf hd)

/-- A mismatch between a null and a boolean is explained. -/
theorem mismatch_explained_null :
    let request (v : Json) : RecordedRequest := ⟨"POST", "/v1/chat/completions", "", [],
      SerdeJson.exact.toWriterPretty (.object [("x", v)]), some (.object [("x", v)]), none, none⟩
    let canonical (v : Json) : Json := canonicalRequestValue (canonicalForm (request v))
    ∃ (engine : ReplayMatchEngine) (diagnostic : MismatchDiagnostic),
      (engine.nextMatch (stableHash Sha256.digest (canonicalForm (request (.bool true))))
        (canonical (.bool true))).1 = .mismatch diagnostic ∧
      diagnostic.position = .expected 0 ∧
      Explains diagnostic.diffSummary (canonical .null) (canonical (.bool true)) := by
  intro request canonical
  have hnull := filled_default Sha256.digest (request .null) (by rintro _ ⟨⟩; decide)
  have htrue := filled_default Sha256.digest (request (.bool true)) (by rintro _ ⟨⟩; decide)
  have hne : stableHash Sha256.digest (canonicalForm (request (.bool true))) ≠
      stableHash Sha256.digest (canonicalForm (request .null)) := by
    decide +kernel
  obtain ⟨engine, interaction, diagnostic, hmode, hfront, hrequest, hmiss, hposition⟩ :=
    exists_mismatch hnull (canonical (.bool true)) hne
  refine ⟨engine, diagnostic, hmiss, hposition, ?_⟩
  exact (mismatch_explained_iff hmode hfront (hrequest ▸ hnull) htrue hmiss hposition).2
    (by decide +kernel)

/-- A positive zero is recorded and a negative zero is observed: the hashes differ, and the summary
of the mismatch is empty. -/
theorem mismatch_unexplained :
    let zero (negative : Bool) : Json := .number (.float ⟨negative, "0.0", by decide⟩)
    let request (v : Json) : RecordedRequest := ⟨"POST", "/v1/chat/completions", "", [],
      SerdeJson.exact.toWriterPretty (.object [("x", v)]), some (.object [("x", v)]), none, none⟩
    ∃ (engine : ReplayMatchEngine) (interaction : Interaction) (observed : RecordedRequest)
      (expectedHash observedHash : String) (expectedCanonical observedCanonical : Json)
      (diagnostic : MismatchDiagnostic),
      engine.mode = .sequentialStrict ∧ engine.cassette.interactions[0]? = some interaction ∧
      populateCanonicalFields Sha256.digest (request (zero false)) .default =
        .ok interaction.request ∧
      populateCanonicalFields Sha256.digest (request (zero true)) .default = .ok observed ∧
      Filled Sha256.digest interaction.request expectedHash expectedCanonical ∧
      Filled Sha256.digest observed observedHash observedCanonical ∧
      (engine.nextMatch observedHash observedCanonical).1 = .mismatch diagnostic ∧
      diagnostic.position = .expected 0 ∧ diagnostic.diffSummary = "" ∧
      ¬ Explains diagnostic.diffSummary expectedCanonical observedCanonical := by
  intro zero request
  have hplus := filled_default Sha256.digest (request (zero false)) (by rintro _ ⟨⟩; decide)
  have hminus := filled_default Sha256.digest (request (zero true)) (by rintro _ ⟨⟩; decide)
  have hne : stableHash Sha256.digest (canonicalForm (request (zero true))) ≠
      stableHash Sha256.digest (canonicalForm (request (zero false))) := by
    decide +kernel
  obtain ⟨engine, interaction, diagnostic, hmode, hfront, hrequest, hmiss, hposition⟩ :=
    exists_mismatch hplus (canonicalRequestValue (canonicalForm (request (zero true)))) hne
  have hempty : diagnostic.diffSummary = "" := by
    rw [ReplayMatchEngine.diffSummary_of_expected hmode hmiss hposition hfront
      (by rw [hrequest])]
    decide +kernel
  refine ⟨engine, interaction, _, _, _, _, _, diagnostic, hmode, hfront, ?_, ?_,
    hrequest ▸ hplus, hminus, hmiss, hposition, hempty, fun h => h.1 hempty⟩
  · rw [hrequest, populateCanonicalFields, canonicalize_default]
    rfl
  · rw [populateCanonicalFields, canonicalize_default]
    rfl

end SpycatcherHarness
