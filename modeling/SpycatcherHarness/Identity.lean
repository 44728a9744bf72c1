import SpycatcherHarness.Fidelity

/-!
# Whose recording answers a request

Replay finds a recording by the hash of the canonical request, in which a body that is not JSON
counts as `null`.  A request is therefore answered from the recording of the same request, with one
exception: a request with the body `null` can be answered from a recording whose body was not JSON.

* `Exchange.Recorded.preimage_eq` : a recording with the hash of a request was hashed over the same
  bytes.
* `answered_same_iff` : exactly when the recording is one of the same request.
* `null_answered_from_garbage` : the exception.
-/

namespace SpycatcherHarness

open Files Store ReplayService

variable {C : RecordConfig}

/-- Two requests that replay may take for one another: the same method up to ASCII case, the same
path, the same decoded query pairs, and bodies that are JSON and the same value up to key order. -/
structure SameRequest (q r : ObservedRequest) : Prop where
  method : toAsciiUppercase q.method = toAsciiUppercase r.method
  path : q.path = r.path
  query : (Query.decodedPairs q.query).Perm (Query.decodedPairs r.query)
  body : ∃ v w, q.parsedJson = some v ∧ r.parsedJson = some w ∧ v.KeyEquiv w

/-- The byte strings that are hashed for a request and for the requests of recorded exchanges. -/
def hashed (q : ObservedRequest) (xs : List (Exchange C)) : Set Bytes :=
  {bytes | ∃ r ∈ q :: xs.map Exchange.request, bytes = preimage (canonicalOf r)}

/-- Equal hashes come from equal bytes, where these do not collide. -/
theorem preimage_eq_of_hash {q : ObservedRequest} {xs : List (Exchange C)}
    (hsha : Set.InjOn C.sha256 (hashed q xs)) {x : Exchange C} (hx : x ∈ xs) {i : Interaction}
    (hi : x.Recorded i) (hhash : i.request.stableHash = some (hashOf C.sha256 q)) :
    preimage (canonicalOf q) = preimage (canonicalOf x.request) := by
  have heq := Hex.encodeHex_injective (Option.some.inj (hhash.symm.trans hi.stableHash_eq))
  refine hsha ⟨q, List.mem_cons_self, rfl⟩ ⟨x.request, ?_, rfl⟩ heq
  exact List.mem_cons_of_mem _ (List.mem_map_of_mem hx)

/-- Requests that are hashed over the same bytes are the same request, unless the body of one is
`null` and that of the other is not JSON. -/
theorem same_iff_of_preimage {q r : ObservedRequest} (hq : C.Observes q) (hr : C.Observes r)
    (hsome : q.parsedJson.isSome)
    (h : preimage (canonicalOf q) = preimage (canonicalOf r)) :
    SameRequest q r ↔ q.parsedJson ≠ some .null ∨ r.parsedJson.isSome := by
  obtain ⟨hmethod, hpath, hquery, hbody⟩ := preimage_canonicalForm
    (q := observedToRecordedRequest q) (r := observedToRecordedRequest r)
    (Exchange.wf_parsedJson hq) (Exchange.wf_parsedJson hr) h
  obtain ⟨v, hv⟩ := Option.isSome_iff_exists.1 hsome
  constructor
  · rintro ⟨-, -, -, _, w, -, hw, -⟩
    exact Or.inr (Option.isSome_of_eq_some hw)
  · intro hcond
    refine ⟨hmethod, hpath, hquery, ?_⟩
    simp only [observedToRecordedRequest, hv, Option.getD_some] at hbody
    -- an absent body is hashed as `null`, which is the only value it can be taken for
    cases hw : r.parsedJson with
    | some w => exact ⟨v, w, hv, rfl, by simpa [hw] using hbody⟩
    | none =>
      rw [hw, Option.getD_none] at hbody
      cases hbody
      simp [hv, hw] at hcond

/-- **Whose recording answers a request.**  A cassette is written by any number of record services,
from exchanges of any kind, and loaded in any match mode.  After any requests, a request that is
answered from the interaction at an index is answered from the recording of the exchange that wrote
it, and that exchange's request is the same as the one that is answered exactly if the body of the
latter is not `null`, or the recorded body was JSON. -/
theorem answered_same_iff (hjson : C.json.Lawful) {fileName : String} {dir : Dir String}
    (hempty : ∀ c, Session.decoded C.json fileName dir = some c → c.interactions = [])
    (es : List (Site.Event C)) {c : Cassette}
    (hreload : Session.decoded C.json fileName
      (Runs.run (Site.step C fileName) (.closed dir) es).dir = some c)
    {mode : MatchMode} {engine : ReplayMatchEngine}
    (hengine : ReplayMatchEngine.new c mode = .ok engine) (asked : List ObservedRequest)
    {q : ObservedRequest} (hq : C.Observes q) {idx : ℕ}
    (hanswer : AnsweredFrom C.sha256 (Runs.run (ReplayService.step C.sha256) (.new engine) asked)
      q idx)
    (hsha : Set.InjOn C.sha256 (hashed q
      (Runs.collect (Site.step C fileName) Site.persisted (.closed dir) es))) :
    ∃ x, (Runs.collect (Site.step C fileName) Site.persisted (.closed dir) es)[idx]? = some x ∧
      (SameRequest q x.request ↔ q.parsedJson ≠ some .null ∨ x.request.parsedJson.isSome) := by
  have hholds : c.Holds (Runs.collect (Site.step C fileName) Site.persisted (.closed dir) es) :=
    (Site.holds_run hjson hempty es).file.decoded c hreload
  obtain ⟨hsome, i, hi, hhash⟩ := hanswer.spec
  rw [(run_frame C.sha256 (.new engine) asked).1] at hi
  obtain ⟨rfl, -, -⟩ := ReplayMatchEngine.new_frame hengine
  obtain ⟨x, hx, hrecorded⟩ := exists_getElem?_of_forall₂ hholds hi
  have hpreimage := preimage_eq_of_hash hsha (List.mem_of_getElem? hx) hrecorded hhash
  exact ⟨x, hx, same_iff_of_preimage hq x.observed hsome hpreimage⟩

/-- Where the same bytes are hashed every time nothing collides. -/
theorem injOn_hashed {q : ObservedRequest} {xs : List (Exchange C)}
    (h : ∀ x ∈ xs, preimage (canonicalOf x.request) = preimage (canonicalOf q)) :
    Set.InjOn C.sha256 (hashed q xs) := by
  have hall : ∀ bytes ∈ hashed q xs, bytes = preimage (canonicalOf q) := by
    rintro bytes ⟨r, hr, hbytes⟩
    rcases List.mem_cons.1 hr with rfl | hr
    · exact hbytes
    · obtain ⟨x, hx, rfl⟩ := List.mem_map.1 hr
      exact hbytes.trans (h x hx)
  exact fun a ha b hb _ => (hall a ha).trans (hall b hb).symm

/-- After a session of one shallow exchange, a request with the hash of the recorded one is answered
from it. -/
theorem answered_first (hjson : C.json.Lawful) (fileName : String) (dir : Dir String)
    (habsent : content dir fileName = none) {x : Exchange C} {i : Interaction}
    (hi : x.attempted = some i) (hfaults : x.faults = .none) (hx : x.Shallow)
    {q : ObservedRequest} (hq : q.parsedJson.isSome)
    (hpreimage : preimage (canonicalOf x.request) = preimage (canonicalOf q))
    (hstream : isStreamingChatCompletionsRequest q.parsedJson =
      isStreamingChatCompletionsRequest x.request.parsedJson) :
    Runs.collect (Site.step C fileName) Site.persisted (.closed dir)
        [.start .none, .exchange x] = [x] ∧
      ∃ c engine, Session.decoded C.json fileName (Runs.run (Site.step C fileName) (.closed dir)
          [.start .none, .exchange x]).dir = some c ∧
        ReplayMatchEngine.new c .sequentialStrict = .ok engine ∧
        AnsweredFrom C.sha256 (.new engine) q 0 := by
  obtain ⟨hpersists, hreopens⟩ := Site.reopens_first hjson fileName dir habsent hi hfaults
  obtain ⟨c, hc, -⟩ := hreopens.2 hx
  have hcollect : Runs.collect (Site.step C fileName) Site.persisted (.closed dir)
      [.start .none, .exchange x] = [x] := by
    simp only [Runs.collect, Site.persisted_of_persists hpersists, List.append_nil]
    rfl
  have hempty : ∀ c, Session.decoded C.json fileName dir = some c → c.interactions = [] := by
    intro c hc
    simp [Session.decoded, habsent] at hc
  have hholds := (Site.holds_run hjson hempty [.start .none, .exchange x]).file.decoded c hc
  rw [hcollect] at hholds
  obtain ⟨engine, hengine⟩ := hholds.exists_new .sequentialStrict
  obtain ⟨rfl, hmode, hcursor⟩ := ReplayMatchEngine.new_frame hengine
  obtain ⟨j, _, hrecorded, ⟨⟩, hone⟩ := List.forall₂_cons_left_iff.1 hholds
  have hnext : (ReplayService.new engine).engine.cassette.interactions[
      (ReplayService.new engine).engine.sequentialCursor]? = some j := by
    rw [ReplayService.new, hcursor, hone]
    rfl
  obtain ⟨hhash, response, hresponse, -⟩ := hrecorded.answer
  rw [hashOf, stableHash, hpreimage] at hhash
  rw [← hstream] at hresponse
  -- the cursor stands at the front, so the answer is built from the first interaction
  obtain ⟨engine', hhandle, -⟩ := handle_sequential hmode rfl hq hnext hhash hresponse
  obtain ⟨-, idx, hanswer⟩ := of_handle_ok (congrArg Prod.fst hhandle)
  obtain ⟨-, k, hk, -⟩ := hanswer.spec
  have hidx : idx < [j].length := hone ▸ (List.getElem?_eq_some_iff.1 hk).1
  obtain rfl : idx = 0 := by simpa using hidx
  exact ⟨hcollect, _, engine, hc, hengine, hanswer⟩

/-- A request with the keys of its body in another order is answered from the recording. -/
theorem answered_same_iff_reordered :
    let C : RecordConfig := ⟨.exact, Sha256.digest, .default⟩
    let v : Json := .object [("model", .string "m"), ("n", .bool true)]
    let w : Json := .object [("n", .bool true), ("model", .string "m")]
    let x : Exchange C :=
      { request := ⟨"post", chatCompletionsPath, "", [], [], SerdeJson.exact.toWriterPretty v,
          some v⟩
        apiKey := some "key"
        send := .ok ⟨200, [], [], SerdeJson.exact.toWriterPretty v, some v⟩
        stream := .error (.io .other)
        metadata := .ok ⟨"chat", "up", "now", 0⟩
        started := 0
        times := []
        faults := .none
        observed := RecordConfig.observes_exact rfl rfl (by decide) (by decide)
        observedResponse := by
          rintro _ ⟨⟩
          exact RecordConfig.observesResponse_exact rfl rfl (by decide) (by decide)
        clockRuns := by rintro _ ⟨⟩ }
    let q : ObservedRequest :=
      ⟨"POST", chatCompletionsPath, "", [], [], SerdeJson.exact.toWriterPretty w, some w⟩
    ∃ c engine, Session.decoded C.json "c.json" (Runs.run (Site.step C "c.json")
        (.closed fun _ => none) [.start .none, .exchange x]).dir = some c ∧
      ReplayMatchEngine.new c .sequentialStrict = .ok engine ∧
      AnsweredFrom C.sha256 (.new engine) q 0 ∧ SameRequest q x.request := by
  intro C v w x q
  have hx : x.Shallow := by
    refine ⟨?_, ?_, fun hstream => absurd hstream (by decide)⟩
    · rintro _ ⟨⟩
      decide
    · rintro - _ ⟨⟩ _ ⟨⟩
      decide
  have hi := x.attempted_buffered rfl rfl rfl rfl
  have hcanonical : canonicalOf x.request = canonicalOf q := by decide +kernel
  have hpreimage := congrArg preimage hcanonical
  obtain ⟨hcollect, c, engine, hc, hengine, hanswer⟩ := answered_first SerdeJson.exact_lawful
    "c.json" (fun _ => none) rfl hi rfl hx (q := q) rfl hpreimage rfl
  have hq : C.Observes q := RecordConfig.observes_exact rfl rfl (by decide) (by decide)
  obtain ⟨y, hy, hsame⟩ := answered_same_iff SerdeJson.exact_lawful
    (fun c hc => by simp [Session.decoded, content] at hc) [.start .none, .exchange x] hc hengine
    [] hq hanswer (by rw [hcollect]; exact injOn_hashed (List.forall_mem_singleton.2 hpreimage))
  rw [hcollect] at hy
  cases hy
  exact ⟨c, engine, hc, hengine, hanswer, hsame.2 (Or.inr rfl)⟩

/-- **A recording whose body was not JSON is served.**  The request is recorded with the body
`garbage` and answered when it is replayed with the body `null`. -/
theorem null_answered_from_garbage :
    let C : RecordConfig := ⟨.exact, Sha256.digest, .default⟩
    let x : Exchange C :=
      { request := ⟨"POST", chatCompletionsPath, "", [], [], Str.asBytes "garbage", none⟩
        apiKey := some "key"
        send := .ok ⟨200, [], [], SerdeJson.exact.toWriterPretty .null, some .null⟩
        stream := .error (.io .other)
        metadata := .ok ⟨"chat", "up", "now", 0⟩
        started := 0
        times := []
        faults := .none
        observed := by decide +kernel
        observedResponse := by
          rintro _ ⟨⟩
          exact RecordConfig.observesResponse_exact rfl rfl (by decide) (by decide)
        clockRuns := by rintro _ ⟨⟩ }
    let q : ObservedRequest :=
      ⟨"POST", chatCompletionsPath, "", [], [], Str.asBytes "null", some .null⟩
    C.Observes q ∧ ∃ c engine, Session.decoded C.json "c.json" (Runs.run (Site.step C "c.json")
        (.closed fun _ => none) [.start .none, .exchange x]).dir = some c ∧
      ReplayMatchEngine.new c .sequentialStrict = .ok engine ∧
      AnsweredFrom C.sha256 (.new engine) q 0 ∧
      Runs.collect (Site.step C "c.json") Site.persisted (.closed fun _ => none)
        [.start .none, .exchange x] = [x] ∧
      Set.InjOn C.sha256 (hashed q [x]) ∧ ¬ SameRequest q x.request := by
  intro C x q
  have hx : x.Shallow := by
    refine ⟨fun v hv => (nomatch hv), ?_, fun hstream => absurd hstream (by decide)⟩
    rintro - _ ⟨⟩ _ ⟨⟩
    decide
  have hi := x.attempted_buffered rfl rfl rfl rfl
  have hpreimage : preimage (canonicalOf x.request) = preimage (canonicalOf q) := rfl
  obtain ⟨hcollect, c, engine, hc, hengine, hanswer⟩ := answered_first SerdeJson.exact_lawful
    "c.json" (fun _ => none) rfl hi rfl hx (q := q) rfl hpreimage rfl
  refine ⟨by decide +kernel, c, engine, hc, hengine, hanswer, hcollect,
    injOn_hashed (List.forall_mem_singleton.2 hpreimage), ?_⟩
  rintro ⟨-, -, -, v, w, -, hw, -⟩
  cases hw

end SpycatcherHarness
