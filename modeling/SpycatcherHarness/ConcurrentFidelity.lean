import SpycatcherHarness.Fidelity
import SpycatcherHarness.Replay.Decided
import SpycatcherHarness.Server.Concurrent

/-!
# Recorded concurrently, replayed concurrently

The clones of a record service handle requests in any interleaving, and leave a cassette.  The
clones of a replay service that is started on it handle requests in any other interleaving.  In
keyed mode the answers are those of the recorded exchanges: each is given out once at most, to a
request with its hash, and those with one hash are given out in the order in which they were
recorded.

* `Pool.Recorded.fileHolds` : the cassette holds the exchanges in the order of the lock.
* `concurrent_session` : from one interleaving to the other, in keyed mode.
* `concurrent_session_in_order` : the same in sequential mode.
-/

namespace SpycatcherHarness

open Files Store

variable {C : RecordConfig} {fileName : String}

/-! ### What the cassette holds -/

namespace Pool

/-- The exchanges of the requests that appended these entries. -/
def exchanges (s : Pool C) (entries : List (ℕ × Interaction)) : List (Exchange C) :=
  entries.filterMap fun p => (s.tasks p.1).map Task.exchange

theorem forall₂_exchanges {s : Pool C} {entries : List (ℕ × Interaction)}
    (h : ∀ p ∈ entries, ∃ t, s.tasks p.1 = some t ∧ t.exchange.attempted = some p.2) :
    List.Forall₂ (fun x p => x.attempted = some p.2) (s.exchanges entries) entries := by
  induction entries with
  | nil => exact .nil
  | cons p entries ih =>
    rw [List.forall_mem_cons] at h
    obtain ⟨⟨t, ht, hattempted⟩, hrest⟩ := h
    rw [exchanges, List.filterMap_cons_some (b := t.exchange) (by rw [ht, Option.map_some])]
    exact .cons hattempted (ih hrest)

/-- Whatever the file decodes to holds the exchanges in the order in which they took the lock. -/
theorem Recorded.fileHolds (hjson : C.json.Lawful) {r : Recorder}
    (hr : r.Holds fileName ([] : List (Exchange C))) {takers counts : List ℕ}
    {entries : List (ℕ × Interaction)} {s : Pool C}
    (h : Recorded r.dir r.store takers entries counts s) :
    FileHolds fileName (s.exchanges entries) s.dir := by
  have hfile := h.file
  rw [hr.name] at hfile
  split_ifs at hfile with hentries
  · subst hentries
    exact hr.file.congr hfile
  · have hempty : r.store.cassette.interactions = [] := List.forall₂_nil_left_iff.1 hr.memory
    have hforall := forall₂_exchanges h.handed
    have hmemory : s.store.cassette.interactions = entries.map Prod.snd := by
      rw [h.memory]
      simp [hempty]
    refine fileHolds_of_content hjson ?_ ?_ ?_ hfile
    · rw [Cassette.Holds, hmemory, List.forall₂_map_right_iff]
      exact hforall.imp fun x p hx => ⟨p.2, hx, .refl p.2⟩
    · rw [h.memory]
      exact hr.formatVersion
    · rw [hmemory]
      intro i hi
      obtain ⟨p, hp, rfl⟩ := List.mem_map.1 hi
      obtain ⟨t, -, hattempted⟩ := h.handed p hp
      exact (t.exchange.attempted_cases hattempted).wf

end Pool

/-! ### From one interleaving to the other -/

open ReplayService

/-- The cassette that a pool leaves holds the exchanges of the requests that appended. -/
theorem Pool.holds_of_decoded (hjson : C.json.Lawful) {dir : Dir String}
    (hempty : ∀ c, Session.decoded C.json fileName dir = some c → c.interactions = [])
    {faults : Faults} {r : Recorder} (hstart : (Recorder.start C faults dir fileName).2 = .ok r)
    (es : List (Event C)) {c : Cassette}
    (hreload : Session.decoded C.json fileName (Runs.run step (start r.dir r.store) es).dir =
      some c) :
    c.Holds ((Runs.run step (start r.dir r.store) es).exchanges
      (Runs.collect step appended (start r.dir r.store) es)) := by
  have hfile : FileHolds (C := C) fileName [] dir :=
    ⟨fun c hc => by rw [Cassette.Holds, hempty c hc]; exact .nil, fun _ => rfl⟩
  have hrecorder := (Recorder.holds_start hjson hfile faults).1 r hstart
  exact (((recorded_start r.dir r.store).run es).fileHolds hjson hrecorder).decoded c hreload

/-- What was recorded for a request answers every request of its kind that is looked up as it
was. -/
theorem Cassette.Holds.answers {xs : List (Exchange C)} {c : Cassette} (h : c.Holds xs)
    {ds : List Decision} (hkinds : ∀ d ∈ ds, ∀ x ∈ xs,
      hashOf C.sha256 d.request = hashOf C.sha256 x.request →
      isStreamingChatCompletionsRequest d.request.parsedJson =
        isStreamingChatCompletionsRequest x.request.parsedJson) :
    List.Forall₂ (fun x i =>
      i.request.stableHash = some (hashOf C.sha256 (Exchange.request x)) ∧
      ∀ d ∈ ds, hashOf C.sha256 d.request = hashOf C.sha256 (Exchange.request x) →
        ∃ response, responseFromRecorded i.response
          (isStreamingChatCompletionsRequest d.request.parsedJson) = .ok response ∧
          Exchange.Faithful x response) xs c.interactions := by
  refine List.forall₂_iff_get.2 ⟨List.Forall₂.length_eq h, fun i h₁ h₂ => ?_⟩
  obtain ⟨hhash, hresponse⟩ := ((List.forall₂_iff_get.1 h).2 i h₁ h₂).answer
  refine ⟨hhash, fun d hd heq => ?_⟩
  rw [hkinds d hd _ (List.get_mem _ _) heq]
  exact hresponse

/-- The decisions on a new engine are those of requests one after another. -/
theorem ReplayPool.history_of_new {c : Cassette} {mode : MatchMode} {engine : ReplayMatchEngine}
    (hengine : ReplayMatchEngine.new c mode = .ok engine) (sha256 : Bytes → Bytes)
    (es : List Event) :
    ∃ engine', History sha256 engine
      ((Runs.collect (step sha256) decided (start engine) es).map Prod.snd) engine' :=
  ⟨_, ((@replayed_start sha256 engine (ReplayMatchEngine.not_isConsumed_new hengine)).run
    es).history⟩

/-- In keyed mode the requests with one hash are told, one by one, what is held for this hash. -/
theorem Cassette.Holds.told_keyed {xs : List (Exchange C)} {c : Cassette} (h : c.Holds xs)
    {engine : ReplayMatchEngine} (hengine : ReplayMatchEngine.new c .keyed = .ok engine)
    (es : List ReplayPool.Event) :
    let ds := (Runs.collect (ReplayPool.step C.sha256) ReplayPool.decided (.start engine) es).map
      Prod.snd
    (∀ d ∈ ds, ∀ x ∈ xs, hashOf C.sha256 d.request = hashOf C.sha256 x.request →
      isStreamingChatCompletionsRequest d.request.parsedJson =
        isStreamingChatCompletionsRequest x.request.parsedJson) →
    ∀ (hash : String) (k : ℕ) (d : Decision),
      (withHash C.sha256 Decision.request hash ds)[k]? = some d →
      Tells c hash Exchange.Faithful (withHash C.sha256 Exchange.request hash xs)[k]? d.result := by
  intro ds hkinds hash k d hd
  obtain ⟨hcassette, -⟩ := ReplayMatchEngine.new_frame hengine
  obtain ⟨engine', hhistory⟩ := ReplayPool.history_of_new hengine C.sha256 es
  have htells := decided_keyed (h.answers hkinds) (hcassette ▸ hhistory.ok)
    hhistory.answers rfl (ReplayMatchEngine.Keyed.inv_new hengine) hash hd
  rwa [Nat.zero_add] at htells

/-- In sequential mode requests are told what is held, in order. -/
theorem Cassette.Holds.told_in_order {xs : List (Exchange C)} {c : Cassette} (h : c.Holds xs)
    {engine : ReplayMatchEngine} (hengine : ReplayMatchEngine.new c .sequentialStrict = .ok engine)
    (es : List ReplayPool.Event) :
    let ds := (Runs.collect (ReplayPool.step C.sha256) ReplayPool.decided (.start engine) es).map
      Prod.snd
    (∀ d ∈ ds, ∀ x ∈ xs, hashOf C.sha256 d.request = hashOf C.sha256 x.request →
      isStreamingChatCompletionsRequest d.request.parsedJson =
        isStreamingChatCompletionsRequest x.request.parsedJson) →
    ∀ (k : ℕ) (d : Decision), ds[k]? = some d →
      let given := (ds.take k).countP fun d => d.result.isOk
      TellsNext C.sha256 Exchange.request Exchange.Faithful c given d.request xs[given]?
        d.result := by
  intro ds hkinds k d hd given
  obtain ⟨hcassette, hmode, hcursor⟩ := ReplayMatchEngine.new_frame hengine
  obtain ⟨engine', hhistory⟩ := ReplayPool.history_of_new hengine C.sha256 es
  have hinv := (ReplayMatchEngine.Sequential.after_run hengine []).inv
  have htells := decided_sequential (h.answers hkinds) (hcassette ▸ hhistory.ok)
    hhistory.answers rfl hinv hd
  simp only [ReplayService.new, hcursor, Nat.zero_add] at htells
  exact htells

/-- **Recorded concurrently, replayed concurrently.**  Requests on the clones of a record service
that is started on a cassette without interactions interleave in any way, and the cassette can be
loaded.  It holds the exchanges of the requests that appended, in the order of the lock.  Requests
on the clones of a replay service on it interleave in any way, and those with the hash of a recorded
request ask for a stream if it did.  Then, in keyed mode, of the requests with one hash the first
that takes the lock is told what the first exchange with this hash brought, the second what the
second did, and so on; those for which none is left are told so. -/
theorem concurrent_session (hjson : C.json.Lawful) {dir : Dir String}
    (hempty : ∀ c, Session.decoded C.json fileName dir = some c → c.interactions = [])
    {faults : Faults} {r : Recorder} (hstart : (Recorder.start C faults dir fileName).2 = .ok r)
    (es : List (Pool.Event C)) {c : Cassette}
    (hreload : Session.decoded C.json fileName
      (Runs.run Pool.step (Pool.start r.dir r.store) es).dir = some c) :
    let xs := (Runs.run Pool.step (Pool.start r.dir r.store) es).exchanges
      (Runs.collect Pool.step Pool.appended (Pool.start r.dir r.store) es)
    c.Holds xs ∧ ∃ engine, ReplayMatchEngine.new c .keyed = .ok engine ∧
      ∀ es' : List ReplayPool.Event,
        let ds := (Runs.collect (ReplayPool.step C.sha256) ReplayPool.decided
          (.start engine) es').map Prod.snd
        (∀ d ∈ ds, ∀ x ∈ xs, hashOf C.sha256 d.request = hashOf C.sha256 x.request →
          isStreamingChatCompletionsRequest d.request.parsedJson =
            isStreamingChatCompletionsRequest x.request.parsedJson) →
        ∀ (hash : String) (k : ℕ) (d : Decision),
          (withHash C.sha256 Decision.request hash ds)[k]? = some d →
          Tells c hash Exchange.Faithful
            (withHash C.sha256 Exchange.request hash xs)[k]? d.result := by
  intro xs
  have hholds : c.Holds xs := Pool.holds_of_decoded hjson hempty hstart es hreload
  obtain ⟨engine, hengine⟩ := hholds.exists_new .keyed
  exact ⟨hholds, engine, hengine, fun es' => hholds.told_keyed hengine es'⟩

/-- **The same in sequential mode.**  Each request that is decided is told what the exchange brought
that comes after those that have been given out, if it has the hash of that exchange's request, and
otherwise that it was not expected there.  So exchanges are given out in the order in which they
were recorded, none is left out, and none is given out twice. -/
theorem concurrent_session_in_order (hjson : C.json.Lawful) {dir : Dir String}
    (hempty : ∀ c, Session.decoded C.json fileName dir = some c → c.interactions = [])
    {faults : Faults} {r : Recorder} (hstart : (Recorder.start C faults dir fileName).2 = .ok r)
    (es : List (Pool.Event C)) {c : Cassette}
    (hreload : Session.decoded C.json fileName
      (Runs.run Pool.step (Pool.start r.dir r.store) es).dir = some c) :
    let xs := (Runs.run Pool.step (Pool.start r.dir r.store) es).exchanges
      (Runs.collect Pool.step Pool.appended (Pool.start r.dir r.store) es)
    c.Holds xs ∧ ∃ engine, ReplayMatchEngine.new c .sequentialStrict = .ok engine ∧
      ∀ es' : List ReplayPool.Event,
        let ds := (Runs.collect (ReplayPool.step C.sha256) ReplayPool.decided
          (.start engine) es').map Prod.snd
        (∀ d ∈ ds, ∀ x ∈ xs, hashOf C.sha256 d.request = hashOf C.sha256 x.request →
          isStreamingChatCompletionsRequest d.request.parsedJson =
            isStreamingChatCompletionsRequest x.request.parsedJson) →
        ∀ (k : ℕ) (d : Decision), ds[k]? = some d →
          let given := (ds.take k).countP fun d => d.result.isOk
          TellsNext C.sha256 Exchange.request Exchange.Faithful c given d.request xs[given]?
            d.result := by
  intro xs
  have hholds : c.Holds xs := Pool.holds_of_decoded hjson hempty hstart es hreload
  obtain ⟨engine, hengine⟩ := hholds.exists_new .sequentialStrict
  exact ⟨hholds, engine, hengine, fun es' => hholds.told_in_order hengine es'⟩

/-! ### Two requests -/

/-- A buffered exchange in which nothing goes wrong. -/
structure Exchange.Smooth (x : Exchange C) (i : Interaction) : Prop where
  apiKey : x.apiKey.isNone = false
  plain : isStreamingChatCompletionsRequest x.request.parsedJson = false
  send : ∃ response, x.send = .ok response ∧
    C.buildInteraction x.request response x.metadata = .ok i
  faults : x.faults = .none

theorem Exchange.Smooth.attempted {x : Exchange C} {i : Interaction} (h : x.Smooth i) :
    x.attempted = some i := by
  obtain ⟨response, hsend, hbuild⟩ := h.send
  simp [Exchange.attempted, h.apiKey, h.plain, hsend, hbuild, Except.toOption]

namespace Pool

/-- Of two requests that wait for the lock the second takes it first. -/
def swapped (x y : Exchange C) : List (Pool.Event C) :=
  [.arrive 1 x, .arrive 2 y, .respond 1, .respond 2, .spawn 1, .spawn 2, .lock 2, .lock 1,
    .append 2, .lock 1, .append 1]

theorem appended_swapped {x y : Exchange C} {i j : Interaction} (hx : x.Smooth i)
    (hy : y.Smooth j) (dir : Dir String) (store : Store) :
    Runs.collect step appended (start dir store) (swapped x y) = [(2, j), (1, i)] ∧
      (Runs.run step (start dir store) (swapped x y)).exchanges [(2, j), (1, i)] = [y, x] ∧
      content (Runs.run step (start dir store) (swapped x y)).dir store.fileName =
        some (((store.cassette.append j).append i).writeTo C.json) := by
  obtain ⟨response, hsend, hbuild⟩ := hx.send
  obtain ⟨response', hsend', hbuild'⟩ := hy.send
  obtain ⟨ops, happend, -⟩ := append_none C.json dir store j
  obtain ⟨ops', happend', hfile⟩ := append_none C.json (applyAll dir ops)
    { store with cassette := store.cassette.append j } i
  refine ⟨?_, ?_, ?_⟩ <;>
    simp [swapped, Runs.collect, step, start, set, appended, exchanges, Function.update_of_ne,
      hx.apiKey, hx.plain, hx.faults, hy.apiKey, hy.plain, hy.faults, hsend, hbuild, hsend',
      hbuild', happend, happend', hfile]

/-- Both are recorded, and the cassette can be loaded. -/
theorem decoded_swapped (hjson : C.json.Lawful) {x y : Exchange C} {i j : Interaction}
    (hx : x.Smooth i) (hy : y.Smooth j) (hxs : x.Shallow) (hys : y.Shallow) (fileName : String) :
    ∃ r c, (Recorder.start C .none (fun _ => none) fileName).2 = .ok r ∧
      Session.decoded C.json fileName (Runs.run step (start r.dir r.store) (swapped x y)).dir =
        some c ∧
      (Runs.run step (start r.dir r.store) (swapped x y)).exchanges
        (Runs.collect step appended (start r.dir r.store) (swapped x y)) = [y, x] := by
  have habsent : content (fun _ => none) fileName = none := rfl
  obtain ⟨dir, hstart⟩ := Recorder.start_none C habsent
  obtain ⟨hentries, hexchanges, hfile⟩ := appended_swapped hx hy dir ⟨fileName, .new⟩
  have hi := x.attempted_cases hx.attempted
  have hj := y.attempted_cases hy.attempted
  obtain ⟨c, hc, -⟩ := ((Cassette.storable_new.append ⟨hj.wf, hj.depthLe_iff.2 hys⟩).append
    ⟨hi.wf, hi.depthLe_iff.2 hxs⟩).fromReader_writeTo hjson
  refine ⟨⟨dir, ⟨fileName, .new⟩, false, 0, 0⟩, c, by rw [hstart],
    Session.decoded_of_read hfile hc, ?_⟩
  rw [hentries]
  exact hexchanges

end Pool

namespace ReplayPool

/-- A request that has the lock is decided, and gives the lock back. -/
theorem decided_locked (sha256 : Bytes → Bytes) {s : ReplayPool} {id : ℕ}
    {request : ObservedRequest} {lookup : Lookup}
    (ht : s.tasks id = some ⟨request, .locked lookup⟩) :
    let es := List.replicate 4 (Event.advance id)
    let s' := Runs.run (step sha256) s es
    (∃ result consumed, Runs.collect (step sha256) decided s es =
        [(id, ⟨request, result, consumed⟩)]) ∧
      s'.holder = none ∧ s'.poisoned = s.poisoned ∧
        ∀ other, other ≠ id → s'.tasks other = s.tasks other := by
  intro es s'
  cases hpeek : s.engine.peekMatch lookup.observedHash lookup.canonicalRequest with
  | mismatch diagnostic =>
    refine ⟨?_, ?_⟩ <;>
      simp +contextual [es, s', List.replicate, Runs.run, Runs.collect, step, set, advance, ht,
        hpeek, decided, Function.update_of_ne]
  | matched idx i =>
    cases hresponse : responseFromRecorded i.response lookup.isStreamRequest with
    | error e =>
      cases e <;> refine ⟨?_, ?_⟩ <;>
        simp +contextual [es, s', List.replicate, Runs.run, Runs.collect, step, set, advance, ht,
          hpeek, decided, hresponse, Function.update_of_ne]
    | ok response =>
      cases hcommit : s.engine.commitMatch idx with
      | mk done engine =>
        cases done <;> refine ⟨?_, ?_⟩ <;>
          simp +contextual [es, s', List.replicate, Runs.run, Runs.collect, step, set, advance, ht,
            hpeek, decided, hresponse, hcommit, Function.update_of_ne]

/-- Two requests: the second takes the lock first, and the first comes for it in between. -/
def interleaved (request request' : ObservedRequest) : List Event :=
  [.arrive 1 request, .arrive 2 request', .advance 1, .advance 2, .advance 2, .advance 1] ++
    (List.replicate 4 (.advance 2) ++ (.advance 1 :: List.replicate 4 (.advance 1)))

/-- The second is decided, and then the first. -/
theorem decided_interleaved (sha256 : Bytes → Bytes) (engine : ReplayMatchEngine)
    {request request' : ObservedRequest} (hjson : request.parsedJson.isSome)
    (hjson' : request'.parsedJson.isSome) :
    ∃ result consumed result' consumed',
      Runs.collect (step sha256) decided (start engine) (interleaved request request') =
        [(2, ⟨request', result', consumed'⟩), (1, ⟨request, result, consumed⟩)] := by
  have hsome : request.parsedJson.isNone = false := by simpa using hjson
  have hsome' : request'.parsedJson.isNone = false := by simpa using hjson'
  let es : List Event :=
    [.arrive 1 request, .arrive 2 request', .advance 1, .advance 2, .advance 2, .advance 1]
  let s := Runs.run (step sha256) (start engine) es
  have hnone : Runs.collect (step sha256) decided (start engine) es = [] := by
    simp [es, Runs.collect, step, start, set, advance, prepare_eq, hsome, hsome', decided,
      Function.update_of_ne]
  have hready : s.tasks 1 = some ⟨request, .ready (lookupOf sha256 request)⟩ := by
    simp [s, es, Runs.run, step, start, set, advance, prepare_eq, hsome, hsome',
      Function.update_of_ne]
  have hlocked : s.tasks 2 = some ⟨request', .locked (lookupOf sha256 request')⟩ ∧
      s.poisoned = false := by
    simp [s, es, Runs.run, step, start, set, advance, prepare_eq, hsome, hsome',
      Function.update_of_ne]
  obtain ⟨⟨result', consumed', hsecond⟩, hholder, hpoisoned, htasks⟩ :=
    decided_locked sha256 hlocked.1
  -- the first has waited, and takes the lock now
  let s' := Runs.run (step sha256) s (List.replicate 4 (.advance 2))
  have hwaits : s'.tasks 1 = some ⟨request, .ready (lookupOf sha256 request)⟩ :=
    (htasks 1 (by decide)).trans hready
  have htakes : (s'.step sha256 (.advance 1)).tasks 1 =
      some ⟨request, .locked (lookupOf sha256 request)⟩ := by
    simp [step, advance, set, hwaits, show s'.holder = none from hholder,
      show s'.poisoned = false from hpoisoned.trans hlocked.2]
  obtain ⟨⟨result, consumed, hfirst⟩, -⟩ := decided_locked sha256 htakes
  refine ⟨result, consumed, result', consumed', ?_⟩
  have hquiet : s'.decided (.advance 1) = [] := by simp only [decided, hwaits]
  rw [interleaved, Runs.collect_append, hnone, Runs.collect_append, hsecond]
  show [] ++ ([(2, _)] ++ (s'.decided (.advance 1) ++
    Runs.collect (step sha256) decided (s'.step sha256 (.advance 1)) _)) = _
  rw [hquiet, hfirst]
  rfl

end ReplayPool

/-- Of two with different hashes, one has the hash of the first. -/
theorem withHash_pair {α : Type*} {sha256 : Bytes → Bytes} {asked : α → ObservedRequest} {x y : α}
    (h : hashOf sha256 (asked y) ≠ hashOf sha256 (asked x)) :
    withHash sha256 asked (hashOf sha256 (asked x)) [x, y] = [x] ∧
      withHash sha256 asked (hashOf sha256 (asked x)) [y, x] = [x] := by
  simp [withHash, h]

/-- A request with this query, and its reply. -/
def Exchange.asking (query : String) : Exchange ⟨.exact, Sha256.digest, .default⟩ :=
  let v : Json := .object [("model", .string "m")]
  { request := ⟨"POST", chatCompletionsPath, query, [], [], SerdeJson.exact.toWriterPretty v,
      some v⟩
    apiKey := some "key"
    send := .ok ⟨200, [], [], SerdeJson.exact.toWriterPretty .null, some .null⟩
    stream := .error (.io .other)
    metadata := .ok ⟨"chat", "up", "now", 0⟩
    started := 0
    times := []
    faults := .none
    observed := RecordConfig.observes_exact rfl rfl (by decide) (by decide)
    observedResponse := by
      rintro _ ⟨⟩
      exact RecordConfig.observesResponse_exact rfl rfl (by decide) (by decide)
    clockRuns := by rintro _ ⟨⟩ }

/-- All that matters of an exchange to recording and replaying it: it runs smoothly, can be stored,
and is JSON. -/
structure Exchange.Ordinary (x : Exchange C) : Prop where
  smooth : ∃ i, x.Smooth i
  shallow : x.Shallow
  json : x.request.parsedJson.isSome

namespace Exchange

theorem ordinary_asking (query : String) : (asking query).Ordinary := by
  have hplain : isStreamingChatCompletionsRequest (asking query).request.parsedJson = false := rfl
  refine ⟨⟨_, rfl, hplain, ⟨_, rfl, RecordConfig.buildInteraction_eq _ _ _ _⟩, rfl⟩,
    ⟨?_, ?_, fun hstreaming => absurd hstreaming (by simp [hplain])⟩, rfl⟩
  · rintro _ ⟨⟩
    decide
  · rintro - _ ⟨⟩ _ ⟨⟩
    decide

theorem hashOf_asking_ne : hashOf Sha256.digest (asking "q=b").request ≠
    hashOf Sha256.digest (asking "q=a").request := by
  decide +kernel

/-- Requests of ordinary exchanges agree on streaming: none asks for it. -/
theorem Ordinary.kinds {x y : Exchange C} (hx : x.Ordinary) (hy : y.Ordinary) {ds : List Decision}
    (hds : ∀ d ∈ ds, d.request = x.request ∨ d.request = y.request) :
    ∀ d ∈ ds, ∀ z ∈ [y, x], hashOf C.sha256 d.request = hashOf C.sha256 z.request →
      isStreamingChatCompletionsRequest d.request.parsedJson =
        isStreamingChatCompletionsRequest z.request.parsedJson := by
  obtain ⟨i, hi⟩ := hx.smooth
  obtain ⟨j, hj⟩ := hy.smooth
  intro d hd z hz _
  have hd' : isStreamingChatCompletionsRequest d.request.parsedJson = false := by
    rcases hds d hd with h | h
    · rw [h, hi.plain]
    · rw [h, hj.plain]
  have hz' : isStreamingChatCompletionsRequest z.request.parsedJson = false := by
    rcases List.mem_pair.1 hz with rfl | rfl
    · exact hj.plain
    · exact hi.plain
  rw [hd', hz']

end Exchange

/-- Two requests are recorded, the second first, and replayed interleaved, the first first. -/
theorem concurrent_session_swapped :
    let x := Exchange.asking "q=a"
    let y := Exchange.asking "q=b"
    ∃ c engine response response', c.Holds [y, x] ∧
      ReplayMatchEngine.new c .keyed = .ok engine ∧
      (Runs.collect (ReplayPool.step Sha256.digest) ReplayPool.decided (.start engine)
        (ReplayPool.interleaved y.request x.request)).map (fun d => d.2.result) =
          [.ok response, .ok response'] ∧
      x.Faithful response ∧ y.Faithful response' := by
  intro x y
  have hx : x.Ordinary := Exchange.ordinary_asking _
  have hy : y.Ordinary := Exchange.ordinary_asking _
  have hne : hashOf Sha256.digest y.request ≠ hashOf Sha256.digest x.request :=
    Exchange.hashOf_asking_ne
  -- nothing else of the requests matters, and their hashes are not evaluated again
  clear_value x y
  obtain ⟨i, hi⟩ := hx.smooth
  obtain ⟨j, hj⟩ := hy.smooth
  obtain ⟨r, c, hstart, hdecoded, hxs⟩ := Pool.decoded_swapped SerdeJson.exact_lawful hi hj
    hx.shallow hy.shallow "c.json"
  have hsession := concurrent_session SerdeJson.exact_lawful
    (fun c hc => by simp [Session.decoded, content] at hc) hstart _ hdecoded
  simp only [hxs] at hsession
  obtain ⟨hholds, engine, hengine, htold⟩ := hsession
  obtain ⟨result', consumed', result, consumed, hdecided⟩ :=
    ReplayPool.decided_interleaved Sha256.digest engine hy.json hx.json
  have htells := htold (ReplayPool.interleaved y.request x.request)
  rw [hdecided] at htells
  have hanswers := htells (hx.kinds hy
    (List.forall_mem_cons.2 ⟨.inl rfl, List.forall_mem_singleton.2 (.inr rfl)⟩))
  let dx : Decision := ⟨x.request, result, consumed⟩
  let dy : Decision := ⟨y.request, result', consumed'⟩
  -- each hash has one exchange and one decision
  have hfirst : Tells c (hashOf Sha256.digest x.request) Exchange.Faithful (some x) result := by
    have h := hanswers (hashOf Sha256.digest x.request) 0 dx
      (congrArg (·[0]?) (@withHash_pair _ Sha256.digest Decision.request dx dy hne).1)
    rwa [(withHash_pair hne).2] at h
  have hsecond : Tells c (hashOf Sha256.digest y.request) Exchange.Faithful (some y) result' := by
    have h := hanswers (hashOf Sha256.digest y.request) 0 dy
      (congrArg (·[0]?) (@withHash_pair _ Sha256.digest Decision.request dy dx hne.symm).2)
    rwa [(withHash_pair hne.symm).1] at h
  cases hfirst with
  | recorded _ response hfaithful =>
    cases hsecond with
    | recorded _ response' hfaithful' =>
      refine ⟨c, engine, response, response', hholds, hengine, ?_, hfaithful, hfaithful'⟩
      rw [hdecided]
      rfl

/-- In sequential mode the first is not expected yet; then the second is, and is answered. -/
theorem concurrent_session_in_order_swapped :
    let x := Exchange.asking "q=a"
    let y := Exchange.asking "q=b"
    ∃ c engine diagnostic response, c.Holds [y, x] ∧
      ReplayMatchEngine.new c .sequentialStrict = .ok engine ∧
      (Runs.collect (ReplayPool.step Sha256.digest) ReplayPool.decided (.start engine)
        (ReplayPool.interleaved y.request x.request)).map (fun d => d.2.result) =
          [.error (.mismatch diagnostic), .ok response] ∧
      diagnostic.observedHash = hashOf Sha256.digest x.request ∧ y.Faithful response := by
  intro x y
  have hx : x.Ordinary := Exchange.ordinary_asking _
  have hy : y.Ordinary := Exchange.ordinary_asking _
  have hne : hashOf Sha256.digest y.request ≠ hashOf Sha256.digest x.request :=
    Exchange.hashOf_asking_ne
  -- nothing else of the requests matters, and their hashes are not evaluated again
  clear_value x y
  obtain ⟨i, hi⟩ := hx.smooth
  obtain ⟨j, hj⟩ := hy.smooth
  obtain ⟨r, c, hstart, hdecoded, hxs⟩ := Pool.decoded_swapped SerdeJson.exact_lawful hi hj
    hx.shallow hy.shallow "c.json"
  have hsession := concurrent_session_in_order SerdeJson.exact_lawful
    (fun c hc => by simp [Session.decoded, content] at hc) hstart _ hdecoded
  simp only [hxs] at hsession
  obtain ⟨hholds, engine, hengine, htold⟩ := hsession
  obtain ⟨result', consumed', result, consumed, hdecided⟩ :=
    ReplayPool.decided_interleaved Sha256.digest engine hy.json hx.json
  have htells := htold (ReplayPool.interleaved y.request x.request)
  rw [hdecided] at htells
  have hanswers := htells (hx.kinds hy
    (List.forall_mem_cons.2 ⟨.inl rfl, List.forall_mem_singleton.2 (.inr rfl)⟩))
  have hfirst := hanswers 0 ⟨x.request, result, consumed⟩ rfl
  cases hfirst with
  | recorded z response here hash =>
    obtain rfl : y = z := Option.some.inj here
    exact absurd hash hne
  | unexpected diagnostic hash told reports =>
    -- nothing has been given out, so the second finds its own exchange
    obtain rfl : result = .error (.mismatch diagnostic) := told
    have hsecond := hanswers 1 ⟨y.request, result', consumed'⟩ rfl
    cases hsecond with
    | recorded z response here hash told' hfaithful =>
      obtain rfl : y = z := Option.some.inj here
      refine ⟨c, engine, diagnostic, response, hholds, hengine, ?_, reports.observed, hfaithful⟩
      rw [hdecided, List.map_cons, List.map_singleton, told']
    | unexpected diagnostic hash => exact absurd rfl (hash y rfl)

end SpycatcherHarness
