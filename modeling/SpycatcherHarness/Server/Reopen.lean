import SpycatcherHarness.Server.Record

/-!
# Opening a written cassette again

A `Site` is a directory with the record service that runs in it, if any.  A run starts the service,
any number of times, and lets it handle exchanges, with any of the steps of opening and appending
failing.

The reader of JSON documents has a nesting limit, the writer has none, and a body that was read on
its own is stored deeper in the document.  So a document can be written that cannot be read.

* `Site.storable_run` : while only shallow interactions are persisted, the in-memory cassette can
  be stored.
* `Site.reopens_iff_shallow` : along a run, every appended document can be read exactly if every
  exchange that persists an interaction is shallow.
* `Site.deep_body_lost` : a request body nested 123 deep makes the cassette unreadable.
-/

namespace SpycatcherHarness

open Files Store

/-- A directory, and the record service that runs in it. -/
inductive Site where
  | closed (dir : Dir String)
  | serving (recorder : Recorder)

namespace Site

/-- What happens at a site. -/
inductive Event (C : RecordConfig) where
  | start (faults : Faults)
  | exchange (x : Exchange C)

def dir : Site → Dir String
  | closed dir => dir
  | serving r => r.dir

variable (C : RecordConfig) (fileName : String)

def step (s : Site) : Event C → Site
  | .start faults =>
    match Recorder.start C faults s.dir fileName with
    | (_, .ok r) => serving r
    | (dir, .error _) => closed dir
  | .exchange x =>
    match s with
    | closed dir => closed dir
    | serving r => serving (r.exchange C x)

/-- The event appends an interaction successfully. -/
def Persists (s : Site) : Event C → Prop
  | .start _ => False
  | .exchange x =>
    match s with
    | closed _ => False
    | serving r => ∃ i, r.Persists C x i

/-- The JSON that the event brings is not nested too deep. -/
def Event.Shallow : Event C → Prop
  | .start _ => True
  | .exchange x => x.Shallow

/-- `from_reader` succeeds on the cassette file, and so do a replay start and a record start. -/
def Reopens (S : SerdeJson) (s : Site) : Prop :=
  ∃ c, Session.decoded S fileName s.dir = some c ∧
    openForReplay S .none s.dir fileName = .ok ⟨fileName, c⟩ ∧
    openOrCreateForRecord S .none s.dir fileName = ([], .ok ⟨fileName, c⟩)

variable {C fileName}

/-- What is decoded can be opened. -/
theorem reopens_iff {S : SerdeJson} {s : Site} :
    Reopens fileName S s ↔ ∃ c, Session.decoded S fileName s.dir = some c := by
  refine ⟨fun ⟨c, hc, _⟩ => ⟨c, hc⟩, ?_⟩
  rintro ⟨c, hc⟩
  obtain ⟨bytes, hfile, hdecode⟩ := Option.bind_eq_some_iff.1 hc
  cases hread : Cassette.fromReader S bytes with
  | error e => simp [hread, Except.toOption] at hdecode
  | ok d =>
    obtain rfl : d = c := by simpa [hread, Except.toOption] using hdecode
    refine ⟨d, hc, ?_, openOrCreateForRecord_none_of_some S hfile hread⟩
    obtain ⟨file, hdir, rfl⟩ := Option.map_eq_some_iff.1 hfile
    simp [openForReplay, Faults.none, hdir, hread, Except.map]

/-- A running service has its lock, writes to the cassette file, and its in-memory cassette can be
stored. -/
def Storing (fileName : String) : Site → Prop
  | closed _ => True
  | serving r => r.poisoned = false ∧ r.store.fileName = fileName ∧ r.store.cassette.Storable

/-- A service that starts has read its cassette, or has an empty one. -/
theorem storing_start (s : Site) (faults : Faults) :
    Storing fileName (step C fileName s (.start faults)) := by
  simp only [step, Recorder.start]
  rcases openOrCreateForRecord_spec C.json faults s.dir fileName with
    ⟨bytes, c, -, hread, heq⟩ | ⟨ops, -, heq, -⟩ | ⟨ops, e, heq, -⟩
  · rw [heq]
    exact ⟨rfl, rfl, Cassette.storable_of_fromReader hread⟩
  · rw [heq]
    exact ⟨rfl, rfl, Cassette.storable_new⟩
  · rw [heq]
    trivial

/-- An interaction handed to the store leaves the cassette storable exactly if its exchange is
shallow. -/
theorem storable_append_iff {c : Cassette} (hc : c.Storable) {x : Exchange C} {i : Interaction}
    (h : x.attempted = some i) : (c.append i).Storable ↔ x.Shallow := by
  have hi := x.attempted_cases h
  constructor
  · exact fun hs => hi.depthLe_iff.1 (hs.interactions i (by simp)).2
  · exact fun hx => hc.append ⟨hi.wf, hi.depthLe_iff.2 hx⟩

variable (hjson : C.json.Lawful)

include hjson

/-- The document of a cassette with distinct keys can be read exactly if the cassette can be
stored. -/
theorem reopens_iff_storable {c : Cassette} (hc : c.Storable) {x : Exchange C} {i : Interaction}
    (h : x.attempted = some i) {s : Site}
    (hfile : content s.dir fileName = some ((c.append i).writeTo C.json)) :
    Reopens fileName C.json s ↔ (c.append i).Storable := by
  have hwf : ∀ j ∈ (c.append i).interactions, j.Wf := by
    simp only [Cassette.append_interactions, List.forall_mem_append, List.forall_mem_singleton]
    exact ⟨fun j hj => (hc.interactions j hj).1, (x.attempted_cases h).wf⟩
  rw [reopens_iff]
  constructor
  · rintro ⟨d, hd⟩
    refine ⟨hc.formatVersion, fun j hj => ⟨hwf j hj, ?_⟩⟩
    -- a value that is nested too deep makes reading the document fail
    by_contra hdeep
    have herror := (Cassette.fromReader_writeTo hjson (c := c.append i) hc.formatVersion hwf).2
      fun hall => hdeep (hall j hj)
    simp [Session.decoded, hfile, herror, Except.toOption] at hd
  · intro hs
    obtain ⟨d, hd, -⟩ := hs.fromReader_writeTo hjson
    exact ⟨d, Session.decoded_of_read hfile hd⟩

/-- What one event does: it persists an interaction, and then the cassette file can be opened and
the cassette stored exactly if the event is shallow, or it persists nothing. -/
theorem step_storing {s : Site} (hs : Storing fileName s) (e : Event C) :
    (Persists C s e → (Reopens fileName C.json (step C fileName s e) ↔ e.Shallow) ∧
      (e.Shallow → Storing fileName (step C fileName s e))) ∧
    (¬ Persists C s e → Storing fileName (step C fileName s e)) := by
  cases e with
  | start faults => exact ⟨fun h => h.elim, fun _ => storing_start s faults⟩
  | exchange x =>
    cases s with
    | closed dir => exact ⟨fun h => h.elim, fun _ => trivial⟩
    | serving r =>
      obtain ⟨hlock, rfl, hc⟩ := hs
      obtain ⟨hlock', hcases⟩ := Recorder.exchange_cases hlock x
      rcases hcases with ⟨i, hi, hstore, hfile⟩ | ⟨hnone, hstore, -⟩
      · have hreopens : Reopens r.store.fileName C.json (serving (r.exchange C x)) ↔ x.Shallow :=
          (reopens_iff_storable hjson hc hi.1 (s := serving (r.exchange C x)) hfile).trans
            (storable_append_iff hc hi.1)
        refine ⟨fun _ => ⟨hreopens, fun hx => ?_⟩, fun hnot => (hnot ⟨i, hi⟩).elim⟩
        refine ⟨hlock', by rw [hstore], ?_⟩
        rw [hstore]
        exact (storable_append_iff hc hi.1).2 hx
      · refine ⟨fun ⟨i, hi⟩ => (hnone i hi).elim, fun _ => ⟨hlock', by rw [hstore], ?_⟩⟩
        rw [hstore]
        exact hc

/-- While only shallow interactions are persisted, the in-memory cassette can be stored. -/
theorem storable_run {s : Site} (hs : Storing fileName s) {es : List (Event C)}
    (h : Runs.Along (step C fileName) (fun s e => Persists C s e → e.Shallow) s es) :
    Storing fileName (Runs.run (step C fileName) s es) := by
  refine Runs.run_invariant (fun s e hs he => ?_) hs h
  by_cases hpersists : Persists C s e
  · exact ((step_storing hjson hs e).1 hpersists).2 (he hpersists)
  · exact (step_storing hjson hs e).2 hpersists

/-- The first exchange of a session that creates its cassette leaves one that can be opened exactly
if it is shallow. -/
theorem reopens_first (fileName : String) (dir : Dir String)
    (habsent : content dir fileName = none) {x : Exchange C} {i : Interaction}
    (hi : x.attempted = some i) (hfaults : x.faults = .none) :
    Persists C (step C fileName (closed dir) (.start .none)) (.exchange x) ∧
      (Reopens fileName C.json
        (Runs.run (step C fileName) (closed dir) [.start .none, .exchange x]) ↔ x.Shallow) := by
  obtain ⟨dir', heq⟩ := Recorder.start_none C habsent
  have hstart : step C fileName (closed dir) (.start .none) =
      serving ⟨dir', ⟨fileName, .new⟩, false, 0, 0⟩ := by
    simp [step, Site.dir, heq]
  have hpersists : Persists C (step C fileName (closed dir) (.start .none)) (.exchange x) := by
    rw [hstart]
    exact ⟨i, Recorder.persists_none rfl hfaults hi⟩
  exact ⟨hpersists, ((step_storing hjson (storing_start _ _) _).1 hpersists).1⟩

/-- **When what is written can be opened again.**  Along every run from any directory, the cassette
can be opened after every successful append exactly if each exchange that appends is shallow: its
request body is nested at most 122 deep, the body of its buffered response at most 123, and the
payload of every event of its stream at most 121. -/
theorem reopens_iff_shallow (dir : Dir String) (es : List (Event C)) :
    Runs.Along (step C fileName)
        (fun s e => Persists C s e → Reopens fileName C.json (step C fileName s e))
        (.closed dir) es ↔
      Runs.Along (step C fileName) (fun s e => Persists C s e → e.Shallow) (.closed dir) es := by
  have agree : ∀ s e, Storing fileName s →
      ((Persists C s e → Reopens fileName C.json (step C fileName s e)) ↔
        (Persists C s e → e.Shallow)) :=
    fun s e hs => forall_congr' fun hpersists => ((step_storing hjson hs e).1 hpersists).1
  refine Runs.along_iff (s := closed dir) agree (fun s e hs he => ?_) trivial es
  by_cases hpersists : Persists C s e
  · exact ((step_storing hjson hs e).1 hpersists).2 ((agree s e hs).1 he hpersists)
  · exact (step_storing hjson hs e).2 hpersists

omit hjson

/-- Two sessions that each append a request with its response. -/
theorem reopens_iff_shallow_two_sessions :
    let C : RecordConfig := ⟨.exact, Sha256.digest, .default⟩
    let v : Json := .object [("model", .string "m")]
    let x : Exchange C :=
      { request := ⟨"POST", chatCompletionsPath, "", [], [], SerdeJson.exact.toWriterPretty v,
          some v⟩
        apiKey := some "key"
        send := .ok ⟨200, [], [], SerdeJson.exact.toWriterPretty v, some v⟩
        stream := .error (.io .other)
        metadata := .ok ⟨"chat", "up", "now", 0⟩
        started := 0
        times := []
        faults := .none
        observed := RecordConfig.observes_exact rfl rfl (by decide) (by decide)
        observedResponse := by
          rintro _ ⟨⟩
          exact RecordConfig.observesResponse_exact rfl rfl (by decide) (by decide)
        clockRuns := by rintro _ ⟨⟩ }
    Runs.Along (step C "c.json")
      (fun s e => Persists C s e → Reopens "c.json" C.json (step C "c.json" s e))
      (.closed fun _ => none) [.start .none, .exchange x, .start .none, .exchange x] := by
  intro C v x
  have hx : x.Shallow := by
    refine ⟨?_, ?_, ?_⟩
    · rintro _ ⟨⟩
      decide
    · rintro - _ ⟨⟩ _ ⟨⟩
      decide
    · intro hstream
      exact absurd hstream (by decide)
  exact (reopens_iff_shallow SerdeJson.exact_lawful _ _).2
    ⟨fun _ => trivial, fun _ => hx, fun _ => trivial, fun _ => hx, trivial⟩

/-- **A deep body makes the cassette unreadable.**  A request body nested 123 deep is accepted and
recorded, and afterwards neither a replay start nor a record start succeeds. -/
theorem deep_body_lost :
    let v : Json := (fun v => .array [v])^[123] .null
    let x : Exchange ⟨.exact, Sha256.digest, .default⟩ :=
      { request := ⟨"POST", chatCompletionsPath, "", [], [], SerdeJson.exact.toWriterPretty v,
          some v⟩
        apiKey := some "key"
        send := .ok ⟨200, [], [], SerdeJson.exact.toWriterPretty .null, some .null⟩
        stream := .error (.io .other)
        metadata := .ok ⟨"chat", "up", "now", 0⟩
        started := 0
        times := []
        faults := .none
        observed := RecordConfig.observes_exact rfl rfl (by decide +kernel) (by decide +kernel)
        observedResponse := by
          rintro _ ⟨⟩
          exact RecordConfig.observesResponse_exact rfl rfl (by decide) (by decide)
        clockRuns := by rintro _ ⟨⟩ }
    ¬ Runs.Along (step ⟨.exact, Sha256.digest, .default⟩ "c.json")
      (fun s e => Persists _ s e → Reopens "c.json" .exact (step _ "c.json" s e))
      (.closed fun _ => none) [.start .none, .exchange x] := by
  intro v x h
  have hdepth : v.depth = 123 := by decide +kernel
  have hi := x.attempted_buffered rfl rfl rfl rfl
  obtain ⟨hpersists, hreopens⟩ :=
    reopens_first SerdeJson.exact_lawful "c.json" (fun _ => none) rfl hi rfl
  have hshallow := (hreopens.1 (h.2.1 hpersists)).request v rfl
  rw [hdepth] at hshallow
  exact absurd hshallow (by decide)

end Site

end SpycatcherHarness
