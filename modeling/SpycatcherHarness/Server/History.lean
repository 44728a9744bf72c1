import SpycatcherHarness.Server.Reopen

/-!
# What the cassette holds of the exchanges

Storing and reading a cassette may change the JSON values in it, and nothing else
(`Interaction.Kept`).  Up to that, after any run of record services in a directory that began
without interactions, the in-memory cassette and the file hold the interactions of exactly the
exchanges that were persisted, in order.

* `Recorder.holds_run` : the same for one service that is started once.
* `Site.holds_run` : for any number of starts.
* `Site.recorded_session` : a session that nothing disturbs is recorded as a whole.
-/

namespace SpycatcherHarness

open Files Store

/-! ### What storing keeps -/

/-- An event without the value that its payload parses to. -/
def StreamEvent.bare : StreamEvent → StreamEvent
  | .comment text => .comment text
  | .data raw _ => .data raw none

/-- A response without the values that it parses to. -/
def RecordedResponse.bare : RecordedResponse → RecordedResponse
  | .nonStream status headers body _ => .nonStream status headers body none
  | .stream status headers events rawTranscript timing =>
    .stream status headers (events.map StreamEvent.bare) rawTranscript timing

/-- Only JSON values have changed. -/
structure Interaction.Kept (i i' : Interaction) : Prop where
  request : i'.request = { i.request with
    parsedJson := i'.request.parsedJson, canonicalRequest := i'.request.canonicalRequest }
  response : i.response.bare = i'.response.bare
  metadata : i.metadata = i'.metadata

namespace Interaction

theorem Kept.refl (i : Interaction) : i.Kept i := ⟨rfl, rfl, rfl⟩

theorem Kept.trans {i j k : Interaction} (hij : i.Kept j) (hjk : j.Kept k) : i.Kept k := by
  refine ⟨?_, hij.response.trans hjk.response, hij.metadata.trans hjk.metadata⟩
  rw [hjk.request, hij.request]

end Interaction

theorem StreamEvent.Reread.bare {e e' : StreamEvent} (h : e.Reread e') : e.bare = e'.bare := by
  cases h <;> rfl

theorem RecordedResponse.Reread.bare {r r' : RecordedResponse} (h : r.Reread r') :
    r.bare = r'.bare := by
  cases h with
  | nonStream status headers body _ => rfl
  | @stream status headers events events' rawTranscript timing hevents =>
    have hbare : events.map StreamEvent.bare = events'.map StreamEvent.bare := by
      rw [← List.forall₂_eq_eq_eq, List.forall₂_map_left_iff, List.forall₂_map_right_iff]
      exact hevents.imp fun _ _ h => h.bare
    simp only [RecordedResponse.bare, hbare]

/-- Storing keeps all but the JSON values. -/
theorem Interaction.Reread.kept {i i' : Interaction} (h : i.Reread i') : i.Kept i' :=
  ⟨h.request.rest, h.response.bare, h.metadata⟩

/-! ### What a cassette holds -/

variable {C : RecordConfig}

/-- The interaction is the one that the exchange handed to the store. -/
def Exchange.Recorded (x : Exchange C) (i : Interaction) : Prop :=
  ∃ j, x.attempted = some j ∧ j.Kept i

/-- The hash of a recorded interaction is that of its exchange's request. -/
theorem Exchange.Recorded.stableHash_eq {x : Exchange C} {i : Interaction} (h : x.Recorded i) :
    i.request.stableHash = some (stableHash C.sha256 (canonicalForm (C.unhashed x.request))) := by
  obtain ⟨j, hj, hkept⟩ := h
  rw [hkept.request]
  cases x.attempted_cases hj <;> rfl

/-- The cassette holds one interaction of each of the exchanges, in order. -/
def Cassette.Holds (xs : List (Exchange C)) (c : Cassette) : Prop :=
  List.Forall₂ Exchange.Recorded xs c.interactions

namespace Cassette

theorem Holds.append {xs : List (Exchange C)} {c : Cassette} (h : c.Holds xs) {x : Exchange C}
    {i : Interaction} (hx : x.attempted = some i) : (c.append i).Holds (xs ++ [x]) :=
  List.rel_append h (.cons ⟨i, hx, .refl i⟩ .nil)

theorem Holds.reread {xs : List (Exchange C)} {c c' : Cassette} (h : c.Holds xs)
    (hc : c.Reread c') : c'.Holds xs := by
  have htrans : ∀ {xs : List (Exchange C)} {is is' : List Interaction},
      List.Forall₂ Exchange.Recorded xs is → List.Forall₂ Interaction.Reread is is' →
      List.Forall₂ Exchange.Recorded xs is' := by
    intro xs is is' hxs
    induction hxs generalizing is' with
    | nil => rintro ⟨⟩; exact .nil
    | cons hx _ ih =>
      rintro (_ | ⟨hread, hrest⟩)
      obtain ⟨j, hj, hkept⟩ := hx
      exact .cons ⟨j, hj, hkept.trans hread.kept⟩ (ih hrest)
  exact htrans h hc.interactions

/-- Whatever a written cassette is read back as, it holds the same. -/
theorem Holds.fromReader (hS : C.json.Lawful) {xs : List (Exchange C)} {c c' : Cassette}
    (h : c.Holds xs) (hversion : c.formatVersion = supportedFormatVersion)
    (hwf : ∀ i ∈ c.interactions, i.Wf) (hread : fromReader C.json (c.writeTo C.json) = .ok c') :
    c'.Holds xs := by
  obtain ⟨hok, herror⟩ := fromReader_writeTo hS hversion hwf
  by_cases hdepth : ∀ i ∈ c.interactions, i.DepthLe eventDepth
  · obtain ⟨d, hd, hreread⟩ := hok hdepth
    obtain rfl : d = c' := Except.ok.inj (hd.symm.trans hread)
    exact h.reread hreread
  · rw [herror hdepth] at hread
    cases hread

end Cassette

/-- Whatever the cassette file decodes to holds the exchanges; a file that is absent holds
none. -/
structure FileHolds (fileName : String) (xs : List (Exchange C)) (dir : Dir String) : Prop where
  decoded : ∀ c, Session.decoded C.json fileName dir = some c → c.Holds xs
  absent : content dir fileName = none → xs = []

theorem FileHolds.congr {fileName : String} {xs : List (Exchange C)} {dir dir' : Dir String}
    (h : FileHolds fileName xs dir) (heq : content dir' fileName = content dir fileName) :
    FileHolds fileName xs dir' := by
  refine ⟨fun c hc => h.decoded c ?_, fun hnone => h.absent (heq ▸ hnone)⟩
  rwa [Session.decoded_congr heq] at hc

/-- The document of a cassette holds what the cassette holds. -/
theorem fileHolds_of_content (hS : C.json.Lawful) {fileName : String} {xs : List (Exchange C)}
    {c : Cassette} (h : c.Holds xs) (hversion : c.formatVersion = supportedFormatVersion)
    (hwf : ∀ i ∈ c.interactions, i.Wf) {dir : Dir String}
    (hfile : content dir fileName = some (c.writeTo C.json)) : FileHolds fileName xs dir := by
  refine ⟨fun d hd => ?_, fun hnone => by rw [hfile] at hnone; cases hnone⟩
  cases hread : Cassette.fromReader C.json (c.writeTo C.json) with
  | error e => simp [Session.decoded, hfile, hread, Except.toOption] at hd
  | ok d' =>
    obtain rfl : d' = d := by simpa [Session.decoded, hfile, hread, Except.toOption] using hd
    exact h.fromReader hS hversion hwf hread

/-! ### One service -/

namespace Recorder

/-- The service has its lock, and memory and file hold the exchanges. -/
structure Holds (fileName : String) (xs : List (Exchange C)) (r : Recorder) : Prop where
  lock : r.poisoned = false
  name : r.store.fileName = fileName
  formatVersion : r.store.cassette.formatVersion = supportedFormatVersion
  wf : ∀ i ∈ r.store.cassette.interactions, i.Wf
  memory : r.store.cassette.Holds xs
  file : FileHolds fileName xs r.dir

instance (r : Recorder) (x : Exchange C) : Decidable (∃ i, r.Persists C x i) :=
  match h : x.attempted with
  | none => .isFalse fun ⟨i, hi, _⟩ => by rw [h] at hi; cases hi
  | some i =>
    decidable_of_iff ((r.appendInteraction C x.faults i).1 = .ok ()) (by simp [Persists, h])

/-- The exchange, if it persists its interaction. -/
def persisted (r : Recorder) (x : Exchange C) : List (Exchange C) :=
  if ∃ i, r.Persists C x i then [x] else []

variable {fileName : String}

/-- An exchange that persists its interaction is held after the others. -/
theorem holds_exchange (hS : C.json.Lawful) {xs : List (Exchange C)} {r : Recorder}
    (h : r.Holds fileName xs) (x : Exchange C) :
    (r.exchange C x).Holds fileName (xs ++ r.persisted x) := by
  obtain ⟨hlock, hcases⟩ := exchange_cases h.lock x
  rcases hcases with ⟨i, hi, hstore, hfile⟩ | ⟨hnone, hstore, hfile⟩
  · have hpersisted : r.persisted x = [x] := if_pos ⟨i, hi⟩
    have hwf : ∀ j ∈ (r.store.cassette.append i).interactions, j.Wf := by
      simp only [Cassette.append_interactions, List.forall_mem_append, List.forall_mem_singleton]
      exact ⟨h.wf, (x.attempted_cases hi.1).wf⟩
    have hmemory := h.memory.append hi.1
    rw [h.name] at hfile
    rw [hpersisted]
    exact ⟨hlock, by rw [hstore]; exact h.name, by rw [hstore]; exact h.formatVersion,
      by rw [hstore]; exact hwf, by rw [hstore]; exact hmemory,
      fileHolds_of_content hS hmemory h.formatVersion hwf hfile⟩
  · have hpersisted : r.persisted x = [] := if_neg fun ⟨i, hi⟩ => hnone i hi
    rw [h.name] at hfile
    rw [hpersisted, List.append_nil]
    exact ⟨hlock, by rw [hstore]; exact h.name, by rw [hstore]; exact h.formatVersion,
      by rw [hstore]; exact h.wf, by rw [hstore]; exact h.memory, h.file.congr hfile⟩

/-- A service that is started holds what the file holds. -/
theorem holds_start (hS : C.json.Lawful) {xs : List (Exchange C)} {dir : Dir String}
    (h : FileHolds fileName xs dir) (faults : Faults) :
    (∀ r, (start C faults dir fileName).2 = .ok r → r.Holds fileName xs) ∧
      FileHolds fileName xs (start C faults dir fileName).1 := by
  simp only [start]
  rcases openOrCreateForRecord_spec C.json faults dir fileName with
    ⟨bytes, c, hfile, hread, heq⟩ | ⟨ops, hfile, heq, hops⟩ | ⟨ops, e, heq, hops⟩
  · rw [heq]
    refine ⟨?_, h⟩
    rintro _ ⟨⟩
    have hc := Cassette.storable_of_fromReader hread
    exact ⟨rfl, rfl, hc.formatVersion, fun i hi => (hc.interactions i hi).1,
      h.decoded c (Session.decoded_of_read hfile hread), h⟩
  -- a new cassette is created only where nothing has been persisted
  · obtain rfl := h.absent hfile
    have hnone : Cassette.new.Holds ([] : List (Exchange C)) := List.Forall₂.nil
    have hnew := fileHolds_of_content hS hnone rfl (by simp) hops
    rw [heq]
    refine ⟨?_, hnew⟩
    rintro _ ⟨⟩
    exact ⟨rfl, rfl, rfl, by simp, hnone, hnew⟩
  · rw [heq]
    refine ⟨?_, h.congr hops⟩
    rintro _ ⟨⟩

/-- A service holds what it persists, one interaction after the other. -/
theorem holds_run (hS : C.json.Lawful) {xs : List (Exchange C)} {r : Recorder}
    (h : r.Holds fileName xs) (es : List (Exchange C)) :
    (Runs.run (exchange C) r es).Holds fileName
      (xs ++ Runs.collect (exchange C) persisted r es) := by
  induction es generalizing xs r with
  | nil => simpa [Runs.collect] using h
  | cons x es ih =>
    rw [Runs.run_cons, Runs.collect, ← List.append_assoc]
    exact ih (holds_exchange hS h x)

/-- If every exchange persists its interaction, the service holds all of them. -/
theorem holds_all (hS : C.json.Lawful) {r : Recorder}
    (h : r.Holds fileName ([] : List (Exchange C))) {es : List (Exchange C)}
    (hall : Runs.Along (exchange C) (fun r x => ∃ i, r.Persists C x i) r es) :
    (Runs.run (exchange C) r es).Holds fileName es := by
  have hcollect : ∀ (r : Recorder) (es : List (Exchange C)),
      Runs.Along (exchange C) (fun r x => ∃ i, r.Persists C x i) r es →
      Runs.collect (exchange C) persisted r es = es := by
    intro r es
    induction es generalizing r with
    | nil => exact fun _ => rfl
    | cons x es ih =>
      rintro ⟨hx, hes⟩
      rw [Runs.collect, persisted, if_pos hx, ih _ hes, List.singleton_append]
  have hrun := holds_run hS h es
  rwa [hcollect r es hall, List.nil_append] at hrun

end Recorder

/-! ### Any number of services -/

namespace Site

variable {fileName : String}

/-- The exchange of the event, if it persists its interaction. -/
def persisted (s : Site) : Event C → List (Exchange C)
  | .start _ => []
  | .exchange x =>
    match s with
    | closed _ => []
    | serving r => r.persisted x

theorem persisted_of_persists {s : Site} {x : Exchange C} (h : Persists C s (.exchange x)) :
    s.persisted (.exchange x) = [x] := by
  cases s with
  | closed dir => exact h.elim
  | serving r => exact if_pos h

/-- A running service holds the exchanges, and else the file does. -/
def Holds (fileName : String) (xs : List (Exchange C)) : Site → Prop
  | closed dir => FileHolds fileName xs dir
  | serving r => r.Holds fileName xs

theorem Holds.file {xs : List (Exchange C)} {s : Site} (h : s.Holds fileName xs) :
    FileHolds fileName xs s.dir := by
  cases s with
  | closed dir => exact h
  | serving r => exact Recorder.Holds.file h

theorem holds_step (hS : C.json.Lawful) {xs : List (Exchange C)} {s : Site}
    (h : s.Holds fileName xs) (e : Event C) :
    (step C fileName s e).Holds fileName (xs ++ s.persisted e) := by
  cases e with
  | start faults =>
    obtain ⟨hok, hdir⟩ := Recorder.holds_start hS h.file faults
    simp only [persisted, List.append_nil, step]
    cases hstart : Recorder.start C faults s.dir fileName with
    | mk dir result =>
      rw [hstart] at hok hdir
      cases result with
      | error e => exact hdir
      | ok r => exact hok r rfl
  | exchange x =>
    cases s with
    | closed dir => simpa [persisted, step] using h
    | serving r => exact Recorder.holds_exchange hS h x

/-- **What the cassette holds.**  After any run in a directory whose cassette file, if there is
one, holds no interactions, whatever the file decodes to holds the exchanges that were persisted,
in order. -/
theorem holds_run (hS : C.json.Lawful) {dir : Dir String}
    (hempty : ∀ c, Session.decoded C.json fileName dir = some c → c.interactions = [])
    (es : List (Event C)) :
    (Runs.run (step C fileName) (closed dir) es).Holds fileName
      (Runs.collect (step C fileName) persisted (closed dir) es) := by
  have hrun : ∀ (xs : List (Exchange C)) (s : Site), s.Holds fileName xs →
      (Runs.run (step C fileName) s es).Holds fileName
        (xs ++ Runs.collect (step C fileName) persisted s es) := by
    induction es with
    | nil => intro xs s h; simpa [Runs.collect] using h
    | cons e es ih =>
      intro xs s h
      rw [Runs.run_cons, Runs.collect, ← List.append_assoc]
      exact ih _ _ (holds_step hS h e)
  refine hrun [] _ ⟨fun c hc => ?_, fun _ => rfl⟩
  rw [Cassette.Holds, hempty c hc]
  exact .nil

/-- A service whose cassette can be stored appends shallow exchanges when no step fails. -/
theorem recorded_exchanges (hS : C.json.Lawful) (xs : List (Exchange C)) :
    ∀ r : Recorder, r.poisoned = false → r.store.fileName = fileName →
      r.store.cassette.Storable →
      content r.dir fileName = some (r.store.cassette.writeTo C.json) →
      (∀ x ∈ xs, x.faults = .none ∧ x.attempted.isSome ∧ x.Shallow) →
      Runs.collect (step C fileName) persisted (serving r) (xs.map Event.exchange) = xs ∧
        ∃ c, Session.decoded C.json fileName
          (Runs.run (step C fileName) (serving r) (xs.map Event.exchange)).dir = some c := by
  induction xs with
  | nil =>
    intro r _ _ hstorable hfile _
    obtain ⟨c, hc, -⟩ := hstorable.fromReader_writeTo hS
    exact ⟨rfl, c, Session.decoded_of_read hfile hc⟩
  | cons x xs ih =>
    intro r hlock hname hstorable _ hall
    rw [List.forall_mem_cons] at hall
    obtain ⟨⟨hfaults, hattempted, hshallow⟩, hrest⟩ := hall
    obtain ⟨i, hi⟩ := Option.isSome_iff_exists.1 hattempted
    have hpersists := Recorder.persists_none hlock hfaults hi
    obtain ⟨hlock', hstore, hfile'⟩ := Recorder.exchange_of_persists hlock hpersists
    have hone : persisted (serving r) (.exchange x) = [x] :=
      persisted_of_persists (s := serving r) ⟨i, hpersists⟩
    rw [hname] at hfile'
    obtain ⟨hcollect, hdecoded⟩ := ih (r.exchange C x) hlock' (by rw [hstore]; exact hname)
      (by rw [hstore]; exact (storable_append_iff hstorable hi).2 hshallow)
      (by rw [hstore]; exact hfile') hrest
    refine ⟨?_, hdecoded⟩
    rw [List.map_cons, Runs.collect, hone, List.singleton_append]
    exact congrArg (x :: ·) hcollect

/-- A session of shallow exchanges in which no step fails is recorded as a whole, and its cassette
can be loaded. -/
theorem recorded_session (hS : C.json.Lawful) {dir : Dir String}
    (habsent : content dir fileName = none) {xs : List (Exchange C)}
    (hall : ∀ x ∈ xs, x.faults = .none ∧ x.attempted.isSome ∧ x.Shallow) :
    Runs.collect (step C fileName) persisted (closed dir)
        (.start .none :: xs.map Event.exchange) = xs ∧
      ∃ c, Session.decoded C.json fileName (Runs.run (step C fileName) (closed dir)
        (.start .none :: xs.map Event.exchange)).dir = some c := by
  obtain ⟨ops, hopen, hfile⟩ := openOrCreateForRecord_none_of_none C.json habsent
  have hstart : step C fileName (closed dir) (.start .none) =
      serving ⟨applyAll dir ops, ⟨fileName, .new⟩, false, 0, 0⟩ := by
    simp [step, Site.dir, Recorder.start, hopen, Except.map]
  rw [Runs.collect, Runs.run_cons, hstart]
  exact recorded_exchanges hS xs _ rfl rfl Cassette.storable_new hfile hall

end Site

end SpycatcherHarness
