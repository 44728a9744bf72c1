import SpycatcherHarness.Fidelity
import SpycatcherHarness.Harness

/-!
# The life of a cassette

Over its life a cassette is used by one process after another.  Each is started in some mode, on
what the one before has left; it may be killed at any operation of its start or of an append, any
step may fail, and a start may fail.  What has been persisted is never lost and never invented:

* `Life.holds_run` : the file, and whatever runs on it, hold the exchanges that were persisted.
* `Life.answer_of_persisted` : every answer that is ever given is that of such an exchange.
* `Life.replays_persisted` : a replay that is started at any time answers them all.
* `Life.unreadable_kept` : a file that is no cassette is left alone.
-/

namespace SpycatcherHarness

open Files Store

/-- What is at the cassette's directory: no process, or one that records or replays. -/
inductive Life where
  | stopped (dir : Dir String)
  | recording (recorder : Recorder)
  | replaying (dir : Dir String) (service : ReplayService)

namespace Life

/-- How a process is started, apart from where its cassette is. -/
structure Start (Url : Type) where
  env : StartEnvironment
  mode : Mode
  matchMode : MatchMode
  upstream : Option (UpstreamConfig Url)

/-- What happens. -/
inductive Event (C : RecordConfig) (Url : Type) where
  | start (a : Start Url)
  /-- A start, killed after some of the operations on the directory. -/
  | killedStart (a : Start Url) (after : ℕ)
  | exchange (x : Exchange C)
  /-- An exchange, killed after some of the operations of its append. -/
  | killedExchange (x : Exchange C) (after : ℕ)
  | request (q : ObservedRequest)
  | shutdown

def dir : Life → Dir String
  | stopped dir => dir
  | recording r => r.dir
  | replaying dir _ => dir

variable {Url : Type}

/-- Where the cassette is, and the rest of the configuration. -/
def Start.config (a : Start Url) (cassetteDir name : String) : HarnessConfig Url :=
  ⟨a.mode, cassetteDir, name, a.upstream⟩

end Life

section
variable {C : RecordConfig}

/-- What a service that is killed inside the append of an exchange leaves. -/
def Recorder.killedIn (r : Recorder) (x : Exchange C) (after : ℕ) : Dir String :=
  if r.poisoned then r.dir
  else
    match x.attempted with
    | none => r.dir
    | some i => applyAll r.dir ((append C.json x.faults r.dir r.store i).1.1.take after)

/-- The document with the interaction of the exchange was in place before. -/
def Recorder.landed (r : Recorder) (x : Exchange C) (after : ℕ) : Bool :=
  match x.attempted with
  | none => false
  | some i => content (r.killedIn x after) r.store.fileName =
      some ((r.store.cassette.append i).writeTo C.json)

end

namespace Life

variable {Url : Type} (C : RecordConfig) (cassetteDir name : String)

/-- What starting a process does to the directory, and what it returns. -/
def begin (a : Start Url) (dir : Dir String) :
    List (Op String) × Except StartError RunningHarness :=
  startHarness C.json a.env a.matchMode (a.config cassetteDir name) dir

/-- What an event makes of a life.  Only a process of its mode takes part in an exchange or answers
a request, and a new one takes the place of the old. -/
def step (s : Life) : Event C Url → Life
  | .start a =>
    match begin C cassetteDir name a s.dir with
    | (_, .ok (.record r)) => recording r
    | (ops, .ok (.replay service)) => replaying (applyAll s.dir ops) service
    | (ops, .error _) => stopped (applyAll s.dir ops)
  | .killedStart a after =>
    stopped (applyAll s.dir ((begin C cassetteDir name a s.dir).1.take after))
  | .exchange x =>
    match s with
    | recording r => recording (r.exchange C x)
    | s => s
  | .killedExchange x after =>
    match s with
    | recording r => stopped (r.killedIn x after)
    | s => s
  | .request q =>
    match s with
    | replaying dir service => replaying dir (service.step C.sha256 q)
    | s => s
  | .shutdown => stopped s.dir

variable {C}

/-- The exchange of the event, if its interaction is persisted. -/
def persisted (s : Life) : Event C Url → List (Exchange C)
  | .exchange x =>
    match s with
    | recording r => r.persisted x
    | _ => []
  | .killedExchange x after =>
    match s with
    | recording r => if r.landed x after then [x] else []
    | _ => []
  | .start _ | .killedStart _ _ | .request _ | .shutdown => []

variable (C) in
/-- What a request is answered. -/
def answer (s : Life) (q : ObservedRequest) : Option (Except ReplayError ReplayResponse) :=
  match s with
  | replaying _ service => some (service.handleChatCompletions C.sha256 q).1
  | _ => none

/-! ### What is held -/

/-- The exchanges are held by the file, and by the process that runs on it. -/
def Holds (fileName : String) (xs : List (Exchange C)) : Life → Prop
  | stopped dir => FileHolds fileName xs dir
  | recording r => r.Holds fileName xs
  | replaying dir service => FileHolds fileName xs dir ∧ service.engine.cassette.Holds xs

theorem Holds.file {fileName : String} {xs : List (Exchange C)} {s : Life}
    (h : s.Holds fileName xs) : FileHolds fileName xs s.dir := by
  cases s with
  | stopped dir => exact h
  | recording r => exact Recorder.Holds.file h
  | replaying dir service => exact h.1

/-- A service that is killed has appended the interaction, or has not touched the file. -/
theorem fileHolds_killedIn (hjson : C.json.Lawful) {fileName : String} {xs : List (Exchange C)}
    {r : Recorder} (h : r.Holds fileName xs) (x : Exchange C) (after : ℕ) :
    FileHolds fileName (xs ++ if r.landed x after then [x] else []) (r.killedIn x after) := by
  unfold Recorder.landed
  cases hattempted : x.attempted with
  | none => simpa [Recorder.killedIn, hattempted] using h.file
  | some i =>
    simp only [decide_eq_true_eq]
    split_ifs with hlanded
    · have hwf : ∀ j ∈ (r.store.cassette.append i).interactions, j.Wf := by
        simp only [Cassette.append_interactions, List.forall_mem_append, List.forall_mem_singleton]
        exact ⟨h.wf, (x.attempted_cases hattempted).wf⟩
      rw [h.name] at hlanded
      exact fileHolds_of_content hjson (h.memory.append hattempted) h.formatVersion hwf hlanded
    · rw [List.append_nil]
      refine h.file.congr ?_
      -- the new document is not in place, so the old one is
      have htake := append_take C.json x.faults r.dir r.store i after
      simp only [Recorder.killedIn, h.lock, hattempted, Bool.false_eq_true, if_false] at hlanded ⊢
      rw [← h.name]
      exact htake.resolve_right hlanded

variable {cassetteDir name fileName : String}

section
variable (hname : cassetteName (Path.join cassetteDir name) = .ok fileName) {a : Start Url}
  {dir : Dir String}
include hname

theorem begin_keeps (hjson : C.json.Lawful) (a : Start Url) (dir : Dir String) :
    Throughout (Keeps C fileName) dir (begin C cassetteDir name a dir).1 := by
  have hname' : cassetteName (a.config cassetteDir name).cassettePath = .ok fileName := hname
  exact startHarness_keeps hjson hname' a.env a.matchMode dir

theorem begin_record (hjson : C.json.Lawful) {ops : List (Op String)} {r : Recorder}
    (h : begin C cassetteDir name a dir = (ops, .ok (.record r))) :
    r.poisoned = false ∧ Opened C fileName r.dir r.store ∧
      ∀ xs : List (Exchange C), FileHolds fileName xs dir → r.Holds fileName xs := by
  have hname' : cassetteName (a.config cassetteDir name).cassettePath = .ok fileName := hname
  exact (startHarness_record hjson hname' (congrArg Prod.snd h)).2.2

theorem begin_replay {ops : List (Op String)} {service : ReplayService}
    (h : begin C cassetteDir name a dir = (ops, .ok (.replay service))) :
    ops = [] ∧ ∃ c engine, Session.decoded C.json fileName dir = some c ∧
      ReplayMatchEngine.new c a.matchMode = .ok engine ∧ service = .new engine := by
  have hname' : cassetteName (a.config cassetteDir name).cassettePath = .ok fileName := hname
  obtain ⟨-, hops, hservice⟩ := startHarness_replay hname' (congrArg Prod.snd h)
  exact ⟨(congrArg Prod.fst h).symm.trans hops, hservice⟩

theorem begin_unreadable (hjson : C.json.Lawful) {bytes : Bytes} {e : HarnessError}
    (hfile : content dir fileName = some bytes)
    (hread : Cassette.fromReader C.json bytes = .error e)
    (running : RunningHarness) : (begin C cassetteDir name a dir).2 ≠ .ok running := by
  have hname' : cassetteName (a.config cassetteDir name).cassettePath = .ok fileName := hname
  exact startHarness_unreadable hjson hname' hfile hread running

end

/-- Every event keeps what is held, and adds what it persists. -/
theorem holds_step (hjson : C.json.Lawful)
    (hname : cassetteName (Path.join cassetteDir name) = .ok fileName)
    (xs : List (Exchange C)) (s : Life) (e : Event C Url) (h : s.Holds fileName xs) :
    (step C cassetteDir name s e).Holds fileName (xs ++ s.persisted e) := by
  cases e with
  | start a =>
    have hfile := (begin_keeps hname hjson a s.dir).done.holds xs h.file
    simp only [step, persisted, List.append_nil]
    cases hbegin : begin C cassetteDir name a s.dir with
    | mk ops result =>
      rw [hbegin] at hfile
      cases result with
      | error e => exact hfile
      | ok running =>
        cases running with
        | record r => exact (begin_record hname hjson hbegin).2.2 xs h.file
        | replay service =>
          obtain ⟨-, c, engine, hdecoded, hnew, rfl⟩ := begin_replay hname hbegin
          refine ⟨hfile, ?_⟩
          rw [ReplayService.new, (ReplayMatchEngine.new_frame hnew).1]
          exact h.file.decoded c hdecoded
  | killedStart a after =>
    rw [persisted, List.append_nil]
    exact (begin_keeps hname hjson a s.dir after).holds xs h.file
  | exchange x =>
    cases s with
    | recording r => exact Recorder.holds_exchange hjson h x
    | stopped dir => simpa [persisted, step] using h
    | replaying dir service => simpa [persisted, step] using h
  | killedExchange x after =>
    cases s with
    | recording r => exact fileHolds_killedIn hjson h x after
    | stopped dir => simpa [persisted, step] using h
    | replaying dir service => simpa [persisted, step] using h
  | request q =>
    rw [persisted, List.append_nil]
    cases s with
    | recording r => exact h
    | stopped dir => exact h
    | replaying dir service =>
      refine ⟨h.1, ?_⟩
      rw [ReplayService.step, (ReplayService.handle_frame C.sha256 service q).1]
      exact h.2
  | shutdown =>
    rw [persisted, List.append_nil]
    exact h.file

/-- **What is held over a life.**  Whatever happens at a directory whose cassette file, if there is
one, holds no interactions, the file and the process on it hold the exchanges that have been
persisted, in order. -/
theorem holds_run (hjson : C.json.Lawful)
    (hname : cassetteName (Path.join cassetteDir name) = .ok fileName)
    {dir : Dir String}
    (hempty : ∀ c, Session.decoded C.json fileName dir = some c → c.interactions = [])
    (es : List (Event C Url)) :
    (Runs.run (step C cassetteDir name) (stopped dir) es).Holds fileName
      (Runs.collect (step C cassetteDir name) persisted (stopped dir) es) := by
  have hstart : (stopped dir).Holds fileName ([] : List (Exchange C)) := by
    refine ⟨fun c hc => ?_, fun _ => rfl⟩
    rw [Cassette.Holds, hempty c hc]
    exact .nil
  exact Runs.run_collect (holds_step hjson hname) hstart es

/-! ### Sessions that nothing disturbs -/

/-- A service appends shallow exchanges when no step fails. -/
theorem recording_exchanges (hjson : C.json.Lawful) {xs : List (Exchange C)}
    (hall : ∀ x ∈ xs, x.faults = .none ∧ x.attempted.isSome ∧ x.Shallow) {r : Recorder}
    (hlock : r.poisoned = false) (hfile : r.store.fileName = fileName)
    (hstorable : r.store.cassette.Storable)
    (hreadable : ∃ c, Session.decoded C.json fileName r.dir = some c) :
    let es : List (Event C Url) := xs.map .exchange
    Runs.collect (step C cassetteDir name) persisted (recording r) es = xs ∧
      ∃ c, Session.decoded C.json fileName
        (Runs.run (step C cassetteDir name) (recording r) es).dir = some c := by
  induction xs generalizing r with
  | nil => exact ⟨rfl, hreadable⟩
  | cons x xs ih =>
    rw [List.forall_mem_cons] at hall
    obtain ⟨⟨hfaults, hattempted, hshallow⟩, hrest⟩ := hall
    obtain ⟨i, hi⟩ := Option.isSome_iff_exists.1 hattempted
    have hpersists := Recorder.persists_none hlock hfaults hi
    obtain ⟨hlock', hstore, hcontent⟩ := Recorder.exchange_of_persists hlock hpersists
    have hstorable' := (Site.storable_append_iff hstorable hi).2 hshallow
    obtain ⟨c, hc, -⟩ := hstorable'.fromReader_writeTo hjson
    rw [hfile] at hcontent
    obtain ⟨hcollect, hdecoded⟩ := @ih hrest (r.exchange C x) hlock' (by rw [hstore]; exact hfile)
      (by rw [hstore]; exact hstorable') ⟨c, Session.decoded_of_read hcontent hc⟩
    have hone : r.persisted x = [x] := if_pos ⟨i, hpersists⟩
    refine ⟨?_, hdecoded⟩
    rw [List.map_cons, Runs.collect]
    exact (congrArg (· ++ _) hone).trans (congrArg (x :: ·) hcollect)

/-- A process is started, takes part in exchanges, and is shut down. -/
def session (a : Start Url) (xs : List (Exchange C)) : List (Event C Url) :=
  .start a :: xs.map .exchange ++ [.shutdown]

/-- A session that nothing disturbs is persisted as a whole, and its replay starts. -/
theorem replaying_of_session (hjson : C.json.Lawful)
    (hname : cassetteName (Path.join cassetteDir name) = .ok fileName) {dir : Dir String}
    (habsent : content dir fileName = none) {a b : Start Url} (ha : a.mode = .record)
    (hb : b.mode = .replay) (hcalm : a.env.Calm (a.config cassetteDir name) fileName)
    (hcalm' : b.env.Calm (b.config cassetteDir name) fileName)
    (hvalid : validateConfig (a.config cassetteDir name) = .ok ())
    (hvalid' : validateConfig (b.config cassetteDir name) = .ok ()) {xs : List (Exchange C)}
    (hall : ∀ x ∈ xs, x.faults = .none ∧ x.attempted.isSome ∧ x.Shallow) :
    Runs.collect (step C cassetteDir name) persisted (stopped dir) (session a xs) = xs ∧
      ∃ dir' service, Runs.run (step C cassetteDir name) (stopped dir)
        (session a xs ++ [.start b]) = replaying dir' service := by
  have hname' : cassetteName (a.config cassetteDir name).cassettePath = .ok fileName := hname
  obtain ⟨r, hr⟩ : ∃ r, (begin C cassetteDir name a dir).2 = .ok (.record r) :=
    startHarness_record_calm hjson hcalm hvalid ha (.inl habsent)
  have hbegin : begin C cassetteDir name a dir =
      ((begin C cassetteDir name a dir).1, .ok (.record r)) := Prod.ext rfl hr
  obtain ⟨hlock, hopened, -⟩ := begin_record hname hjson hbegin
  have hstart : step C cassetteDir name (stopped dir) (.start a) = recording r := by
    simp only [step, Life.dir]
    rw [hbegin]
  obtain ⟨hcollect, c, hc⟩ := @recording_exchanges Url C cassetteDir name fileName hjson xs hall r
    hlock hopened.name hopened.storable hopened.readable
  have hcollect' : Runs.collect (step C cassetteDir name) persisted (stopped dir)
      (session a xs) = xs := by
    rw [session, Runs.collect_concat, Runs.collect, hstart]
    simpa [persisted] using hcollect
  refine ⟨hcollect', ?_⟩
  -- what the session leaves can be read and holds it, so that it can be replayed
  have hnone : ∀ c, Session.decoded C.json fileName dir = some c → c.interactions = [] := by
    intro c hc
    simp [Session.decoded, habsent] at hc
  have hheld := holds_run hjson hname hnone (session a xs)
  obtain ⟨dir', hrun, c, hc⟩ : ∃ dir', Runs.run (step C cassetteDir name) (stopped dir)
      (session a xs) = stopped dir' ∧ ∃ c, Session.decoded C.json fileName dir' = some c := by
    refine ⟨_, ?_, c, hc⟩
    rw [session, Runs.run_concat, Runs.run_cons, hstart]
    rfl
  rw [hrun, hcollect'] at hheld
  obtain ⟨engine, hengine⟩ := (hheld.file.decoded c hc).exists_new b.matchMode
  obtain ⟨service, hservice⟩ :
      ∃ service, begin C cassetteDir name b dir' = ([], .ok (.replay service)) :=
    startHarness_replay_calm hcalm' hvalid' hb hc (ReplayMatchEngine.hashed_of_new hengine)
  refine ⟨dir', service, ?_⟩
  rw [Runs.run_concat, hrun]
  simp only [step, Life.dir, hservice, applyAll_nil]

/-- A start with a credential-free upstream, in surroundings in which nothing fails. -/
def Start.calm (mode : Mode) : Start Unit :=
  ⟨.calm, mode, .sequentialStrict, some ⟨(), ⟨[], by decide⟩⟩⟩

/-- A configuration with exact crates. -/
def exact : RecordConfig := ⟨.exact, Sha256.digest, .default⟩

/-- A buffered exchange. -/
def buffered : Exchange exact :=
  let v : Json := .object [("model", .string "m")]
  { request := ⟨"POST", chatCompletionsPath, "", [], [], SerdeJson.exact.toWriterPretty v, some v⟩
    apiKey := some "key"
    send := .ok ⟨200, [("authorization", "a"), ("x-id", "1")], [],
      SerdeJson.exact.toWriterPretty v, some v⟩
    stream := .error (.io .other)
    metadata := .ok ⟨"chat", "up", "now", 0⟩
    started := 0
    times := []
    faults := .none
    observed := RecordConfig.observes_exact rfl rfl (by decide) (by decide)
    observedResponse := by
      rintro _ ⟨⟩
      exact RecordConfig.observesResponse_exact rfl rfl (by decide) (by decide)
    clockRuns := by rintro _ ⟨⟩ }

theorem buffered_shallow : buffered.Shallow := by
  refine ⟨?_, ?_, fun hstream => absurd hstream (by decide)⟩
  · rintro _ ⟨⟩
    decide
  · rintro - _ ⟨⟩ _ ⟨⟩
    decide

/-- It is recorded, and its replay starts. -/
theorem buffered_replaying :
    Runs.collect (step exact "llm" "a.json") persisted (stopped fun _ => none)
        (session (.calm .record) [buffered]) = [buffered] ∧
      ∃ dir service, Runs.run (step exact "llm" "a.json") (stopped fun _ => none)
        (session (.calm .record) [buffered] ++ [.start (.calm .replay)]) =
          replaying dir service := by
  have hname : cassetteName (Path.join "llm" "a.json") = .ok "a.json" := by decide
  have hcalm : ∀ mode, StartEnvironment.calm.Calm ((Start.calm mode).config "llm" "a.json")
      "a.json" := fun mode => StartEnvironment.calm_calm hname
  have hall : ∀ x ∈ [buffered], x.faults = .none ∧ x.attempted.isSome ∧ x.Shallow :=
    List.forall_mem_singleton.2 ⟨rfl, by decide +kernel, buffered_shallow⟩
  exact replaying_of_session SerdeJson.exact_lawful hname rfl rfl rfl (hcalm .record)
    (hcalm .replay) (by decide) (by decide) hall

/-! ### What is answered -/

/-- What is built from a recorded response does not depend on whether a stream was asked for. -/
theorem responseFromRecorded_inj {recorded : RecordedResponse} {b b' : Bool}
    {response response' : ReplayResponse} (h : responseFromRecorded recorded b = .ok response)
    (h' : responseFromRecorded recorded b' = .ok response') : response = response' := by
  cases recorded <;> cases b <;> cases b' <;>
    simp_all [responseFromRecorded, responseFromNonStream]

/-- A process that was started and replays does so with what the file decodes to. -/
theorem start_replaying (hname : cassetteName (Path.join cassetteDir name) = .ok fileName)
    {s : Life} {a : Start Url} {dir : Dir String} {service : ReplayService}
    (hstart : step C cassetteDir name s (.start a) = replaying dir service) :
    ∃ c engine, Session.decoded C.json fileName s.dir = some c ∧
      ReplayMatchEngine.new c a.matchMode = .ok engine ∧ service = .new engine := by
  simp only [step] at hstart
  split at hstart
  · cases hstart
  · rename_i ops started hbegin
    obtain ⟨-, rfl⟩ := Life.replaying.inj hstart
    exact (begin_replay hname hbegin).2
  · cases hstart

/-- A replay that starts in sequential mode answers the requests of what is held. -/
theorem replays_of_holds
    (hname : cassetteName (Path.join cassetteDir name) = .ok fileName) {xs : List (Exchange C)}
    {s : Life} (hholds : s.Holds fileName xs) {a : Start Url}
    (hmode : a.matchMode = .sequentialStrict) {dir : Dir String} {service : ReplayService}
    (hstart : step C cassetteDir name s (.start a) = replaying dir service)
    (hbodies : ∀ x ∈ xs, x.request.parsedJson.isSome) :
    List.Forall₂ (fun x answer => ∃ response, answer = .ok response ∧ x.Faithful response) xs
        (service.answers C.sha256 (xs.map Exchange.request)) ∧
      ∀ q : ObservedRequest, q.parsedJson.isSome →
        ∃ diagnostic, ((Runs.run (ReplayService.step C.sha256) service
            (xs.map Exchange.request)).handleChatCompletions C.sha256 q).1 =
          .error (.mismatch diagnostic) ∧ diagnostic.position = .exhausted xs.length := by
  obtain ⟨c, engine, hdecoded, hnew, rfl⟩ := start_replaying hname hstart
  rw [hmode] at hnew
  exact ReplayService.answers_new C.sha256 hbodies hnew
    ((hholds.file.decoded c hdecoded).imp fun x i hx => Exchange.Recorded.answer hx)

/-- **No answer is invented.**  Whatever happens over a life, whenever a request is answered the
answer is what an exchange brought that had been persisted before, of a request with the same
hash. -/
theorem answer_of_persisted (hjson : C.json.Lawful)
    (hname : cassetteName (Path.join cassetteDir name) = .ok fileName) {dir : Dir String}
    (hempty : ∀ c, Session.decoded C.json fileName dir = some c → c.interactions = [])
    (es : List (Event C Url)) {q : ObservedRequest} {response : ReplayResponse}
    (h : (Runs.run (step C cassetteDir name) (stopped dir) es).answer C q = some (.ok response)) :
    ∃ x ∈ Runs.collect (step C cassetteDir name) persisted (stopped dir) es,
      ReplayService.hashOf C.sha256 q = ReplayService.hashOf C.sha256 x.request ∧
        x.Faithful response := by
  have hholds := holds_run hjson hname hempty es
  cases hs : Runs.run (step C cassetteDir name) (stopped dir) es with
  | stopped dir' => simp [hs, answer] at h
  | recording r => simp [hs, answer] at h
  | replaying dir' service =>
    rw [hs] at h hholds
    simp only [answer, Option.some.injEq] at h
    obtain ⟨-, idx, hanswered⟩ := ReplayService.of_handle_ok h
    obtain ⟨-, i, hi, hhash⟩ := hanswered.spec
    obtain ⟨response', j, hok, hpeek, hbuilt⟩ := hanswered
    obtain ⟨-, hj, -⟩ := ReplayMatchEngine.matched_of_peekMatch hpeek
    obtain rfl : i = j := Option.some.inj (hi.symm.trans hj)
    obtain rfl : response = response' := Except.ok.inj (h.symm.trans hok)
    obtain ⟨x, hx, hrecorded⟩ := exists_getElem?_of_forall₂ hholds.2 hi
    obtain ⟨hstable, own, hown, hfaithful⟩ := hrecorded.answer
    obtain rfl := responseFromRecorded_inj hbuilt hown
    exact ⟨x, List.mem_of_getElem? hx, Option.some.inj (hhash.symm.trans hstable), hfaithful⟩

/-- What was recorded of an exchange answers its request. -/
theorem answer_of_persisted_buffered :
    ∃ response, (Runs.run (step exact "llm" "a.json") (stopped fun _ => none)
        (session (.calm .record) [buffered] ++ [.start (.calm .replay)])).answer exact
          buffered.request = some (.ok response) ∧
      ∃ x ∈ Runs.collect (step exact "llm" "a.json") persisted (stopped fun _ => none)
          (session (.calm .record) [buffered] ++ [.start (.calm .replay)]),
        ReplayService.hashOf Sha256.digest buffered.request =
            ReplayService.hashOf Sha256.digest x.request ∧ x.Faithful response := by
  have hname : cassetteName (Path.join "llm" "a.json") = .ok "a.json" := by decide
  have hempty : ∀ c, Session.decoded .exact "a.json" (fun _ => none) = some c →
      c.interactions = [] := by
    intro c hc
    simp [Session.decoded, content] at hc
  obtain ⟨hcollect, dir, service, hrun⟩ := buffered_replaying
  have hheld := holds_run SerdeJson.exact_lawful hname hempty (session (.calm .record) [buffered])
  rw [hcollect] at hheld
  have hstart := hrun
  rw [Runs.run_concat] at hstart
  obtain ⟨hanswers, -⟩ := replays_of_holds hname hheld rfl hstart
    (List.forall_mem_singleton.2 rfl)
  obtain ⟨_, _, ⟨response, rfl, -⟩, -, hservice⟩ := List.forall₂_cons_left_iff.1 hanswers
  have hok : (Runs.run (step exact "llm" "a.json") (stopped fun _ => none)
      (session (.calm .record) [buffered] ++ [.start (.calm .replay)])).answer exact
        buffered.request = some (.ok response) := by
    rw [hrun]
    exact congrArg some (List.cons.inj hservice).1
  exact ⟨response, hok, answer_of_persisted SerdeJson.exact_lawful hname hempty _ hok⟩

/-- **Nothing that was persisted is lost.**  Whatever happened over a life, a replay that is then
started in sequential mode answers the requests of all that was persisted, in order, each with what
its exchange brought; and it tells the next one that the cassette is exhausted. -/
theorem replays_persisted (hjson : C.json.Lawful)
    (hname : cassetteName (Path.join cassetteDir name) = .ok fileName) {dir dir' : Dir String}
    (hempty : ∀ c, Session.decoded C.json fileName dir = some c → c.interactions = [])
    (es : List (Event C Url)) {a : Start Url} (hmode : a.matchMode = .sequentialStrict)
    {service : ReplayService} {xs : List (Exchange C)}
    (hxs : Runs.collect (step C cassetteDir name) persisted (stopped dir) es = xs)
    (hbodies : ∀ x ∈ xs, x.request.parsedJson.isSome)
    (hstart : Runs.run (step C cassetteDir name) (stopped dir) (es ++ [.start a]) =
      replaying dir' service) :
    List.Forall₂ (fun x answer => ∃ response, answer = .ok response ∧ x.Faithful response) xs
        (service.answers C.sha256 (xs.map Exchange.request)) ∧
      ∀ q : ObservedRequest, q.parsedJson.isSome →
        ∃ diagnostic, ((Runs.run (ReplayService.step C.sha256) service
            (xs.map Exchange.request)).handleChatCompletions C.sha256 q).1 =
          .error (.mismatch diagnostic) ∧ diagnostic.position = .exhausted xs.length := by
  have hholds := holds_run hjson hname hempty es
  rw [hxs] at hholds
  rw [Runs.run_concat] at hstart
  exact replays_of_holds hname hholds hmode hstart hbodies

/-- It answers it once. -/
theorem replays_persisted_buffered :
    ∃ service : ReplayService, List.Forall₂
        (fun x answer => ∃ response, answer = .ok response ∧ Exchange.Faithful x response)
        [buffered] (service.answers Sha256.digest [buffered.request]) ∧
      ∃ diagnostic, ((Runs.run (ReplayService.step Sha256.digest) service
          [buffered.request]).handleChatCompletions Sha256.digest buffered.request).1 =
        .error (.mismatch diagnostic) ∧ diagnostic.position = .exhausted 1 := by
  have hname : cassetteName (Path.join "llm" "a.json") = .ok "a.json" := by decide
  obtain ⟨hcollect, dir, service, hrun⟩ := buffered_replaying
  have hempty : ∀ c, Session.decoded .exact "a.json" (fun _ => none) = some c →
      c.interactions = [] := by
    intro c hc
    simp [Session.decoded, content] at hc
  obtain ⟨hanswers, hend⟩ := replays_persisted SerdeJson.exact_lawful hname hempty _ rfl hcollect
    (List.forall_mem_singleton.2 rfl) hrun
  exact ⟨service, hanswers, hend buffered.request rfl⟩

/-! ### Files that are no cassettes -/

/-- Nothing runs on the file, and it is as it was. -/
def Untouched (fileName : String) (bytes : Bytes) : Life → Prop
  | stopped dir => content dir fileName = some bytes
  | recording _ => False
  | replaying _ _ => False

/-- **A file that cannot be read as a cassette is left alone**, whatever happens: no process starts
on it, to record or to replay, and its bytes stay as they are. -/
theorem unreadable_kept (hjson : C.json.Lawful)
    (hname : cassetteName (Path.join cassetteDir name) = .ok fileName) {dir : Dir String}
    {bytes : Bytes} {e : HarnessError} (hfile : content dir fileName = some bytes)
    (hread : Cassette.fromReader C.json bytes = .error e) (es : List (Event C Url)) :
    (Runs.run (step C cassetteDir name) (stopped dir) es).Untouched fileName bytes := by
  refine @Runs.run_invariant _ _ _ (fun _ _ => True) (Untouched fileName bytes) ?_ (stopped dir)
    hfile es (Runs.along_of_forall (fun _ _ => trivial) _)
  intro s e h _
  cases s with
  | recording r => exact h.elim
  | replaying dir service => exact h.elim
  | stopped dir =>
    replace h : content dir fileName = some bytes := h
    cases e with
    | start a =>
      have hkept := (begin_keeps hname hjson a dir).done.unreadable bytes _ h hread
      have hnone := begin_unreadable hname hjson (a := a) h hread
      simp only [step, Life.dir]
      cases hbegin : begin C cassetteDir name a dir with
      | mk ops result =>
        rw [hbegin] at hkept hnone
        cases result with
        | error e => exact hkept
        | ok running => exact (hnone running rfl).elim
    | killedStart a after => exact (begin_keeps hname hjson a dir after).unreadable bytes _ h hread
    | exchange x => exact h
    | killedExchange x after => exact h
    | request q => exact h
    | shutdown => exact h

/-- A document with a field twice is no cassette. -/
theorem unreadable_kept_twice :
    let version : String × Json := ("format_version", .number (.posInt 1))
    let bytes := SerdeJson.exact.toWriterPretty
      (.object [version, version, ("interactions", .array [])])
    (Runs.run (step exact "llm" "a.json") (stopped fun _ => some ⟨bytes, 0o644⟩)
      [.start (.calm .record), .killedStart (.calm .record) 1, .start (.calm .replay)]).Untouched
        "a.json" bytes := by
  intro version bytes
  have hread : Cassette.fromReader .exact bytes = .error (.invalidCassette .malformed) := by
    rw [Cassette.fromReader, SerdeJson.exact_read_toWriterPretty]
    rfl
  exact unreadable_kept SerdeJson.exact_lawful (by decide) rfl hread _

end Life

end SpycatcherHarness
