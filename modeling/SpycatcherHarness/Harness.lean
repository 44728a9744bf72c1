import SpycatcherHarness.Cassette.Location
import SpycatcherHarness.Replay
import SpycatcherHarness.Server.History

/-!
# Starting a harness

`start_harness` checks the configuration, prepares the cassette for the mode, and starts the server
of the mode.  On the way record mode opens the cassette three times, each time through the path, and
once writes it back to see whether it can.

* `startHarness_keeps` : wherever it stops, nothing recorded is lost.
* `startHarness_record`, `startHarness_replay` : what it has started.
* `startHarness_starts_iff` : when it succeeds.
-/

namespace SpycatcherHarness

open Files Store

/-! ### Openings -/

/-- One opening of a cassette: what the operating system answers on the way to its directory, and
which steps on the file fail. -/
structure Opening where
  os : DirectoryCalls Unit
  faults : Faults

/-- One effect and, if it succeeds, another. -/
def Effect.andThen {α β : Type} (dir : Dir String) (effect : Effect α)
    (next : α → Dir String → Effect β) : Effect β :=
  match effect.2 with
  | .error e => (effect.1, .error e)
  | .ok a =>
    (effect.1 ++ (next a (applyAll dir effect.1)).1, (next a (applyAll dir effect.1)).2)

variable (S : SerdeJson)

/-- `open_or_create_for_record`. -/
def openOrCreateAt (opening : Opening) (path : String) (dir : Dir String) : Effect Store :=
  match openRootedParent opening.os path true with
  | .error e => ([], .error e)
  | .ok (_, fileName) => openOrCreateForRecord S opening.faults dir fileName

/-- `open_existing`. -/
def openExistingAt (opening : Opening) (path : String) (dir : Dir String) : HarnessResult Store :=
  match openRootedParent opening.os path false with
  | .error (.io .notFound) =>
    match cassetteName path with
    | .error e => .error e
    | .ok name => .error (.cassetteNotFound name)
  | .error e => .error e
  | .ok (_, fileName) => openForReplay S opening.faults dir fileName

/-- `probe_record_write_access`. -/
def probeAt (opening : Opening) (written : Faults) (path : String) (dir : Dir String) :
    Effect Unit :=
  Effect.andThen dir (openOrCreateAt S opening path dir) fun store dir => flush S written dir store

/-! ### Starting -/

/-- `HarnessError` as `start_harness` returns it. -/
inductive StartError where
  | harness (error : HarnessError)
  | modeNotYetImplemented (mode : String)
  deriving DecidableEq

/-- What happens around a start. -/
structure StartEnvironment where
  /-- The opening of `prepare_cassette`. -/
  prepare : Opening
  /-- The opening of the probe, and the write that follows. -/
  probe : Opening
  written : Faults
  /-- The opening of the server. -/
  serve : Opening
  /-- `ReqwestUpstreamClient::new`. -/
  client : HarnessResult Unit
  /-- `bind_listener`. -/
  bind : Except IoErrorKind Unit

/-- What `start_harness` has started. -/
inductive RunningHarness where
  | record (recorder : Recorder)
  | replay (service : ReplayService)

variable {Url : Type}

/-- `RecordAppState::from_config`. -/
def Recorder.fromConfig (cfg : HarnessConfig Url) (client : HarnessResult Unit) (dir : Dir String)
    (store : Store) : HarnessResult Recorder :=
  match cfg.upstream with
  | none => .error (.invalidConfig "upstream configuration is required for record mode")
  | some _ => client.map fun _ => ⟨dir, store, false, 0, 0⟩

/-- `ReplayAppState::from_config`. -/
def ReplayService.fromConfig (matchMode : MatchMode) (store : Store) :
    HarnessResult ReplayService :=
  (ReplayMatchEngine.new store.cassette matchMode).map ReplayService.new

/-- `prepare_cassette`. -/
def prepareCassette (env : StartEnvironment) (mode : Mode) (path : String) (dir : Dir String) :
    Effect Unit :=
  match mode with
  | .record =>
    Effect.andThen dir (openOrCreateAt S env.prepare path dir) fun _ dir =>
      probeAt S env.probe env.written path dir
  | .replay | .verify => ([], (openExistingAt S env.prepare path dir).map fun _ => ())

/-- `start_record_server`. -/
def startRecordServer (env : StartEnvironment) (cfg : HarnessConfig Url) (path : String)
    (dir : Dir String) : Effect Recorder :=
  Effect.andThen dir (openOrCreateAt S env.serve path dir) fun store dir => ([], do
    let state ← Recorder.fromConfig cfg env.client dir store
    env.bind.mapError .io
    .ok state)

/-- `start_replay_server`. -/
def startReplayServer (env : StartEnvironment) (matchMode : MatchMode) (path : String)
    (dir : Dir String) : HarnessResult ReplayService := do
  let store ← openExistingAt S env.serve path dir
  let state ← ReplayService.fromConfig matchMode store
  env.bind.mapError .io
  .ok state

/-- `start_harness`: what it does to the cassette's directory, and what it returns. -/
def startHarness (env : StartEnvironment) (matchMode : MatchMode) (cfg : HarnessConfig Url)
    (dir : Dir String) : List (Op String) × Except StartError RunningHarness :=
  match validateConfig cfg with
  | .error e => ([], .error (.harness e))
  | .ok () =>
    match prepareCassette S env cfg.mode cfg.cassettePath dir with
    | (ops, .error e) => (ops, .error (.harness e))
    | (ops, .ok ()) =>
      match cfg.mode with
      | .record =>
        let (ops', result) := startRecordServer S env cfg cfg.cassettePath (applyAll dir ops)
        (ops ++ ops', (result.map .record).mapError .harness)
      | .replay =>
        (ops, ((startReplayServer S env matchMode cfg.cassettePath (applyAll dir ops)).map
          .replay).mapError .harness)
      | .verify => (ops, .error (.modeNotYetImplemented "Verify"))

/-! ### What is kept -/

/-- What starting leaves of the cassette file: it holds what it held, it can be read if it could,
and a file that cannot be read is not touched. -/
structure Keeps (C : RecordConfig) (fileName : String) (dir dir' : Dir String) : Prop where
  holds : ∀ xs : List (Exchange C), FileHolds fileName xs dir → FileHolds fileName xs dir'
  readable : ∀ c, Session.decoded C.json fileName dir = some c →
    ∃ c', Session.decoded C.json fileName dir' = some c'
  unreadable : ∀ bytes e, content dir fileName = some bytes →
    Cassette.fromReader C.json bytes = .error e → content dir' fileName = some bytes

section
variable {S} {C : RecordConfig} {fileName path : String} {dir dir' : Dir String}

theorem Keeps.of_content (h : content dir' fileName = content dir fileName) :
    Keeps C fileName dir dir' := by
  refine ⟨fun xs hxs => hxs.congr h, fun c hc => ⟨c, ?_⟩, fun bytes e hfile _ => h.trans hfile⟩
  rwa [Session.decoded_congr h]

theorem Keeps.trans (dir dir' dir'' : Dir String) (h : Keeps C fileName dir dir')
    (h' : Keeps C fileName dir' dir'') : Keeps C fileName dir dir'' := by
  refine ⟨fun xs hxs => h'.holds xs (h.holds xs hxs), fun c hc => ?_, fun bytes e hfile he => ?_⟩
  · obtain ⟨c', hc'⟩ := h.readable c hc
    exact h'.readable c' hc'
  · exact h'.unreadable bytes e (h.unreadable bytes e hfile he) he

theorem throughout_nil : Throughout (Keeps C fileName) dir [] := by
  intro k
  rw [List.take_nil]
  exact .of_content rfl

/-- What holds throughout two effects, one after the other. -/
theorem throughout_andThen {α β : Type} {effect : Effect α} {next : α → Dir String → Effect β}
    (h : Throughout (Keeps C fileName) dir effect.1)
    (h' : ∀ a, effect.2 = .ok a →
      Throughout (Keeps C fileName) (applyAll dir effect.1) (next a (applyAll dir effect.1)).1) :
    Throughout (Keeps C fileName) dir (Effect.andThen dir effect next).1 := by
  unfold Effect.andThen
  cases hresult : effect.2 with
  | error e => exact h
  | ok a => exact h.append .trans (h' a hresult)

theorem andThen_eq_ok {α β : Type} {effect : Effect α} {next : α → Dir String → Effect β} {b : β}
    (h : (Effect.andThen dir effect next).2 = .ok b) :
    ∃ a, effect.2 = .ok a ∧ (next a (applyAll dir effect.1)).2 = .ok b ∧
      (Effect.andThen dir effect next).1 =
        effect.1 ++ (next a (applyAll dir effect.1)).1 := by
  unfold Effect.andThen at h ⊢
  cases hresult : effect.2 with
  | error e => simp [hresult] at h
  | ok a =>
    simp only [hresult] at h
    exact ⟨a, rfl, h, rfl⟩

/-! ### Opening for recording -/

/-- The file that is opened is the one that the path names. -/
theorem fileName_of_openRootedParent {os : DirectoryCalls Unit} {create : Bool} {handle : Unit}
    {file : String} (h : openRootedParent os path create = .ok (handle, file)) :
    cassetteName path = .ok file := by
  unfold openRootedParent at h
  simp only [bind_eq_ok_iff, Except.ok.injEq, Prod.mk.injEq] at h
  obtain ⟨_, -, name, hname, _, -, _, -, -, rfl⟩ := h
  exact hname

/-- A store has been opened for recording: it is on the file, its cassette can be stored and holds
what the file holds. -/
structure Opened (C : RecordConfig) (fileName : String) (dir : Dir String) (store : Store) :
    Prop where
  name : store.fileName = fileName
  storable : store.cassette.Storable
  holds : ∀ xs : List (Exchange C), FileHolds fileName xs dir → store.cassette.Holds xs
  readable : ∃ c, Session.decoded C.json fileName dir = some c

/-- Opening for recording keeps the file wherever it stops. -/
theorem keeps_openOrCreateAt (hjson : C.json.Lawful) (opening : Opening)
    (hname : cassetteName path = .ok fileName) (dir : Dir String) :
    Throughout (Keeps C fileName) dir (openOrCreateAt C.json opening path dir).1 := by
  unfold openOrCreateAt
  cases hopen : openRootedParent opening.os path true with
  | error e => exact throughout_nil
  | ok opened =>
    obtain ⟨handle, file⟩ := opened
    obtain rfl : fileName = file :=
      Except.ok.inj (hname.symm.trans (fileName_of_openRootedParent hopen))
    intro k
    rcases openOrCreateForRecord_take C.json opening.faults dir fileName k with
      hsame | ⟨habsent, hnew⟩
    · exact .of_content hsame
    -- a file that was absent held nothing
    · refine ⟨fun xs hxs => ?_, fun c hc => ?_, fun bytes e hfile _ => ?_⟩
      · obtain rfl := hxs.absent habsent
        exact fileHolds_of_content hjson (c := .new) .nil rfl (by simp) hnew
      · simp [Session.decoded, habsent] at hc
      · rw [habsent] at hfile
        cases hfile

/-- What opening for recording opens. -/
theorem opened_openOrCreateAt (hjson : C.json.Lawful) {opening : Opening}
    (hname : cassetteName path = .ok fileName) {dir : Dir String} {store : Store}
    (h : (openOrCreateAt C.json opening path dir).2 = .ok store) :
    Opened C fileName (applyAll dir (openOrCreateAt C.json opening path dir).1) store := by
  unfold openOrCreateAt at h ⊢
  cases hopen : openRootedParent opening.os path true with
  | error e => simp [hopen] at h
  | ok opened =>
    obtain ⟨handle, file⟩ := opened
    obtain rfl : fileName = file :=
      Except.ok.inj (hname.symm.trans (fileName_of_openRootedParent hopen))
    simp only [hopen] at h ⊢
    rcases openOrCreateForRecord_spec C.json opening.faults dir fileName with
      ⟨bytes, c, hfile, hread, heq⟩ | ⟨ops, habsent, heq, hops⟩ | ⟨ops, e, heq, hops⟩
    · rw [heq] at h ⊢
      obtain rfl := Except.ok.inj h
      have hdecoded := Session.decoded_of_read hfile hread
      exact ⟨rfl, Cassette.storable_of_fromReader hread, fun xs hxs => hxs.decoded c hdecoded,
        c, hdecoded⟩
    · rw [heq] at h ⊢
      obtain rfl := Except.ok.inj h
      obtain ⟨c, hc, hreread⟩ := Cassette.storable_new.fromReader_writeTo hjson
      have hdecoded := Session.decoded_of_read hops hc
      refine ⟨rfl, Cassette.storable_new, fun xs hxs => ?_, c, hdecoded⟩
      -- the new document holds nothing
      have hnone : c.interactions = [] := List.forall₂_nil_left_iff.1 hreread.interactions
      have hheld := hxs.decoded c hdecoded
      rw [Cassette.Holds, hnone, List.forall₂_nil_right_iff] at hheld
      rw [hheld]
      exact .nil
    · rw [heq] at h
      cases h

/-- Writing an opened store back keeps the file wherever it stops. -/
theorem Opened.keeps_flush (hjson : C.json.Lawful) {store : Store}
    (h : Opened C fileName dir store) (faults : Faults) :
    Throughout (Keeps C fileName) dir (flush C.json faults dir store).1 := by
  intro k
  have htake := content_flush_take C.json faults dir store k
  rw [h.name] at htake
  rcases htake with hsame | hwritten
  · exact .of_content hsame
  · refine ⟨fun xs hxs => ?_, fun c _ => ?_, fun bytes e hfile he => ?_⟩
    · exact fileHolds_of_content hjson (h.holds xs hxs) h.storable.formatVersion
        (fun i hi => (h.storable.interactions i hi).1) hwritten
    · obtain ⟨c', hc', -⟩ := h.storable.fromReader_writeTo hjson
      exact ⟨c', Session.decoded_of_read hwritten hc'⟩
    -- the file has just been read
    · obtain ⟨c, hc⟩ := h.readable
      simp [Session.decoded, hfile, he, Except.toOption] at hc

end

/-! ### Starting, wherever it stops -/

section
variable {C : RecordConfig} {fileName : String}

theorem keeps_probeAt (hjson : C.json.Lawful) {path : String}
    (hname : cassetteName path = .ok fileName) (opening : Opening) (written : Faults)
    (dir : Dir String) :
    Throughout (Keeps C fileName) dir (probeAt C.json opening written path dir).1 :=
  throughout_andThen (keeps_openOrCreateAt hjson opening hname dir) fun _ hstore =>
    (opened_openOrCreateAt hjson hname hstore).keeps_flush hjson written

theorem keeps_prepareCassette (hjson : C.json.Lawful) {path : String}
    (hname : cassetteName path = .ok fileName) (env : StartEnvironment) (mode : Mode)
    (dir : Dir String) :
    Throughout (Keeps C fileName) dir (prepareCassette C.json env mode path dir).1 := by
  cases mode with
  | record =>
    exact throughout_andThen (keeps_openOrCreateAt hjson env.prepare hname dir) fun _ _ =>
      keeps_probeAt hjson hname env.probe env.written _
  | replay => exact throughout_nil
  | verify => exact throughout_nil

theorem keeps_startRecordServer (hjson : C.json.Lawful) {path : String}
    (hname : cassetteName path = .ok fileName) (env : StartEnvironment) (cfg : HarnessConfig Url)
    (dir : Dir String) :
    Throughout (Keeps C fileName) dir (startRecordServer C.json env cfg path dir).1 :=
  throughout_andThen (keeps_openOrCreateAt hjson env.serve hname dir) fun _ _ => throughout_nil

/-- What record mode has started. -/
theorem started_startRecordServer (hjson : C.json.Lawful) {path : String}
    (hname : cassetteName path = .ok fileName) {env : StartEnvironment} {cfg : HarnessConfig Url}
    {dir : Dir String} {r : Recorder}
    (h : (startRecordServer C.json env cfg path dir).2 = .ok r) :
    r.dir = applyAll dir (startRecordServer C.json env cfg path dir).1 ∧ r.poisoned = false ∧
      Opened C fileName r.dir r.store := by
  obtain ⟨store, hstore, hstate, hops⟩ := andThen_eq_ok h
  rw [startRecordServer, hops, List.append_nil]
  simp only [bind_eq_ok_iff, mapError_eq_ok_iff, Except.ok.injEq] at hstate
  obtain ⟨state, hfrom, _, -, rfl⟩ := hstate
  unfold Recorder.fromConfig at hfrom
  cases hupstream : cfg.upstream with
  | none => simp [hupstream] at hfrom
  | some upstream =>
    cases hclient : env.client with
    | error e => simp [hupstream, hclient, Except.map] at hfrom
    | ok client =>
      simp only [hupstream, hclient, Except.map, Except.ok.injEq] at hfrom
      subst hfrom
      exact ⟨rfl, rfl, opened_openOrCreateAt hjson hname hstore⟩

/-- **Nothing recorded is lost in a start**, whatever the configuration and the mode, wherever the
program stops and whatever fails: the file holds what it held and can be read if it could, and a
file that cannot be read is left as it is. -/
theorem startHarness_keeps (hjson : C.json.Lawful) {cfg : HarnessConfig Url}
    (hname : cassetteName cfg.cassettePath = .ok fileName) (env : StartEnvironment)
    (matchMode : MatchMode) (dir : Dir String) :
    Throughout (Keeps C fileName) dir (startHarness C.json env matchMode cfg dir).1 := by
  have hprepare := keeps_prepareCassette hjson hname env cfg.mode dir
  unfold startHarness
  cases validateConfig cfg with
  | error e => exact throughout_nil
  | ok _ =>
    cases hprepared : prepareCassette C.json env cfg.mode cfg.cassettePath dir with
    | mk ops result =>
      rw [hprepared] at hprepare
      cases result with
      | error e => exact hprepare
      | ok _ =>
        cases hmode : cfg.mode with
        | record =>
          exact hprepare.append .trans (keeps_startRecordServer hjson hname env cfg _)
        | replay => exact hprepare
        | verify => exact hprepare

end

/-! ### What has been started -/

section
variable {C : RecordConfig} {fileName : String} {cfg : HarnessConfig Url} {env : StartEnvironment}
  {matchMode : MatchMode} {dir : Dir String}

/-- A start that succeeds has prepared the cassette and started the server of its mode. -/
theorem startHarness_eq_ok {S : SerdeJson} {running : RunningHarness}
    (h : (startHarness S env matchMode cfg dir).2 = .ok running) :
    validateConfig cfg = .ok () ∧
      (prepareCassette S env cfg.mode cfg.cassettePath dir).2 = .ok () ∧
      ((cfg.mode = .record ∧ ∃ r, running = .record r ∧
        (startRecordServer S env cfg cfg.cassettePath
          (applyAll dir (prepareCassette S env cfg.mode cfg.cassettePath dir).1)).2 = .ok r ∧
        (startHarness S env matchMode cfg dir).1 =
          (prepareCassette S env cfg.mode cfg.cassettePath dir).1 ++
          (startRecordServer S env cfg cfg.cassettePath
            (applyAll dir (prepareCassette S env cfg.mode cfg.cassettePath dir).1)).1) ∨
      (cfg.mode = .replay ∧ ∃ service, running = .replay service ∧
        startReplayServer S env matchMode cfg.cassettePath dir = .ok service ∧
        (startHarness S env matchMode cfg dir).1 = [])) := by
  unfold startHarness at h ⊢
  cases hvalid : validateConfig cfg with
  | error e => simp [hvalid] at h
  | ok _ =>
    simp only [hvalid] at h ⊢
    cases hprepared : prepareCassette S env cfg.mode cfg.cassettePath dir with
    | mk ops result =>
      rw [hprepared] at h
      cases result with
      | error e => simp at h
      | ok _ =>
        simp only at h ⊢
        refine ⟨trivial, trivial, ?_⟩
        cases hmode : cfg.mode with
        | record =>
          simp only [hmode, mapError_eq_ok_iff] at h
          cases hserver : (startRecordServer S env cfg cfg.cassettePath (applyAll dir ops)).2 with
          | error e => simp [hserver, Except.map] at h
          | ok r =>
            simp only [hserver, Except.map, Except.ok.injEq] at h
            exact .inl ⟨rfl, r, h.symm, rfl, rfl⟩
        | replay =>
          -- preparing a replay only reads
          have hops : ops = [] := by
            rw [hmode] at hprepared
            exact (congrArg Prod.fst hprepared).symm
          subst hops
          simp only [hmode, mapError_eq_ok_iff, applyAll_nil] at h
          cases hserver : startReplayServer S env matchMode cfg.cassettePath dir with
          | error e => simp [hserver, Except.map] at h
          | ok service =>
            simp only [hserver, Except.map, Except.ok.injEq] at h
            exact .inr ⟨rfl, service, h.symm, rfl, rfl⟩
        | verify => simp [hmode] at h

/-- What opening for replay opens. -/
theorem decoded_of_openExistingAt {S : SerdeJson} {opening : Opening} {path : String}
    (hname : cassetteName path = .ok fileName) {store : Store}
    (h : openExistingAt S opening path dir = .ok store) :
    Session.decoded S fileName dir = some store.cassette := by
  unfold openExistingAt at h
  cases hopen : openRootedParent opening.os path false with
  | error e =>
    simp only [hopen] at h
    split at h
    · split at h <;> cases h
    · cases h
    · rename_i heq
      cases heq
  | ok opened =>
    obtain ⟨handle, file⟩ := opened
    obtain rfl : fileName = file :=
      Except.ok.inj (hname.symm.trans (fileName_of_openRootedParent hopen))
    simp only [hopen, openForReplay] at h
    split_ifs at h
    cases hfile : dir fileName with
    | none => simp [hfile] at h
    | some file =>
      cases hread : Cassette.fromReader S file.content with
      | error e => simp [hfile, hread, Except.map] at h
      | ok c =>
        obtain rfl : (⟨fileName, c⟩ : Store) = store := by simpa [hfile, hread, Except.map] using h
        exact Session.decoded_of_read (by rw [content, hfile]; rfl) hread

/-- **What record mode starts with**: a service whose store is on the file and holds what that
holds. -/
theorem startHarness_record (hjson : C.json.Lawful)
    (hname : cassetteName cfg.cassettePath = .ok fileName) {r : Recorder}
    (h : (startHarness C.json env matchMode cfg dir).2 = .ok (.record r)) :
    cfg.mode = .record ∧ r.dir = applyAll dir (startHarness C.json env matchMode cfg dir).1 ∧
      r.poisoned = false ∧ Opened C fileName r.dir r.store ∧
      ∀ xs : List (Exchange C), FileHolds fileName xs dir → r.Holds fileName xs := by
  have hkeeps := (startHarness_keeps hjson hname env matchMode dir).done
  obtain ⟨-, -, ⟨hmode, r', heq, hserver, hops⟩ | ⟨-, _, heq, -⟩⟩ := startHarness_eq_ok h
  · cases heq
    obtain ⟨hdir, hlock, hopened⟩ := started_startRecordServer hjson hname hserver
    rw [hops, applyAll_append, ← hdir] at hkeeps ⊢
    refine ⟨hmode, rfl, hlock, hopened, fun xs hxs => ?_⟩
    have hfile := hkeeps.holds xs hxs
    exact ⟨hlock, hopened.name, hopened.storable.formatVersion,
      fun i hi => (hopened.storable.interactions i hi).1, hopened.holds xs hfile, hfile⟩
  · cases heq

/-- **What replay mode starts with**: the cassette that the file decodes to, of which nothing has
been replayed.  The directory is not touched. -/
theorem startHarness_replay {S : SerdeJson} (hname : cassetteName cfg.cassettePath = .ok fileName)
    {service : ReplayService}
    (h : (startHarness S env matchMode cfg dir).2 = .ok (.replay service)) :
    cfg.mode = .replay ∧ (startHarness S env matchMode cfg dir).1 = [] ∧
      ∃ c engine, Session.decoded S fileName dir = some c ∧
        ReplayMatchEngine.new c matchMode = .ok engine ∧ service = .new engine := by
  obtain ⟨-, -, ⟨-, _, heq, -⟩ | ⟨hmode, service', heq, hserver, hops⟩⟩ := startHarness_eq_ok h
  · cases heq
  · cases heq
    refine ⟨hmode, hops, ?_⟩
    unfold startReplayServer at hserver
    simp only [bind_eq_ok_iff, mapError_eq_ok_iff, Except.ok.injEq] at hserver
    obtain ⟨store, hstore, state, hstate, _, -, rfl⟩ := hserver
    unfold ReplayService.fromConfig at hstate
    cases hengine : ReplayMatchEngine.new store.cassette matchMode with
    | error e => simp [hengine, Except.map] at hstate
    | ok engine =>
      simp only [hengine, Except.map, Except.ok.injEq] at hstate
      exact ⟨store.cassette, engine, decoded_of_openExistingAt hname hstore, hengine,
        hstate.symm⟩

end

/-! ### When a start succeeds -/

/-- Nothing fails around a start: the directory can be opened each time, no step on the file fails,
and the client and the listener can be made. -/
structure StartEnvironment.Calm (env : StartEnvironment) (cfg : HarnessConfig Url)
    (fileName : String) : Prop where
  prepare : openRootedParent env.prepare.os cfg.cassettePath (cfg.mode = .record) =
    .ok ((), fileName)
  probe : openRootedParent env.probe.os cfg.cassettePath true = .ok ((), fileName)
  serve : openRootedParent env.serve.os cfg.cassettePath (cfg.mode = .record) = .ok ((), fileName)
  faultless : env.prepare.faults = .none ∧ env.probe.faults = .none ∧ env.written = .none ∧
    env.serve.faults = .none
  client : env.client = .ok ()
  bind : env.bind = .ok ()

/-- The file can be recorded on: there is none yet, or it can be read. -/
def Recordable (S : SerdeJson) (fileName : String) (dir : Dir String) : Prop :=
  content dir fileName = none ∨ ∃ c, Session.decoded S fileName dir = some c

section
variable {S : SerdeJson} {fileName path : String} {dir : Dir String} {opening : Opening}

/-- An opening in which nothing fails succeeds exactly on a file that can be recorded on. -/
theorem openOrCreateAt_ok_iff (hopen : openRootedParent opening.os path true = .ok ((), fileName))
    (hfaults : opening.faults = .none) :
    (∃ store, (openOrCreateAt S opening path dir).2 = .ok store) ↔ Recordable S fileName dir := by
  rw [openOrCreateAt, hopen, hfaults]
  simp only [Recordable, Session.decoded]
  cases hfile : content dir fileName with
  | none =>
    obtain ⟨ops, heq, -⟩ := openOrCreateForRecord_none_of_none S hfile
    simp [heq]
  | some bytes =>
    cases hread : Cassette.fromReader S bytes with
    | error e =>
      obtain ⟨file, hdir, rfl⟩ := Option.map_eq_some_iff.1 hfile
      simp [openOrCreateForRecord, Faults.none, hdir, hread, Except.map, Except.toOption]
    | ok c => simp [openOrCreateForRecord_none_of_some S hfile hread, hread, Except.toOption]

/-- An opening for replay in which nothing fails succeeds exactly on a file that can be read. -/
theorem openExistingAt_ok_iff (hopen : openRootedParent opening.os path false = .ok ((), fileName))
    (hfaults : opening.faults = .none) {store : Store} :
    openExistingAt S opening path dir = .ok store ↔
      ∃ c, Session.decoded S fileName dir = some c ∧ store = ⟨fileName, c⟩ := by
  simp only [openExistingAt, hopen, hfaults, openForReplay, Session.decoded, content]
  cases dir fileName with
  | none => simp [Faults.none]
  | some file =>
    cases hread : Cassette.fromReader S file.content with
    | error e => simp [Faults.none, hread, Except.map, Except.toOption]
    | ok c => simp [Faults.none, hread, Except.map, Except.toOption, eq_comm]

end

section
variable {C : RecordConfig} {fileName : String} {cfg : HarnessConfig Url} {env : StartEnvironment}
  {matchMode : MatchMode} {dir : Dir String}

theorem startRecordServer_calm (hcalm : env.Calm cfg fileName) (hmode : cfg.mode = .record)
    (hupstream : cfg.upstream.isSome) (hrecordable : Recordable C.json fileName dir) :
    ∃ r, (startRecordServer C.json env cfg cfg.cassettePath dir).2 = .ok r := by
  have hserve := hcalm.serve
  rw [hmode] at hserve
  obtain ⟨store, hstore⟩ :=
    (openOrCreateAt_ok_iff hserve hcalm.faultless.2.2.2).2 hrecordable
  obtain ⟨upstream, hsome⟩ := Option.isSome_iff_exists.1 hupstream
  simp [startRecordServer, Effect.andThen, hstore, Recorder.fromConfig, hsome, hcalm.client,
    hcalm.bind, Except.map, Except.mapError, bind, Except.bind]

/-- Preparing succeeds on a file that can be recorded on, and leaves one that can be read. -/
theorem prepareCassette_record_calm (hjson : C.json.Lawful) (hcalm : env.Calm cfg fileName)
    (hmode : cfg.mode = .record) (hname : cassetteName cfg.cassettePath = .ok fileName) :
    (prepareCassette C.json env cfg.mode cfg.cassettePath dir).2 = .ok () ↔
      Recordable C.json fileName dir := by
  have hprepare := hcalm.prepare
  rw [hmode] at hprepare ⊢
  rw [← openOrCreateAt_ok_iff hprepare hcalm.faultless.1]
  constructor
  · intro h
    obtain ⟨store, hstore, -⟩ := andThen_eq_ok h
    exact ⟨store, hstore⟩
  · rintro ⟨store, hstore⟩
    have hopened := opened_openOrCreateAt hjson hname hstore
    -- what the first opening leaves can be read, so the second one succeeds as well
    obtain ⟨store', hstore'⟩ :=
      (openOrCreateAt_ok_iff hcalm.probe hcalm.faultless.2.1).2 (.inr hopened.readable)
    simp [prepareCassette, Effect.andThen, hstore, probeAt, hstore', hcalm.faultless.2.2.1,
      flush_none]

/-- What has been prepared for recording can be read. -/
theorem readable_of_prepareCassette (hjson : C.json.Lawful)
    (hname : cassetteName cfg.cassettePath = .ok fileName) (hmode : cfg.mode = .record)
    (h : (prepareCassette C.json env cfg.mode cfg.cassettePath dir).2 = .ok ()) :
    ∃ c, Session.decoded C.json fileName
      (applyAll dir (prepareCassette C.json env cfg.mode cfg.cassettePath dir).1) = some c := by
  rw [hmode] at h ⊢
  obtain ⟨store, hstore, -, hops⟩ := andThen_eq_ok h
  obtain ⟨c, hc⟩ := (opened_openOrCreateAt hjson hname hstore).readable
  rw [prepareCassette, hops, applyAll_append]
  exact (keeps_probeAt hjson hname env.probe env.written _).done.readable c hc

/-- Nothing starts on a file that cannot be read. -/
theorem startHarness_unreadable (hjson : C.json.Lawful)
    (hname : cassetteName cfg.cassettePath = .ok fileName) {bytes : Bytes} {e : HarnessError}
    (hfile : content dir fileName = some bytes)
    (hread : Cassette.fromReader C.json bytes = .error e)
    (running : RunningHarness) : (startHarness C.json env matchMode cfg dir).2 ≠ .ok running := by
  intro h
  have hunread : ∀ dir', content dir' fileName = some bytes →
      Session.decoded C.json fileName dir' = none := by
    intro dir' hdir
    simp [Session.decoded, hdir, hread, Except.toOption]
  obtain ⟨-, hprepared, ⟨hmode, -⟩ | ⟨-, service, rfl, -⟩⟩ := startHarness_eq_ok h
  · obtain ⟨c, hc⟩ := readable_of_prepareCassette hjson hname hmode hprepared
    have hkept := (keeps_prepareCassette hjson hname env cfg.mode dir).done
    rw [hunread _ (hkept.unreadable bytes e hfile hread)] at hc
    cases hc
  · obtain ⟨-, -, c, engine, hdecoded, -⟩ := startHarness_replay hname h
    rw [hunread dir hfile] at hdecoded
    cases hdecoded

/-- Recording starts on a file that can be recorded on. -/
theorem startHarness_record_calm (hjson : C.json.Lawful) (hcalm : env.Calm cfg fileName)
    (hvalid : validateConfig cfg = .ok ()) (hmode : cfg.mode = .record)
    (hrecordable : Recordable C.json fileName dir) :
    ∃ r, (startHarness C.json env matchMode cfg dir).2 = .ok (.record r) := by
  have hname := fileName_of_openRootedParent hcalm.probe
  have hprepared := (prepareCassette_record_calm hjson hcalm hmode hname).2 hrecordable
  obtain ⟨r, hr⟩ := startRecordServer_calm hcalm hmode
    ((validateConfig_eq_ok_iff.1 hvalid).2.2.2 hmode)
    (.inr (readable_of_prepareCassette hjson hname hmode hprepared))
  refine ⟨r, ?_⟩
  unfold startHarness
  rw [hvalid]
  cases hpair : prepareCassette C.json env cfg.mode cfg.cassettePath dir with
  | mk ops result =>
    rw [hpair] at hprepared hr
    obtain rfl : result = .ok () := hprepared
    simp [hmode, hr, Except.map, Except.mapError]

/-- Replaying starts on a cassette whose requests have hashes. -/
theorem startHarness_replay_calm {S : SerdeJson} (hcalm : env.Calm cfg fileName)
    (hvalid : validateConfig cfg = .ok ()) (hmode : cfg.mode = .replay) {c : Cassette}
    (hdecoded : Session.decoded S fileName dir = some c)
    (hhashed : ∀ i ∈ c.interactions, i.request.stableHash.isSome) :
    ∃ service, startHarness S env matchMode cfg dir = ([], .ok (.replay service)) := by
  have hserve := hcalm.serve
  have hprepare := hcalm.prepare
  rw [hmode] at hserve hprepare
  obtain ⟨engine, hengine⟩ := ReplayMatchEngine.exists_new hhashed matchMode
  have hopen := (openExistingAt_ok_iff hprepare hcalm.faultless.1).2 ⟨c, hdecoded, rfl⟩
  have hopen' := (openExistingAt_ok_iff hserve hcalm.faultless.2.2.2).2 ⟨c, hdecoded, rfl⟩
  refine ⟨.new engine, ?_⟩
  simp [startHarness, hvalid, hmode, prepareCassette, hopen, startReplayServer, hopen',
    ReplayService.fromConfig, hengine, hcalm.bind, Except.map, Except.mapError, bind, Except.bind]

/-- **When a start succeeds**, where nothing around it fails: the configuration passes, and to
record, there is no cassette yet or it can be read; to replay, it can be read and each of its
requests has a hash.  A file that cannot be read stops either, and nothing starts to verify. -/
theorem startHarness_starts_iff (hjson : C.json.Lawful) (hcalm : env.Calm cfg fileName) :
    (∃ running, (startHarness C.json env matchMode cfg dir).2 = .ok running) ↔
      validateConfig cfg = .ok () ∧
        (cfg.mode = .record ∧ Recordable C.json fileName dir ∨
          cfg.mode = .replay ∧ ∃ c, Session.decoded C.json fileName dir = some c ∧
            ∀ i ∈ c.interactions, i.request.stableHash.isSome) := by
  have hname := fileName_of_openRootedParent hcalm.probe
  constructor
  · rintro ⟨running, h⟩
    obtain ⟨hvalid, hprepared, ⟨hmode, _⟩ | ⟨hmode, service, rfl, -⟩⟩ := startHarness_eq_ok h
    · exact ⟨hvalid, .inl ⟨hmode, (prepareCassette_record_calm hjson hcalm hmode hname).1
        hprepared⟩⟩
    · obtain ⟨-, -, c, engine, hdecoded, hnew, -⟩ := startHarness_replay hname h
      exact ⟨hvalid, .inr ⟨hmode, c, hdecoded, ReplayMatchEngine.hashed_of_new hnew⟩⟩
  · rintro ⟨hvalid, ⟨hmode, hrecordable⟩ | ⟨hmode, c, hdecoded, hhashed⟩⟩
    · obtain ⟨r, hr⟩ := startHarness_record_calm hjson hcalm hvalid hmode hrecordable
      exact ⟨.record r, hr⟩
    · obtain ⟨service, hservice⟩ := startHarness_replay_calm hcalm hvalid hmode hdecoded hhashed
      exact ⟨.replay service, congrArg Prod.snd hservice⟩

end

/-- Surroundings in which nothing fails. -/
def StartEnvironment.calm : StartEnvironment :=
  ⟨⟨.permissive, .none⟩, ⟨.permissive, .none⟩, .none, ⟨.permissive, .none⟩, .ok (), .ok ()⟩

theorem StartEnvironment.calm_calm {cfg : HarnessConfig Url} {fileName : String}
    (hname : cassetteName cfg.cassettePath = .ok fileName) : calm.Calm cfg fileName := by
  have hfile : Path.fileName cfg.cassettePath = some fileName := by
    unfold cassetteName at hname
    cases hfile : Path.fileName cfg.cassettePath with
    | none => simp [hfile] at hname
    | some name => simpa [hfile] using hname
  obtain ⟨above, hcomponents⟩ := Path.fileName_eq_some_iff.1 hfile
  have hopen : ∀ create, openRootedParent .permissive cfg.cassettePath create =
      .ok ((), fileName) := fun create => openRootedParent_eq_ok_iff.2
    ⟨above, hcomponents, (), rfl, fun _ _ => rfl, by split_ifs <;> rfl⟩
  exact ⟨hopen _, hopen _, hopen _, ⟨rfl, rfl, rfl, rfl⟩, rfl, rfl⟩

/-- A configuration that records starts where there is no cassette yet. -/
theorem startHarness_starts_fresh :
    let cfg : HarnessConfig Unit := ⟨.record, "fixtures/llm", "a.json", some ⟨(), ⟨[], by decide⟩⟩⟩
    ∃ running, (startHarness .exact .calm .keyed cfg fun _ => none).2 = .ok running :=
  (@startHarness_starts_iff _ ⟨.exact, Sha256.digest, .default⟩ "a.json" _ _ _ _
    SerdeJson.exact_lawful (StartEnvironment.calm_calm (by decide))).2
      ⟨by decide, .inl ⟨rfl, .inl rfl⟩⟩

end SpycatcherHarness
