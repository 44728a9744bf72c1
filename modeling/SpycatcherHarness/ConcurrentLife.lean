import SpycatcherHarness.ConcurrentFidelity
import SpycatcherHarness.Lifetime

/-!
# The life of a cassette whose services are cloned

One process after another uses a cassette, as in `Life`, but now each serves its requests on clones
of its service, in any interleaving, and may be killed at any moment: between two steps of its
requests, or in the middle of the append of the request that has the lock.

* `Pool.Holds.step` : memory and file hold what has been persisted, after every step.
* `Pool.fileHolds_killed` : so does the file that a killed process leaves.
* `Host.holds_run` : the same over a whole life.
* `Host.clones_replay_persisted` : clones that replay give out what was persisted over that life.
-/

namespace SpycatcherHarness

open Files Store

/-! ### A process that records -/

namespace Pool

variable {C : RecordConfig} {fileName : String} {xs : List (Exchange C)} {s : Pool C}

/-- Memory and file hold the exchanges. -/
structure Holds (fileName : String) (xs : List (Exchange C)) (s : Pool C) : Prop where
  recorded : ∃ dir store takers entries counts, store.fileName = fileName ∧
    Recorded dir store takers entries counts s
  formatVersion : s.store.cassette.formatVersion = supportedFormatVersion
  wf : ∀ i ∈ s.store.cassette.interactions, i.Wf
  memory : s.store.cassette.Holds xs
  file : FileHolds fileName xs s.dir

theorem holds_start {r : Recorder} (h : r.Holds fileName xs) :
    (start r.dir r.store).Holds fileName xs where
  recorded := ⟨r.dir, r.store, [], [], [], h.name, recorded_start r.dir r.store⟩
  formatVersion := h.formatVersion
  wf := h.wf
  memory := h.memory
  file := h.file

theorem Holds.name (h : s.Holds fileName xs) : s.store.fileName = fileName := by
  obtain ⟨dir, store, takers, entries, counts, hname, hrecorded⟩ := h.recorded
  rw [hrecorded.memory]
  exact hname

/-- The interaction that a request with the lock is appending is the one that it hands over. -/
theorem Holds.attempted (h : s.Holds fileName xs) {id : ℕ} {x : Exchange C} {phase : Phase}
    {i : Interaction} (ht : s.tasks id = some ⟨x, phase, some (.locked i)⟩) :
    x.attempted = some i := by
  obtain ⟨dir, store, takers, entries, counts, -, hrecorded⟩ := h.recorded
  exact ((hrecorded.tasks id _ ht).locked i rfl).2

/-- Only a request with the lock appends, and what it appends is its own. -/
theorem appended_cases (s : Pool C) (e : Event C) :
    s.appended e = [] ∨ ∃ id x phase i, s.tasks id = some ⟨x, phase, some (.locked i)⟩ ∧
      s.appended e = [(id, i)] := by
  cases e with
  | append id =>
    simp only [appended]
    split
    · rename_i x phase i ht
      split
      · exact .inr ⟨id, x, phase, i, ht, rfl⟩
      · exact .inl rfl
    · exact .inl rfl
  | _ => exact .inl rfl

/-- **Every step of every request** keeps what is held, and adds the exchange of a request that
appends. -/
theorem Holds.step (hjson : C.json.Lawful) (h : s.Holds fileName xs) (e : Event C) :
    (s.step e).Holds fileName (xs ++ s.exchanges (s.appended e)) := by
  obtain ⟨dir, store, takers, entries, counts, hname, hrecorded⟩ := h.recorded
  have hnext := (hrecorded.step e).recorded
  rcases s.appended_cases e with hnone | ⟨id, x, phase, i, ht, hone⟩
  · rw [hnone, List.append_nil] at hnext
    have hstore : (s.step e).store = s.store := hnext.memory.trans hrecorded.memory.symm
    have hcontent : content (s.step e).dir fileName = content s.dir fileName := by
      rw [← hname, hnext.file, hrecorded.file, hstore]
    rw [hnone, exchanges, List.filterMap_nil, List.append_nil]
    exact ⟨⟨dir, store, _, _, _, hname, hnext⟩, hstore ▸ h.formatVersion, hstore ▸ h.wf,
      hstore ▸ h.memory, h.file.congr hcontent⟩
  -- the only entry that is added is that of the request with the lock
  · have hattempted := h.attempted ht
    rw [hone] at hnext
    have hcassette : (s.step e).store.cassette = s.store.cassette.append i := by
      rw [hnext.memory, hrecorded.memory]
      simp [Cassette.append]
    have hmemory : (s.step e).store.cassette.Holds (xs ++ [x]) := by
      rw [hcassette]
      exact h.memory.append hattempted
    have hversion : (s.step e).store.cassette.formatVersion = supportedFormatVersion := by
      rw [hcassette]
      exact h.formatVersion
    have hwf : ∀ j ∈ (s.step e).store.cassette.interactions, j.Wf := by
      rw [hcassette, Cassette.append_interactions, List.forall_mem_append,
        List.forall_mem_singleton]
      exact ⟨h.wf, (x.attempted_cases hattempted).wf⟩
    have hfile := hnext.file
    rw [if_neg (by simp), hname] at hfile
    have hexchanges : s.exchanges (s.appended e) = [x] := by
      simp [hone, exchanges, ht]
    rw [hexchanges]
    exact ⟨⟨dir, store, _, _, _, hname, hnext⟩, hversion, hwf, hmemory,
      fileHolds_of_content hjson hmemory hversion hwf hfile⟩

/-- What a process leaves that is killed after some operations of the append that is going on. -/
def killed (s : Pool C) (after : ℕ) : Dir String :=
  match s.holder.bind s.tasks with
  | some ⟨x, _, some (.locked interaction)⟩ =>
    applyAll s.dir ((Store.append C.json x.faults s.dir s.store interaction).1.1.take after)
  | _ => s.dir

/-- The exchange whose document was in place before. -/
def landed (s : Pool C) (after : ℕ) : List (Exchange C) :=
  match s.holder.bind s.tasks with
  | some ⟨x, _, some (.locked interaction)⟩ =>
    if content (s.killed after) s.store.fileName =
      some ((s.store.cassette.append interaction).writeTo C.json) then [x] else []
  | _ => []

/-- **A process that is killed** has appended the interaction of the request with the lock, or has
not touched the file. -/
theorem fileHolds_killed (hjson : C.json.Lawful) (h : s.Holds fileName xs) (after : ℕ) :
    FileHolds fileName (xs ++ s.landed after) (s.killed after) := by
  have hidle : ∀ dir, dir = s.dir → FileHolds fileName (xs ++ []) dir := by
    rintro _ rfl
    rw [List.append_nil]
    exact h.file
  cases hholder : s.holder.bind s.tasks with
  | none => simpa only [landed, killed, hholder] using hidle _ rfl
  | some t =>
    obtain ⟨x, phase, _ | (i | i | result)⟩ := t
    · simpa only [landed, killed, hholder] using hidle _ rfl
    · simpa only [landed, killed, hholder] using hidle _ rfl
    · obtain ⟨id, -, ht⟩ := Option.bind_eq_some_iff.1 hholder
      have hattempted := h.attempted ht
      have htake := append_take C.json x.faults s.dir s.store i after
      have hkilled : s.killed after = applyAll s.dir
          ((Store.append C.json x.faults s.dir s.store i).1.1.take after) := by
        simp only [killed, hholder]
      rw [← hkilled] at htake
      simp only [landed, hholder]
      split_ifs with hlanded
      · have hwf : ∀ j ∈ (s.store.cassette.append i).interactions, j.Wf := by
          rw [Cassette.append_interactions, List.forall_mem_append, List.forall_mem_singleton]
          exact ⟨h.wf, (x.attempted_cases hattempted).wf⟩
        rw [h.name] at hlanded
        exact fileHolds_of_content hjson (h.memory.append hattempted) h.formatVersion hwf hlanded
      · rw [List.append_nil]
        refine h.file.congr ?_
        rw [← h.name]
        exact htake.resolve_right hlanded
    · simpa only [landed, killed, hholder] using hidle _ rfl

end Pool

/-! ### One process after another -/

/-- What is at the cassette's directory: no process, or one whose clones record or replay. -/
inductive Host (C : RecordConfig) where
  | stopped (dir : Dir String)
  | recording (pool : Pool C)
  | replaying (dir : Dir String) (pool : ReplayPool)

namespace Host

variable {C : RecordConfig} {Url : Type}

/-- What happens. -/
inductive Event (C : RecordConfig) (Url : Type) where
  | start (a : Life.Start Url)
  /-- A start, killed after some of the operations on the directory. -/
  | killedStart (a : Life.Start Url) (after : ℕ)
  /-- A request to a service that records goes on. -/
  | record (e : Pool.Event C)
  /-- A request to a service that replays goes on. -/
  | replay (e : ReplayPool.Event)
  /-- The process ends, after some of the operations of the append that is going on. -/
  | kill (after : ℕ)

variable (C) (cassetteDir name : String)

/-- What an event makes of a host.  A process is started where none runs. -/
def step (s : Host C) : Event C Url → Host C
  | .start a =>
    match s with
    | stopped dir =>
      match Life.begin C cassetteDir name a dir with
      | (_, .ok (.record r)) => recording (.start r.dir r.store)
      | (ops, .ok (.replay service)) => replaying (applyAll dir ops) (.start service.engine)
      | (ops, .error _) => stopped (applyAll dir ops)
    | s => s
  | .killedStart a after =>
    match s with
    | stopped dir => stopped (applyAll dir ((Life.begin C cassetteDir name a dir).1.take after))
    | s => s
  | .record e =>
    match s with
    | recording pool => recording (pool.step e)
    | s => s
  | .replay e =>
    match s with
    | replaying dir pool => replaying dir (pool.step C.sha256 e)
    | s => s
  | .kill after =>
    match s with
    | stopped dir => stopped dir
    | recording pool => stopped (pool.killed after)
    | replaying dir _ => stopped dir

variable {C}

/-- The exchange that the event persists. -/
def persisted (s : Host C) : Event C Url → List (Exchange C)
  | .record e =>
    match s with
    | recording pool => pool.exchanges (pool.appended e)
    | _ => []
  | .kill after =>
    match s with
    | recording pool => pool.landed after
    | _ => []
  | .start _ | .killedStart _ _ | .replay _ => []

/-- The exchanges are held by the file, and by a process that records. -/
def Holds (fileName : String) (xs : List (Exchange C)) : Host C → Prop
  | stopped dir => FileHolds fileName xs dir
  | recording pool => pool.Holds fileName xs
  | replaying dir _ => FileHolds fileName xs dir

variable {cassetteDir name fileName : String}

/-- Every event keeps what is held, and adds what it persists. -/
theorem holds_step (hjson : C.json.Lawful)
    (hname : cassetteName (Path.join cassetteDir name) = .ok fileName)
    (xs : List (Exchange C)) (s : Host C) (e : Event C Url) (h : s.Holds fileName xs) :
    (step C cassetteDir name s e).Holds fileName (xs ++ s.persisted e) := by
  cases e with
  | start a =>
    rw [persisted, List.append_nil]
    cases s with
    | recording pool => exact h
    | replaying dir pool => exact h
    | stopped dir =>
      have hfile := (Life.begin_keeps hname hjson a dir).done.holds xs h
      simp only [step]
      cases hbegin : Life.begin C cassetteDir name a dir with
      | mk ops result =>
        rw [hbegin] at hfile
        rcases result with e | (r | service)
        · exact hfile
        · exact Pool.holds_start ((Life.begin_record hname hjson hbegin).2.2 xs h)
        · exact hfile
  | killedStart a after =>
    rw [persisted, List.append_nil]
    cases s with
    | recording pool => exact h
    | replaying dir pool => exact h
    | stopped dir => exact (Life.begin_keeps hname hjson a dir after).holds xs h
  | record e =>
    cases s with
    | recording pool => exact Pool.Holds.step hjson h e
    | stopped dir => simpa [persisted, step] using h
    | replaying dir pool => simpa [persisted, step] using h
  | replay e =>
    rw [persisted, List.append_nil]
    cases s with
    | recording pool => exact h
    | stopped dir => exact h
    | replaying dir pool => exact h
  | kill after =>
    cases s with
    | recording pool => exact Pool.fileHolds_killed hjson h after
    | stopped dir => simpa [persisted, step] using h
    | replaying dir pool => simpa [persisted, step, Holds] using h

/-- **What is held over a life.** -/
theorem holds_run (hjson : C.json.Lawful)
    (hname : cassetteName (Path.join cassetteDir name) = .ok fileName) {dir : Dir String}
    (hempty : ∀ c, Session.decoded C.json fileName dir = some c → c.interactions = [])
    (es : List (Event C Url)) :
    (Runs.run (step C cassetteDir name) (stopped dir) es).Holds fileName
      (Runs.collect (step C cassetteDir name) persisted (stopped dir) es) := by
  have hstart : (stopped dir).Holds fileName ([] : List (Exchange C)) := by
    refine ⟨fun c hc => ?_, fun _ => rfl⟩
    rw [Cassette.Holds, hempty c hc]
    exact .nil
  exact Runs.run_collect (holds_step hjson hname) hstart es

/-- A process that was started and replays does so with what the file decodes to. -/
theorem start_replaying (hname : cassetteName (Path.join cassetteDir name) = .ok fileName)
    {dir dir' : Dir String} {a : Life.Start Url} {pool : ReplayPool}
    (hstart : step C cassetteDir name (stopped dir) (.start a) = replaying dir' pool) :
    ∃ c engine, Session.decoded C.json fileName dir = some c ∧
      ReplayMatchEngine.new c a.matchMode = .ok engine ∧ pool = .start engine := by
  simp only [step] at hstart
  split at hstart
  · cases hstart
  · rename_i ops service hbegin
    obtain ⟨-, rfl⟩ := Host.replaying.inj hstart
    obtain ⟨-, c, engine, hdecoded, hnew, rfl⟩ := Life.begin_replay hname hbegin
    exact ⟨c, engine, hdecoded, hnew, rfl⟩
  · cases hstart

open ReplayService

/-- **Clones that replay give out what clones have persisted**, over any life of the cassette:
whatever was recorded in whatever interleavings, by whichever processes, and wherever these were
killed, a process that is then started and replays gives out the exchanges that were persisted, each
once, whatever the interleaving of its own requests.  In keyed mode those with one hash are given
out in the order in which they were persisted, in sequential mode all are. -/
theorem clones_replay_persisted (hjson : C.json.Lawful)
    (hname : cassetteName (Path.join cassetteDir name) = .ok fileName) {dir dir' dir'' : Dir String}
    (hempty : ∀ c, Session.decoded C.json fileName dir = some c → c.interactions = [])
    (es : List (Event C Url))
    (hstopped : Runs.run (step C cassetteDir name) (stopped dir) es = stopped dir')
    {a : Life.Start Url} {pool : ReplayPool}
    (hstart : step C cassetteDir name (stopped dir') (.start a) = replaying dir'' pool)
    (es' : List ReplayPool.Event) :
    let xs := Runs.collect (step C cassetteDir name) persisted (stopped dir) es
    let ds := (Runs.collect (ReplayPool.step C.sha256) ReplayPool.decided pool es').map Prod.snd
    let c := pool.engine.cassette
    (∀ d ∈ ds, ∀ x ∈ xs, hashOf C.sha256 d.request = hashOf C.sha256 x.request →
      isStreamingChatCompletionsRequest d.request.parsedJson =
        isStreamingChatCompletionsRequest x.request.parsedJson) →
    c.Holds xs ∧
      (a.matchMode = .keyed → ∀ (hash : String) (k : ℕ) (d : Decision),
        (withHash C.sha256 Decision.request hash ds)[k]? = some d →
        Tells c hash Exchange.Faithful
          (withHash C.sha256 Exchange.request hash xs)[k]? d.result) ∧
      (a.matchMode = .sequentialStrict → ∀ (k : ℕ) (d : Decision), ds[k]? = some d →
        let given := (ds.take k).countP fun d => d.result.isOk
        TellsNext C.sha256 Exchange.request Exchange.Faithful c given d.request xs[given]?
          d.result) := by
  intro xs ds c hkinds
  have hfile := holds_run hjson hname hempty es
  rw [hstopped] at hfile
  obtain ⟨c', engine, hdecoded, hnew, rfl⟩ := start_replaying hname hstart
  obtain rfl : c = c' := (ReplayMatchEngine.new_frame hnew).1
  have hholds : c.Holds xs := FileHolds.decoded hfile c hdecoded
  refine ⟨hholds, fun hmode => ?_, fun hmode => ?_⟩
  · rw [hmode] at hnew
    exact hholds.told_keyed hnew es' hkinds
  · rw [hmode] at hnew
    exact hholds.told_in_order hnew es' hkinds

end Host

/-! ### A process that is killed in the middle of an append -/

namespace Pool

variable {C : RecordConfig}

/-- Of two requests the second has appended, and the first has the lock. -/
def interrupted (x y : Exchange C) : List (Event C) :=
  [.arrive 1 x, .arrive 2 y, .respond 1, .respond 2, .spawn 1, .spawn 2, .lock 2, .append 2,
    .lock 1]

/-- The process is killed when the document with both is in place. -/
theorem killed_interrupted {x y : Exchange C} {i j : Interaction} (hx : x.Smooth i)
    (hy : y.Smooth j) (dir : Dir String) (store : Store) :
    Runs.collect step (fun s e => s.exchanges (s.appended e)) (start dir store)
        (interrupted x y) = [y] ∧
      ∃ after, (Runs.run step (start dir store) (interrupted x y)).landed after = [x] ∧
        content ((Runs.run step (start dir store) (interrupted x y)).killed after) store.fileName =
          some (((store.cassette.append j).append i).writeTo C.json) := by
  obtain ⟨response, hsend, hbuild⟩ := hx.send
  obtain ⟨response', hsend', hbuild'⟩ := hy.send
  obtain ⟨ops, happend, -⟩ := append_none C.json dir store j
  obtain ⟨ops', happend', hfile⟩ := append_none C.json (applyAll dir ops)
    { store with cassette := store.cassette.append j } i
  refine ⟨?_, ops'.length, ?_, ?_⟩ <;>
    simp [interrupted, Runs.collect, Runs.run, step, start, set, appended, exchanges, landed,
      killed, Function.update_of_ne, hx.apiKey, hx.plain, hx.faults, hy.apiKey, hy.plain,
      hy.faults, hsend, hbuild, hsend', hbuild', happend, happend', hfile]

end Pool

namespace Host

variable {C : RecordConfig} {cassetteDir name fileName : String}

/-- The requests to a process that records. -/
theorem run_record (pool : Pool C) (es : List (Pool.Event C)) :
    Runs.run (step C cassetteDir name) (recording pool) (es.map (@Event.record C Unit)) =
        recording (Runs.run Pool.step pool es) ∧
      Runs.collect (step C cassetteDir name) persisted (recording pool)
          (es.map (@Event.record C Unit)) =
        Runs.collect Pool.step (fun s e => s.exchanges (s.appended e)) pool es := by
  induction es generalizing pool with
  | nil => exact ⟨rfl, rfl⟩
  | cons e es ih =>
    obtain ⟨hrun, hcollect⟩ := ih (pool.step e)
    exact ⟨hrun, congrArg (pool.exchanges (pool.appended e) ++ ·) hcollect⟩

/-- A process is started, and killed in the middle of an append. -/
def cut (x y : Exchange C) (after : ℕ) : List (Event C Unit) :=
  .start (.calm .record) :: (Pool.interrupted x y).map .record ++ [.kill after]

/-- Both exchanges are persisted, and their replay starts. -/
theorem replaying_of_cut (hjson : C.json.Lawful)
    (hname : cassetteName (Path.join cassetteDir name) = .ok fileName)
    (hvalid : ∀ mode, validateConfig ((Life.Start.calm mode).config cassetteDir name) = .ok ())
    {x y : Exchange C} {i j : Interaction} (hx : x.Smooth i) (hy : y.Smooth j) (hxs : x.Shallow)
    (hys : y.Shallow) :
    ∃ after dir dir' pool,
      Runs.run (step C cassetteDir name) (stopped fun _ => none) (cut x y after) = stopped dir ∧
      Runs.collect (step C cassetteDir name) persisted (stopped fun _ => none) (cut x y after) =
        [y, x] ∧
      step C cassetteDir name (stopped dir) (.start (.calm .replay)) = replaying dir' pool := by
  have hcalm : ∀ mode, StartEnvironment.calm.Calm ((Life.Start.calm mode).config cassetteDir name)
      fileName := fun mode => StartEnvironment.calm_calm hname
  obtain ⟨r, hr⟩ : ∃ r, (Life.begin C cassetteDir name (.calm .record) fun _ => none).2 =
      .ok (.record r) := startHarness_record_calm hjson (hcalm .record) (hvalid .record) rfl
    (.inl rfl)
  have hbegin : Life.begin C cassetteDir name (.calm .record) (fun _ => none) =
      ((Life.begin C cassetteDir name (.calm .record) fun _ => none).1, .ok (.record r)) :=
    Prod.ext rfl hr
  obtain ⟨-, hopened, -⟩ := Life.begin_record hname hjson hbegin
  have hstart : step C cassetteDir name (stopped fun _ => none) (.start (.calm .record)) =
      recording (.start r.dir r.store) := by
    simp only [step]
    rw [hbegin]
  obtain ⟨hcollect, after, hlanded, hcontent⟩ := Pool.killed_interrupted hx hy r.dir r.store
  obtain ⟨hrun, hpersisted⟩ := @run_record C cassetteDir name (.start r.dir r.store)
    (Pool.interrupted x y)
  -- the document that is in place when the process is killed can be read
  have hi := x.attempted_cases hx.attempted
  have hj := y.attempted_cases hy.attempted
  obtain ⟨c, hc, -⟩ := ((hopened.storable.append ⟨hj.wf, hj.depthLe_iff.2 hys⟩).append
    ⟨hi.wf, hi.depthLe_iff.2 hxs⟩).fromReader_writeTo hjson
  rw [hopened.name] at hcontent
  obtain ⟨dir, hdir⟩ : ∃ dir, dir = (Runs.run Pool.step (.start r.dir r.store)
    (Pool.interrupted x y)).killed after := ⟨_, rfl⟩
  rw [← hdir] at hcontent
  have hdecoded := Session.decoded_of_read hcontent hc
  have hcut : Runs.run (step C cassetteDir name) (stopped fun _ => none) (cut x y after) =
      stopped dir := by
    rw [cut, Runs.run_concat, Runs.run_cons, hstart, hrun, hdir]
    rfl
  have hboth : Runs.collect (step C cassetteDir name) persisted (stopped fun _ => none)
      (cut x y after) = [y, x] := by
    rw [cut, Runs.collect_concat, Runs.run_cons, Runs.collect, hstart, hrun, hpersisted, hcollect]
    exact congrArg ([] ++ [y] ++ ·) hlanded
  have hempty : ∀ c, Session.decoded C.json fileName (fun _ => none) = some c →
      c.interactions = [] := by
    intro c hc
    simp [Session.decoded, content] at hc
  have hheld := holds_run hjson hname hempty (cut x y after)
  rw [hcut, hboth] at hheld
  obtain ⟨engine, hengine⟩ := (FileHolds.decoded hheld c hdecoded).exists_new .sequentialStrict
  obtain ⟨service, hservice⟩ : ∃ service, Life.begin C cassetteDir name (.calm .replay) dir =
      ([], .ok (.replay service)) :=
    startHarness_replay_calm (hcalm .replay) (hvalid .replay) rfl hdecoded
      (ReplayMatchEngine.hashed_of_new hengine)
  refine ⟨after, dir, applyAll dir [], .start service.engine, hcut, hboth, ?_⟩
  simp only [step, hservice]

/-- The process is killed in the middle of the append of the first of two requests, when its
document is in place; both are replayed. -/
theorem clones_replay_persisted_cut :
    let C : RecordConfig := ⟨.exact, Sha256.digest, .default⟩
    let x : Exchange C := .asking "q=a"
    let y : Exchange C := .asking "q=b"
    ∃ after dir dir' pool response response',
      Runs.run (step C "llm" "a.json") (stopped fun _ => none) (cut x y after) = stopped dir ∧
      step C "llm" "a.json" (stopped dir) (.start (.calm .replay)) = replaying dir' pool ∧
      pool.engine.cassette.Holds [y, x] ∧
      (Runs.collect (ReplayPool.step Sha256.digest) ReplayPool.decided pool
        (ReplayPool.interleaved x.request y.request)).map (fun d => d.2.result) =
          [.ok response, .ok response'] ∧
      y.Faithful response ∧ x.Faithful response' := by
  intro C x y
  have hx : x.Ordinary := Exchange.ordinary_asking _
  have hy : y.Ordinary := Exchange.ordinary_asking _
  clear_value x y
  obtain ⟨i, hi⟩ := hx.smooth
  obtain ⟨j, hj⟩ := hy.smooth
  have hname : cassetteName (Path.join "llm" "a.json") = .ok "a.json" := by decide
  obtain ⟨after, dir, dir', pool, hcut, hboth, hstart⟩ := replaying_of_cut SerdeJson.exact_lawful
    hname (fun mode => by cases mode <;> decide) hi hj hx.shallow hy.shallow
  obtain ⟨c, engine, hdecoded, hnew, rfl⟩ := start_replaying hname hstart
  obtain ⟨result, consumed, result', consumed', hdecided⟩ :=
    ReplayPool.decided_interleaved Sha256.digest engine hx.json hy.json
  have hempty : ∀ c, Session.decoded .exact "a.json" (fun _ => none) = some c →
      c.interactions = [] := by
    intro c hc
    simp [Session.decoded, content] at hc
  have htold := clones_replay_persisted SerdeJson.exact_lawful hname hempty (cut x y after) hcut
    hstart (ReplayPool.interleaved x.request y.request)
  rw [hboth, hdecided] at htold
  obtain ⟨hholds, -, htells⟩ := htold (hx.kinds hy
    (List.forall_mem_cons.2 ⟨.inr rfl, List.forall_mem_singleton.2 (.inl rfl)⟩))
  have hfirst := htells rfl 0 ⟨y.request, result', consumed'⟩ rfl
  cases hfirst with
  | recorded z response here hash told brought =>
    obtain rfl : y = z := Option.some.inj here
    -- one has been given out, and the next is that of the other
    obtain rfl : result' = .ok response := told
    have hsecond := htells rfl 1 ⟨x.request, result, consumed⟩ rfl
    cases hsecond with
    | recorded z response' here hash told brought' =>
      obtain rfl : x = z := Option.some.inj here
      refine ⟨after, dir, dir', .start engine, response, response', hcut, hstart, hholds, ?_,
        brought, brought'⟩
      rw [hdecided, List.map_cons, List.map_singleton, told]
    | unexpected diagnostic hash => exact absurd rfl (hash x rfl)
  | unexpected diagnostic hash => exact absurd rfl (hash y rfl)

end Host

end SpycatcherHarness
