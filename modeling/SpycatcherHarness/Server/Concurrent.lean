import SpycatcherHarness.Machine.LockedLog
import SpycatcherHarness.Server.Record

/-!
# Recording concurrently

Clones of a record service share the store, behind a lock, and the counters.  A request is a future
that waits for the upstream, builds an interaction, and spawns a blocking task that takes the lock
and appends; when the task is done, the future counts the outcome.  A future may be dropped wherever
it waits, and the blocking task still runs to its end.

A `Pool` is the shared state with the requests in it, and an `Event` is one step of one of them.

* `Pool.Recorded` : what holds after every run; the pool is a log behind a lock (`LockedLog`).
* `Pool.Recorded.step` : every step keeps it, and is a step of the log.
* `Pool.concurrent_recording` : nothing is lost, duplicated or moved.
-/

namespace SpycatcherHarness

open Files Store

/-- The blocking task of a request. -/
inductive Job where
  /-- It has been spawned, or waits for the lock. -/
  | queued (interaction : Interaction)
  | locked (interaction : Interaction)
  | done (result : Except RecordError Unit)

/-- Where the future of a request stands. -/
inductive Phase where
  /-- It waits for the upstream. -/
  | sending
  /-- The client reads from the proxied stream, at these readings of the clock. -/
  | reading (recording : Recording) (times : List ℕ)
  | built (interaction : Interaction)
  /-- It waits for its blocking task. -/
  | waiting
  | finished
  | dropped

/-- A request that is being handled. -/
structure Task (C : RecordConfig) where
  exchange : Exchange C
  phase : Phase
  job : Option Job

/-- The state that clones of a service share, and the requests. -/
structure Pool (C : RecordConfig) where
  dir : Dir String
  store : Store
  /-- The request whose task has the lock. -/
  holder : Option ℕ
  poisoned : Bool
  recordedCount : UInt64
  failureCount : UInt64
  tasks : ℕ → Option (Task C)

namespace Pool

variable {C : RecordConfig}

/-- Before the first request. -/
def start (dir : Dir String) (store : Store) : Pool C :=
  ⟨dir, store, none, false, 0, 0, fun _ => none⟩

/-- One step of one request, or of something else that takes the lock and panics. -/
inductive Event (C : RecordConfig) where
  | arrive (id : ℕ) (x : Exchange C)
  /-- The upstream answers; a buffered response is built into an interaction. -/
  | respond (id : ℕ)
  /-- The client asks for the next item of a stream. -/
  | poll (id : ℕ)
  | spawn (id : ℕ)
  | lock (id : ℕ)
  /-- The task appends and gives the lock back. -/
  | append (id : ℕ)
  /-- The future counts the outcome of its task. -/
  | resume (id : ℕ)
  | drop (id : ℕ)
  | poison

/-- The request goes on as given. -/
def set (s : Pool C) (id : ℕ) (x : Exchange C) (phase : Phase) (job : Option Job) : Pool C :=
  { s with tasks := Function.update s.tasks id (some ⟨x, phase, job⟩) }

def step (s : Pool C) : Event C → Pool C
  | .arrive id x =>
    match s.tasks id with
    | some _ => s
    | none => s.set id x (if x.apiKey.isNone then .finished else .sending) none
  | .respond id =>
    match s.tasks id with
    | some ⟨x, .sending, job⟩ =>
      -- whatever goes wrong before an interaction is built is counted once
      let failed := { s.set id x .finished job with failureCount := s.failureCount + 1 }
      if isStreamingChatCompletionsRequest x.request.parsedJson then
        match x.stream with
        | .error _ => failed
        | .ok response =>
          s.set id x (.reading (.start x.request response x.started) x.times) job
      else
        match x.send with
        | .error _ => failed
        | .ok response =>
          match C.buildInteraction x.request response x.metadata with
          | .error _ => failed
          | .ok interaction => s.set id x (.built interaction) job
    | _ => s
  | .poll id =>
    match s.tasks id with
    | some ⟨x, .reading recording (now :: times), job⟩ =>
      let next := recording.step C x.metadata now
      let actions := recording.polled C x.metadata now
      -- the stream goes on after a chunk, and `persist_interaction` takes over at its end
      let phase :=
        match (appends actions).head?, next.stream with
        | some interaction, _ => .built interaction
        | none, none => .finished
        | none, some _ => .reading next times
      { s.set id x phase job with
        failureCount := s.failureCount + UInt64.ofNat (actions.count .failure) }
    | _ => s
  | .spawn id =>
    match s.tasks id with
    | some ⟨x, .built interaction, _⟩ => s.set id x .waiting (some (.queued interaction))
    | _ => s
  | .lock id =>
    match s.tasks id, s.holder with
    | some ⟨x, phase, some (.queued interaction)⟩, none =>
      -- `lock` returns an error, which is mapped before the store is touched
      if s.poisoned then s.set id x phase (some (.done (.error .internal)))
      else { s.set id x phase (some (.locked interaction)) with holder := some id }
    | _, _ => s
  | .append id =>
    match s.tasks id with
    | some ⟨x, phase, some (.locked interaction)⟩ =>
      let ((ops, result), store) := Store.append C.json x.faults s.dir s.store interaction
      let result := result.mapError fun _ => RecordError.internal
      { s.set id x phase (some (.done result)) with
        dir := applyAll s.dir ops, store, holder := none }
    | _ => s
  | .resume id =>
    match s.tasks id with
    | some ⟨x, .waiting, some (.done (.ok ()))⟩ =>
      { s.set id x .finished (some (.done (.ok ()))) with recordedCount := s.recordedCount + 1 }
    | some ⟨x, .waiting, some (.done (.error e))⟩ =>
      { s.set id x .finished (some (.done (.error e))) with failureCount := s.failureCount + 1 }
    | _ => s
  | .drop id =>
    match s.tasks id with
    -- only at an await point; the blocking task stays as it is
    | some ⟨x, .sending, job⟩ | some ⟨x, .reading _ _, job⟩ | some ⟨x, .waiting, job⟩ =>
      s.set id x .dropped job
    | _ => s
  | .poison =>
    match s.holder with
    | some _ => s
    | none => { s with poisoned := true }

/-! ### What has happened -/

/-- The request whose task takes the lock. -/
def taken (s : Pool C) : Event C → List ℕ
  | .lock id =>
    match s.tasks id, s.holder, s.poisoned with
    | some ⟨_, _, some (.queued _)⟩, none, false => [id]
    | _, _, _ => []
  | _ => []

/-- The interaction that is appended, and its request. -/
def appended (s : Pool C) : Event C → List (ℕ × Interaction)
  | .append id =>
    match s.tasks id with
    | some ⟨x, _, some (.locked interaction)⟩ =>
      match (Store.append C.json x.faults s.dir s.store interaction).1.2 with
      | .ok () => [(id, interaction)]
      | .error _ => []
    | _ => []
  | _ => []

/-- The request whose interaction is counted. -/
def counted (s : Pool C) : Event C → List ℕ
  | .resume id =>
    match s.tasks id with
    | some ⟨_, .waiting, some (.done (.ok ()))⟩ => [id]
    | _ => []
  | _ => []

/-! ### The log -/

end Pool

/-- How far the request is with the shared log. -/
def Task.status {C : RecordConfig} (t : Task C) : WorkerStatus :=
  match t.job, t.phase with
  | none, _ | some (.queued _), _ => .fresh
  | some (.locked _), _ => .locked
  | some (.done (.error _)), _ => .failed
  | some (.done (.ok ())), .finished => .counted
  | some (.done (.ok ())), _ => .appended

namespace Pool

variable {C : RecordConfig}

def status (s : Pool C) (id : ℕ) : WorkerStatus := (s.tasks id).elim .fresh Task.status

/-- The pool as a log behind a lock. -/
def view (s : Pool C) (takers : List ℕ) (entries : List (ℕ × Interaction)) (counted : List ℕ) :
    LockedLog ℕ Interaction :=
  ⟨s.status, s.holder, s.poisoned, takers, entries, counted⟩

theorem status_set (s : Pool C) (id : ℕ) (x : Exchange C) (phase : Phase) (job : Option Job) :
    (s.set id x phase job).status =
      Function.update s.status id (Task.status ⟨x, phase, job⟩) := by
  funext other
  by_cases h : other = id
  · subst h
    simp [status, set]
  · simp [status, set, h]

end Pool

/-! ### What a request does by itself -/

namespace Exchange

variable {C : RecordConfig}

/-- The client has read from the stream up to here, and no interaction has been built yet. -/
structure Reads (x : Exchange C) (recording : Recording) (times : List ℕ) : Prop where
  apiKey : x.apiKey.isNone = false
  streaming : isStreamingChatCompletionsRequest x.request.parsedJson = true
  stream : ∃ response before, x.stream = .ok response ∧ x.times = before ++ times ∧
    recording = Runs.run (Recording.step C x.metadata) (.start x.request response x.started) before
  unbuilt : appends recording.actions = []

theorem reads_start (x : Exchange C) {response : StreamingObservedResponse}
    (hkey : x.apiKey.isNone = false)
    (hstreaming : isStreamingChatCompletionsRequest x.request.parsedJson = true)
    (hstream : x.stream = .ok response) :
    x.Reads (.start x.request response x.started) x.times :=
  ⟨hkey, hstreaming, ⟨response, [], hstream, rfl, rfl⟩, rfl⟩

variable {x : Exchange C} {recording : Recording} {now : ℕ} {times : List ℕ}

theorem Reads.step (h : x.Reads recording (now :: times))
    (hnone : appends (recording.polled C x.metadata now) = []) :
    x.Reads (recording.step C x.metadata now) times := by
  obtain ⟨response, before, hstream, htimes, hrecording⟩ := h.stream
  refine ⟨h.apiKey, h.streaming, ⟨response, before ++ [now], hstream, by simp [htimes], ?_⟩, ?_⟩
  · rw [Runs.run_concat, ← hrecording]
  · rw [Recording.actions_step, appends_append, h.unbuilt, hnone, List.append_nil]

/-- The interaction that is built is the one that the exchange hands to the store. -/
theorem Reads.attempted (h : x.Reads recording (now :: times)) {i : Interaction}
    (hi : (appends (recording.polled C x.metadata now)).head? = some i) :
    x.attempted = some i := by
  obtain ⟨response, before, hstream, htimes, hrecording⟩ := h.stream
  have hended : (recording.step C x.metadata now).stream = none :=
    Recording.stream_step_of_appends fun hnil => by simp [hnil] at hi
  have hactions : (x.recording response).actions = (recording.step C x.metadata now).actions := by
    rw [Exchange.recording, htimes, Runs.run_append, ← hrecording, Runs.run_cons,
      Recording.actions_run_ended hended]
  rw [Exchange.attempted, h.apiKey, h.streaming]
  simp only [Bool.false_eq_true, if_false, if_true, hstream, hactions, Recording.actions_step,
    appends_append, h.unbuilt, List.nil_append, hi]

end Exchange

/-- What the phase and the task of a request say about it. -/
structure Task.Ok {C : RecordConfig} (t : Task C) : Prop where
  sending : t.phase = .sending → t.job = none ∧ t.exchange.apiKey.isNone = false
  reading : ∀ recording times, t.phase = .reading recording times →
    t.job = none ∧ t.exchange.Reads recording times
  built : ∀ i, t.phase = .built i → t.job = none ∧ t.exchange.attempted = some i
  queued : ∀ i, t.job = some (.queued i) → t.phase ≠ .finished ∧ t.exchange.attempted = some i
  locked : ∀ i, t.job = some (.locked i) → t.phase ≠ .finished ∧ t.exchange.attempted = some i

namespace Task

variable {C : RecordConfig} {x : Exchange C}

/-- Nothing is asked of a request that is over and has no task. -/
theorem ok_finished : Ok ⟨x, .finished, none⟩ := by
  constructor <;> simp

theorem ok_sending (hkey : x.apiKey.isNone = false) : Ok ⟨x, .sending, none⟩ := by
  constructor <;> simp [hkey]

theorem ok_reading {recording : Recording} {times : List ℕ} (h : x.Reads recording times) :
    Ok ⟨x, .reading recording times, none⟩ := by
  constructor <;> simp [h]

theorem ok_built {i : Interaction} (h : x.attempted = some i) : Ok ⟨x, .built i, none⟩ := by
  constructor <;> simp [h]

theorem ok_waiting {i : Interaction} (h : x.attempted = some i) :
    Ok ⟨x, .waiting, some (.queued i)⟩ := by
  constructor <;> simp [h]

/-- Only a request that has not reached its task yet has none. -/
theorem Ok.started {phase : Phase} {job : Job} (h : Ok ⟨x, phase, some job⟩) :
    phase ≠ .sending ∧ (∀ r times, phase ≠ .reading r times) ∧ ∀ i, phase ≠ .built i := by
  refine ⟨fun hp => ?_, fun r times hp => ?_, fun i hp => ?_⟩
  · cases (h.sending hp).1
  · cases (h.reading r times hp).1
  · cases (h.built i hp).1

/-- The task of a request goes on. -/
theorem Ok.locked_of_queued {phase : Phase} {i : Interaction}
    (h : Ok ⟨x, phase, some (.queued i)⟩) : Ok ⟨x, phase, some (.locked i)⟩ := by
  obtain ⟨hsending, hreading, hbuilt⟩ := h.started
  obtain ⟨hphase, hattempted⟩ := h.queued i rfl
  constructor <;> simp [hsending, hreading, hbuilt, hattempted] at hphase ⊢
  exact hphase

/-- The task of a request comes to its end. -/
theorem Ok.done {phase : Phase} {job : Job} (h : Ok ⟨x, phase, some job⟩)
    (result : Except RecordError Unit) : Ok ⟨x, phase, some (.done result)⟩ := by
  obtain ⟨hsending, hreading, hbuilt⟩ := h.started
  constructor <;> simp [hsending, hreading, hbuilt]

theorem ok_counted (result : Except RecordError Unit) :
    Ok ⟨x, .finished, some (.done result)⟩ := by
  constructor <;> simp

theorem Ok.dropped {phase : Phase} {job : Option Job} (h : Ok ⟨x, phase, job⟩) :
    Ok ⟨x, .dropped, job⟩ := by
  have hqueued := fun i hi => (h.queued i hi).2
  have hlocked := fun i hi => (h.locked i hi).2
  exact ⟨by simp, by simp, by simp, by simpa using hqueued, by simpa using hlocked⟩

end Task

namespace Pool

variable {C : RecordConfig}

/-! ### What holds after every run -/

/-- What holds after a run from a store in a directory: the takers of the lock, the entries and the
requests that were counted are those of a log behind a lock, memory and file hold the entries, and
these are what their requests hand to the store. -/
structure Recorded (dir : Dir String) (store : Store) (takers : List ℕ)
    (entries : List (ℕ × Interaction)) (counted : List ℕ) (s : Pool C) : Prop where
  tasks : ∀ id t, s.tasks id = some t → t.Ok
  log : (s.view takers entries counted).Inv
  memory : s.store = { store with cassette :=
    { store.cassette with
      interactions := store.cassette.interactions ++ entries.map Prod.snd } }
  file : content s.dir store.fileName =
    if entries = [] then content dir store.fileName else some (s.store.cassette.writeTo C.json)
  count : s.recordedCount = UInt64.ofNat counted.length
  handed : ∀ p ∈ entries, ∃ t, s.tasks p.1 = some t ∧ t.exchange.attempted = some p.2

/-- Everything still holds in the next pool, and the log has taken a step. -/
structure Advances (dir : Dir String) (store : Store) (takers : List ℕ)
    (entries : List (ℕ × Interaction)) (counts : List ℕ) (s : Pool C) (takers' : List ℕ)
    (entries' : List (ℕ × Interaction)) (counts' : List ℕ) (s' : Pool C) : Prop where
  recorded : Recorded dir store takers' entries' counts' s'
  log : LockedLog.Step (s.view takers entries counts) (s'.view takers' entries' counts')

variable {dir : Dir String} {store : Store} {takers : List ℕ} {entries : List (ℕ × Interaction)}
  {counts : List ℕ} {s : Pool C}

theorem Recorded.refl (h : Recorded dir store takers entries counts s) :
    Advances dir store takers entries counts s takers entries counts s :=
  ⟨h, .quiet _⟩

theorem recorded_start (dir : Dir String) (store : Store) :
    Recorded dir store [] [] [] (start dir store : Pool C) where
  tasks id t h := nomatch h
  log := LockedLog.inv_start
  memory := by simp [start]
  file := by simp [start]
  count := rfl
  handed p h := nomatch h

theorem status_appended (x : Exchange C) (phase : Phase) (hphase : phase ≠ .finished) :
    Task.status ⟨x, phase, some (.done (.ok ()))⟩ = .appended := by
  cases phase <;> first | rfl | exact absurd rfl hphase

/-- The log of a pool in which a request has gone on. -/
theorem view_set {id : ℕ} {x : Exchange C} {phase : Phase} {job : Option Job} {s' : Pool C}
    (htasks : s'.tasks = (s.set id x phase job).tasks) (takers : List ℕ)
    (entries : List (ℕ × Interaction)) (counts : List ℕ) :
    s'.view takers entries counts =
      ⟨Function.update s.status id (Task.status ⟨x, phase, job⟩), s'.holder, s'.poisoned, takers,
        entries, counts⟩ := by
  have hstatus : s'.status = (s.set id x phase job).status := by
    funext other
    simp only [status, htasks]
  rw [view, hstatus, status_set]

/-- A request goes on. -/
theorem Recorded.set (h : Recorded dir store takers entries counts s) {id : ℕ} {x : Exchange C}
    {phase : Phase} {job : Option Job} (hok : Task.Ok ⟨x, phase, job⟩)
    (hsame : ∀ t, s.tasks id = some t → t.exchange = x) {takers' : List ℕ}
    {entries' : List (ℕ × Interaction)} {counts' : List ℕ} {s' : Pool C}
    (htasks : s'.tasks = (s.set id x phase job).tasks)
    (hlog : LockedLog.Step (s.view takers entries counts)
      ⟨Function.update s.status id (Task.status ⟨x, phase, job⟩), s'.holder, s'.poisoned, takers',
        entries', counts'⟩)
    (hmemory : s'.store = { store with cassette :=
      { store.cassette with
        interactions := store.cassette.interactions ++ entries'.map Prod.snd } })
    (hfile : content s'.dir store.fileName =
      if entries' = [] then content dir store.fileName
      else some (s'.store.cassette.writeTo C.json))
    (hcount : s'.recordedCount = UInt64.ofNat counts'.length)
    (hhanded : ∀ p ∈ entries', p ∈ entries ∨ p.1 = id ∧ x.attempted = some p.2) :
    Advances dir store takers entries counts s takers' entries' counts' s' := by
  have hview : LockedLog.Step (s.view takers entries counts)
      (s'.view takers' entries' counts') := by
    rw [view_set htasks]
    exact hlog
  refine ⟨⟨?_, h.log.step hview, hmemory, hfile, hcount, ?_⟩, hview⟩
  · intro other t ht
    rw [htasks] at ht
    by_cases hother : other = id
    · subst hother
      obtain rfl : _ = t := by simpa [Pool.set] using ht
      exact hok
    · exact h.tasks other t (by simpa [Pool.set, hother] using ht)
  · intro p hp
    rw [htasks]
    by_cases hid : p.1 = id
    · refine ⟨⟨x, phase, job⟩, by simp [Pool.set, hid], ?_⟩
      rcases hhanded p hp with hold | ⟨-, hx⟩
      · obtain ⟨t, ht, hattempted⟩ := h.handed p hold
        rw [hid] at ht
        rw [← hsame t ht]
        exact hattempted
      · exact hx
    · rcases hhanded p hp with hold | ⟨hid', -⟩
      · obtain ⟨t, ht, hattempted⟩ := h.handed p hold
        exact ⟨t, by simpa [Pool.set, hid] using ht, hattempted⟩
      · exact (hid hid').elim

/-- A request goes on without touching the log. -/
theorem Recorded.quiet (h : Recorded dir store takers entries counts s) {id : ℕ} {x : Exchange C}
    {phase : Phase} {job : Option Job} (hok : Task.Ok ⟨x, phase, job⟩)
    (hsame : ∀ t, s.tasks id = some t → t.exchange = x)
    (hstatus : Task.status ⟨x, phase, job⟩ = s.status id) (failures : UInt64) :
    Advances dir store takers entries counts s takers entries counts
      { s.set id x phase job with failureCount := failures } := by
  refine h.set hok hsame rfl ?_ h.memory h.file h.count fun p hp => Or.inl hp
  rw [hstatus, Function.update_eq_self]
  exact .quiet (s.view takers entries counts)

/-- The request that a step is about. -/
theorem Recorded.same {id : ℕ} {t : Task C} (ht : s.tasks id = some t) :
    ∀ t', s.tasks id = some t' → t'.exchange = t.exchange := by
  intro t' ht'
  rw [Option.some.inj (ht.symm.trans ht')]

theorem status_eq {id : ℕ} {t : Task C} (ht : s.tasks id = some t) : s.status id = t.status := by
  rw [status, ht]
  rfl

/-- Dropping a future that waits leaves its blocking task alone. -/
theorem status_dropped (x : Exchange C) (phase : Phase) (hphase : phase ≠ .finished)
    (job : Option Job) : Task.status ⟨x, .dropped, job⟩ = Task.status ⟨x, phase, job⟩ := by
  rcases job with _ | (_ | _ | (_ | _))
  · rfl
  · rfl
  · rfl
  · rfl
  · cases phase <;> first | rfl | exact absurd rfl hphase

theorem Recorded.arrive (h : Recorded dir store takers entries counts s) (id : ℕ) (x : Exchange C) :
    Advances dir store takers entries counts s takers entries counts
      (s.step (.arrive id x)) := by
  simp only [step]
  cases ht : s.tasks id with
  | some t => exact h.refl
  | none =>
    have hsame : ∀ t, s.tasks id = some t → t.exchange = x := by simp [ht]
    have hstatus : s.status id = .fresh := by simp [status, ht]
    simp only
    split_ifs with hkey
    · exact h.quiet Task.ok_finished hsame hstatus.symm s.failureCount
    · exact h.quiet (Task.ok_sending (Bool.eq_false_of_not_eq_true hkey)) hsame hstatus.symm
        s.failureCount

theorem Recorded.respond (h : Recorded dir store takers entries counts s) (id : ℕ) :
    Advances dir store takers entries counts s takers entries counts
      (s.step (.respond id)) := by
  simp only [step]
  split
  · rename_i x job ht
    obtain ⟨rfl, hkey⟩ := (h.tasks id _ ht).sending rfl
    have hsame := Recorded.same ht
    have hstatus := status_eq ht
    have hfailed := h.quiet Task.ok_finished hsame hstatus.symm (s.failureCount + 1)
    split_ifs with hstreaming
    · cases hstream : x.stream with
      | error e => exact hfailed
      | ok response =>
        exact h.quiet (Task.ok_reading (x.reads_start hkey hstreaming hstream)) hsame hstatus.symm
          s.failureCount
    · cases hsend : x.send with
      | error e => exact hfailed
      | ok response =>
        cases hbuild : C.buildInteraction x.request response x.metadata with
        | error e => simp only [hbuild]; exact hfailed
        | ok i =>
          have hattempted : x.attempted = some i := by
            simp [Exchange.attempted, hkey, hstreaming, hsend, hbuild, Except.toOption]
          simp only [hbuild]
          exact h.quiet (Task.ok_built hattempted) hsame hstatus.symm s.failureCount
  · exact h.refl

theorem Recorded.poll (h : Recorded dir store takers entries counts s) (id : ℕ) :
    Advances dir store takers entries counts s takers entries counts
      (s.step (.poll id)) := by
  simp only [step]
  split
  · rename_i x recording now times job ht
    obtain ⟨rfl, hreads⟩ := (h.tasks id _ ht).reading _ _ rfl
    have hsame := Recorded.same ht
    have hstatus := status_eq ht
    cases hhead : (appends (recording.polled C x.metadata now)).head? with
    | some i => exact h.quiet (Task.ok_built (hreads.attempted hhead)) hsame hstatus.symm _
    | none =>
      have hnext := hreads.step (List.head?_eq_none_iff.1 hhead)
      cases hstream : (recording.step C x.metadata now).stream with
      | none => exact h.quiet Task.ok_finished hsame hstatus.symm _
      | some state => exact h.quiet (Task.ok_reading hnext) hsame hstatus.symm _
  · exact h.refl

theorem Recorded.spawn (h : Recorded dir store takers entries counts s) (id : ℕ) :
    Advances dir store takers entries counts s takers entries counts
      (s.step (.spawn id)) := by
  simp only [step]
  split
  · rename_i x i job ht
    obtain ⟨rfl, hattempted⟩ := (h.tasks id _ ht).built i rfl
    exact h.quiet (Task.ok_waiting hattempted) (Recorded.same ht) (status_eq ht).symm
      s.failureCount
  · exact h.refl

theorem Recorded.drop (h : Recorded dir store takers entries counts s) (id : ℕ) :
    Advances dir store takers entries counts s takers entries counts
      (s.step (.drop id)) := by
  simp only [step]
  split
  · rename_i x job ht
    exact h.quiet (h.tasks id _ ht).dropped (Recorded.same ht)
      ((status_dropped x .sending nofun job).trans (status_eq ht).symm) s.failureCount
  · rename_i x recording times job ht
    exact h.quiet (h.tasks id _ ht).dropped (Recorded.same ht)
      ((status_dropped x (.reading recording times) nofun job).trans (status_eq ht).symm)
      s.failureCount
  · rename_i x job ht
    exact h.quiet (h.tasks id _ ht).dropped (Recorded.same ht)
      ((status_dropped x .waiting nofun job).trans (status_eq ht).symm) s.failureCount
  · exact h.refl

theorem Recorded.lock (h : Recorded dir store takers entries counts s) (id : ℕ) :
    Advances dir store takers entries counts s (takers ++ s.taken (.lock id)) entries counts
      (s.step (.lock id)) := by
  cases ht : s.tasks id with
  | none => simpa [step, taken, ht] using h.refl
  | some t =>
    obtain ⟨x, phase, job⟩ := t
    have hok := h.tasks id _ ht
    have hstatus := status_eq ht
    rcases job with _ | (i | i | result)
    · simpa [step, taken, ht] using h.refl
    · cases hholder : s.holder with
      | some other => simpa [step, taken, ht, hholder] using h.refl
      | none =>
        cases hpoisoned : s.poisoned with
        | true =>
          simp only [step, taken, ht, hholder, hpoisoned, if_true, List.append_nil]
          refine h.set (hok.done _) (Recorded.same ht) rfl ?_ h.memory h.file h.count
            fun p hp => Or.inl hp
          exact .refuse (s.view takers entries counts) id hstatus hpoisoned
        | false =>
          simp only [step, taken, ht, hholder, hpoisoned, Bool.false_eq_true, if_false]
          refine h.set hok.locked_of_queued (Recorded.same ht) rfl ?_ h.memory h.file h.count
            fun p hp => Or.inl hp
          exact .take (s.view takers entries counts) id hstatus hholder hpoisoned
    · simpa [step, taken, ht] using h.refl
    · simpa [step, taken, ht] using h.refl

theorem Recorded.append (h : Recorded dir store takers entries counts s) (id : ℕ) :
    Advances dir store takers entries counts s takers (entries ++ s.appended (.append id)) counts
      (s.step (.append id)) := by
  cases ht : s.tasks id with
  | none => simpa [step, appended, ht] using h.refl
  | some t =>
    obtain ⟨x, phase, job⟩ := t
    have hok := h.tasks id _ ht
    rcases job with _ | (i | i | result)
    · simpa [step, appended, ht] using h.refl
    · simpa [step, appended, ht] using h.refl
    · have hholder : s.holder = some id := (h.log.held id).2 (status_eq ht)
      rcases append_spec C.json x.faults s.dir s.store i with
        ⟨ops, heq, hops⟩ | ⟨ops, e, heq, hops⟩
      -- memory and file are extended, and the entry is the next of the log
      · simp only [step, appended, ht, heq, Except.mapError]
        rw [h.memory] at hops
        refine h.set (hok.done _) (Recorded.same ht) rfl ?_ ?_ ?_ h.count ?_
        · rw [status_appended x phase (hok.locked i rfl).1]
          exact .append (s.view takers entries counts) id i hholder
        · simp [h.memory, Cassette.append]
        · rw [hops, if_neg (List.append_ne_nil_of_right_ne_nil _ (List.cons_ne_nil _ _)), h.memory]
        · intro p hp
          rcases List.mem_append.1 hp with hold | hnew
          · exact Or.inl hold
          · rw [List.mem_singleton.1 hnew]
            exact Or.inr ⟨rfl, (hok.locked i rfl).2⟩
      · simp only [step, appended, ht, heq, Except.mapError, List.append_nil]
        rw [h.memory] at hops
        exact h.set (hok.done _) (Recorded.same ht) rfl
          (.fail (s.view takers entries counts) id hholder) h.memory (hops.trans h.file) h.count
          fun p hp => Or.inl hp
    · simpa [step, appended, ht] using h.refl

theorem Recorded.resume (h : Recorded dir store takers entries counts s) (id : ℕ) :
    Advances dir store takers entries counts s takers entries (counts ++ s.counted (.resume id))
      (s.step (.resume id)) := by
  cases ht : s.tasks id with
  | none => simpa [step, counted, ht] using h.refl
  | some t =>
    obtain ⟨x, phase, job⟩ := t
    have hstatus := status_eq ht
    cases phase with
    | waiting =>
      rcases job with _ | (i | i | (e | ⟨⟨⟩⟩))
      · simpa [step, counted, ht] using h.refl
      · simpa [step, counted, ht] using h.refl
      · simpa [step, counted, ht] using h.refl
      · simp only [step, counted, ht, List.append_nil]
        exact h.quiet (Task.ok_counted (.error e)) (Recorded.same ht) hstatus.symm _
      · simp only [step, counted, ht]
        have hcount : s.recordedCount + 1 = UInt64.ofNat (counts ++ [id]).length := by
          rw [h.count, List.length_append, List.length_singleton, UInt64.ofNat_add,
            UInt64.ofNat_one]
        exact h.set (Task.ok_counted _) (Recorded.same ht) rfl
          (.count (s.view takers entries counts) id hstatus) h.memory h.file hcount
          fun p hp => Or.inl hp
    | _ => simpa [step, counted, ht] using h.refl

theorem Recorded.poison (h : Recorded dir store takers entries counts s) :
    Advances dir store takers entries counts s takers entries counts
      (s.step .poison) := by
  simp only [step]
  split
  · exact h.refl
  · rename_i hholder
    have hlog := LockedLog.Step.poison (s.view takers entries counts) hholder
    exact ⟨{ h with log := h.log.step hlog }, hlog⟩

/-- Every step of every request keeps what holds, and is a step of the log. -/
theorem Recorded.step (h : Recorded dir store takers entries counts s) (e : Event C) :
    Advances dir store takers entries counts s (takers ++ s.taken e) (entries ++ s.appended e)
      (counts ++ s.counted e) (s.step e) := by
  cases e with
  | lock id => simpa [appended, counted] using h.lock id
  | append id => simpa [taken, counted] using h.append id
  | resume id => simpa [taken, appended] using h.resume id
  | arrive id x => simpa [taken, appended, counted] using h.arrive id x
  | respond id => simpa [taken, appended, counted] using h.respond id
  | poll id => simpa [taken, appended, counted] using h.poll id
  | spawn id => simpa [taken, appended, counted] using h.spawn id
  | drop id => simpa [taken, appended, counted] using h.drop id
  | poison => simpa [taken, appended, counted] using h.poison

theorem Recorded.run (h : Recorded dir store takers entries counts s) (es : List (Event C)) :
    Recorded dir store (takers ++ Runs.collect Pool.step taken s es)
      (entries ++ Runs.collect Pool.step appended s es)
      (counts ++ Runs.collect Pool.step Pool.counted s es) (Runs.run Pool.step s es) := by
  induction es generalizing s takers entries counts with
  | nil => simpa [Runs.collect] using h
  | cons e es ih => simpa [Runs.collect, List.append_assoc] using ih (h.step e).recorded

/-- All appended interactions are counted once every request is over and none was dropped. -/
theorem Recorded.count_eq (h : Recorded dir store takers entries counts s)
    (hfinished : ∀ id t, s.tasks id = some t → t.phase = .finished) :
    s.recordedCount = UInt64.ofNat entries.length := by
  rw [h.count]
  refine congrArg UInt64.ofNat (h.log.counted_eq fun id happended => ?_)
  cases ht : s.tasks id with
  | none => simp [view, status, ht] at happended
  | some t =>
    obtain ⟨x, phase, job⟩ := t
    -- a request that has come to its end has counted what it appended
    obtain rfl : phase = .finished := hfinished id _ ht
    have hstatus : Task.status ⟨x, .finished, job⟩ = .appended :=
      (status_eq ht).symm.trans happended
    rcases job with _ | (_ | _ | (_ | _)) <;> cases hstatus

/-! ### The lock is poisoned -/

/-- A task is refused a poisoned lock, and ends with an error. -/
theorem Recorded.lock_poisoned (h : Recorded dir store takers entries counts s)
    (hpoisoned : s.poisoned = true) {id : ℕ} {x : Exchange C} {phase : Phase} {i : Interaction}
    (ht : s.tasks id = some ⟨x, phase, some (.queued i)⟩) :
    s.step (.lock id) = s.set id x phase (some (.done (.error .internal))) := by
  have hfree : s.holder = none := h.log.safe hpoisoned
  simp only [Pool.step, ht, hfree, hpoisoned, if_true]

/-- A poisoned lock stays poisoned, and memory and file stay as they are. -/
theorem Recorded.run_poisoned (h : Recorded dir store takers entries counts s)
    (hpoisoned : s.poisoned = true) (es : List (Event C)) :
    ∃ counts', Recorded dir store takers entries counts' (Runs.run Pool.step s es) ∧
      (Runs.run Pool.step s es).poisoned = true := by
  induction es generalizing s counts with
  | nil => exact ⟨counts, h, hpoisoned⟩
  | cons e es ih =>
    obtain ⟨hnext, hlog⟩ := h.step e
    obtain ⟨hstill, htakers, hentries⟩ := h.log.step_poisoned hpoisoned hlog
    rw [List.append_right_eq_self.1 htakers, List.append_right_eq_self.1 hentries,
      List.append_nil, List.append_nil] at hnext
    exact ih hnext hstill

/-- **Recording concurrently.**  After every run of every set of requests, the store holds what it
held at the start followed by the interactions of the successful appends in the order in which their
tasks took the lock, and once there is one the file is the document of the store.  Each is what its
request handed over, no request has two, no more are counted than were appended, and all of them,
in a counter that wraps, if every request has come to its end and none was dropped.  Once the lock
is poisoned, whatever happens leaves the store and the file as they are, and a task that comes for
the lock fails. -/
theorem concurrent_recording (dir : Dir String) (store : Store) (es : List (Event C)) :
    let s := Runs.run step (start dir store) es
    let takers := Runs.collect step taken (start dir store) es
    let entries := Runs.collect step appended (start dir store) es
    s.store = { store with cassette :=
        { store.cassette with
          interactions := store.cassette.interactions ++ entries.map Prod.snd } } ∧
      content s.dir store.fileName =
        (if entries = [] then content dir store.fileName
        else some (s.store.cassette.writeTo C.json)) ∧
      (entries.map Prod.fst).Sublist takers ∧ takers.Nodup ∧
      (∀ p ∈ entries, ∃ t, s.tasks p.1 = some t ∧ t.exchange.attempted = some p.2) ∧
      s.recordedCount.toNat ≤ entries.length ∧
      ((∀ id t, s.tasks id = some t → t.phase = .finished) →
        s.recordedCount = UInt64.ofNat entries.length) ∧
      (s.poisoned = true → ∀ more,
        let s' := Runs.run step s more
        s'.poisoned = true ∧ s'.store = s.store ∧
          content s'.dir store.fileName = content s.dir store.fileName ∧
          ∀ id x phase i, s'.tasks id = some ⟨x, phase, some (.queued i)⟩ →
            s'.step (.lock id) = s'.set id x phase (some (.done (.error .internal)))) := by
  intro s takers entries
  have h : Recorded dir store takers entries _ s := (recorded_start dir store).run es
  refine ⟨h.memory, h.file, h.log.order, h.log.takers, h.handed, ?_, h.count_eq, ?_⟩
  · rw [h.count, UInt64.toNat_ofNat']
    exact (Nat.mod_le _ _).trans h.log.counted_le
  · intro hpoisoned more s'
    obtain ⟨counts', h', hpoisoned'⟩ := h.run_poisoned hpoisoned more
    have hstore : s'.store = s.store := h'.memory.trans h.memory.symm
    refine ⟨hpoisoned', hstore, ?_, fun id x phase i ht => h'.lock_poisoned hpoisoned' ht⟩
    rw [h'.file, h.file, hstore]

/-- The second of two requests takes the lock first; then the lock is poisoned, and the first is
refused. -/
theorem concurrent_recording_poisoned :
    let C : RecordConfig := ⟨.exact, Sha256.digest, .default⟩
    let v : Json := .object [("model", .string "m")]
    let x : Exchange C :=
      { request := ⟨"POST", chatCompletionsPath, "", [], [], SerdeJson.exact.toWriterPretty v,
          some v⟩
        apiKey := some "key"
        send := .ok ⟨200, [], [], SerdeJson.exact.toWriterPretty v, some v⟩
        stream := .error (.io .other)
        metadata := .ok ⟨"chat", "up", "now", 0⟩
        started := 0
        times := []
        faults := .none
        observed := RecordConfig.observes_exact rfl rfl (by decide) (by decide)
        observedResponse := by
          rintro _ ⟨⟩
          exact RecordConfig.observesResponse_exact rfl rfl (by decide) (by decide)
        clockRuns := by rintro _ ⟨⟩ }
    let s := Runs.run step (start (fun _ => none) ⟨"c.json", .new⟩)
      [.arrive 1 x, .arrive 2 x, .respond 1, .respond 2, .spawn 1, .spawn 2, .lock 2, .append 2,
        .resume 2, .poison]
    s.store.cassette.interactions.length = 1 ∧ s.recordedCount = 1 ∧
      (Runs.run step s [.lock 1, .append 1, .resume 1]).store = s.store := by
  intro C v x s
  obtain ⟨hstore, -, -, -, -, -, -, hpoisoned⟩ := concurrent_recording (C := C) (fun _ => none)
    ⟨"c.json", .new⟩ [.arrive 1 x, .arrive 2 x, .respond 1, .respond 2, .spawn 1, .spawn 2,
      .lock 2, .append 2, .resume 2, .poison]
  refine ⟨?_, by decide +kernel, (hpoisoned (by decide +kernel) _).2.1⟩
  rw [show s.store = _ from hstore]
  simp only [List.length_append, List.length_map]
  decide +kernel

end Pool

end SpycatcherHarness
