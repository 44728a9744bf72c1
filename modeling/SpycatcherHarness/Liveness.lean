import SpycatcherHarness.Machine.Rounds
import SpycatcherHarness.Replay.Concurrent
import SpycatcherHarness.Server.Concurrent

/-!
# No request waits forever

Requests on the clones of a service wait for each other at the lock.  Whatever has happened so far,
once every request gets its turns in rounds, in any order, all of them come to their end: whoever
has the lock gives it back, and whoever waits for it gets it.

* `ReplayPool.advance_spec` : what one turn of a replayed request does.
* `ReplayPool.all_answered` : every request to a replaying service is told something.
* `Pool.turn_spec` : what one turn of a recorded request does.
* `Pool.all_finish` : every request to a recording service comes to its end.
-/

namespace SpycatcherHarness

/-! ### Replaying -/

namespace ReplayPhase

/-- The request has the lock. -/
def hasLock : ReplayPhase → Bool
  | .locked _ | .peeked _ _ | .built _ _ _ | .leaving _ => true
  | .arrived | .rejected _ | .ready _ | .counting _ | .returned _ => false

/-- The steps that are left for the request, at most. -/
def left : ReplayPhase → ℕ
  | .arrived => 7
  | .ready _ => 6
  | .locked _ => 5
  | .peeked _ _ => 4
  | .built _ _ _ => 3
  | .leaving _ => 2
  | .counting _ => 1
  | .rejected _ | .returned _ => 0

/-- The request has been told something. -/
theorem over_of_left {phase : ReplayPhase} (h : phase.left = 0) :
    (∃ e, phase = .rejected e) ∨ ∃ result, phase = .returned result := by
  cases phase with
  | rejected e => exact .inl ⟨e, rfl⟩
  | returned result => exact .inr ⟨result, rfl⟩
  | _ => cases h

end ReplayPhase

namespace ReplayPool

variable {sha256 : Bytes → Bytes} {s : ReplayPool} {id : ℕ} {request : ObservedRequest}
  {phase : ReplayPhase}

/-- The lock is with a request that is going to give it back. -/
def Held (s : ReplayPool) : Prop :=
  ∀ id, s.holder = some id → ∃ t, s.tasks id = some t ∧ t.phase.hasLock = true

/-- What one turn of a request can do. -/
inductive Turn (s : ReplayPool) (id : ℕ) (request : ObservedRequest) (phase : ReplayPhase)
    (s' : ReplayPool) : Prop
  | told (none_left : phase.left = 0) (same : s' = s)
  | waits (lookup : Lookup) (ready : phase = .ready lookup) (other : ℕ)
      (taken : s.holder = some other) (same : s' = s)
  | moves (next : ReplayPhase)
      (tasks : s'.tasks = Function.update s.tasks id (some ⟨request, next⟩))
      (less : next.left < phase.left)
      (held : ∀ other, s'.holder = some other →
        other = id ∧ next.hasLock = true ∨ other ≠ id ∧ s.holder = some other)

/-- **One turn.**  A request that is not over goes on, or waits for the lock. -/
theorem advance_spec (hs : s.Held) (ht : s.tasks id = some ⟨request, phase⟩) :
    Turn s id request phase (s.advance sha256 id request phase) := by
  have hkeep : ∀ next : ReplayPhase, phase.hasLock = next.hasLock → ∀ other,
      s.holder = some other →
        other = id ∧ next.hasLock = true ∨ other ≠ id ∧ s.holder = some other := by
    intro next hnext other hother
    by_cases heq : other = id
    · subst heq
      obtain ⟨t, ht', hlock⟩ := hs other hother
      obtain rfl := Option.some.inj (ht'.symm.trans ht)
      exact .inl ⟨rfl, hnext ▸ hlock⟩
    · exact .inr ⟨heq, hother⟩
  cases phase with
  | arrived =>
    simp only [ReplayPool.advance, prepare_eq]
    split_ifs
    · exact .moves _ rfl (by simp [ReplayPhase.left]) (hkeep _ rfl)
    · exact .moves _ rfl (by simp [ReplayPhase.left]) (hkeep _ rfl)
  | rejected e => exact .told rfl rfl
  | returned result => exact .told rfl rfl
  | ready lookup =>
    cases hholder : s.holder with
    | some other =>
      simp only [ReplayPool.advance, hholder]
      exact .waits lookup rfl other hholder rfl
    | none =>
      simp only [ReplayPool.advance, hholder]
      split_ifs
      · exact .moves _ rfl (by simp [ReplayPhase.left]) (hkeep _ rfl)
      · refine .moves _ rfl (by simp [ReplayPhase.left]) fun other hother => ?_
        exact .inl ⟨(Option.some.inj hother).symm, rfl⟩
  | locked lookup => exact .moves _ rfl (by simp [ReplayPhase.left]) (hkeep _ rfl)
  | peeked lookup outcome =>
    cases outcome with
    | mismatch diagnostic => exact .moves _ rfl (by simp [ReplayPhase.left]) (hkeep _ rfl)
    | matched interactionId i =>
      simp only [ReplayPool.advance]
      cases responseFromRecorded i.response lookup.isStreamRequest with
      | error e => exact .moves _ rfl (by simp [ReplayPhase.left]) (hkeep _ rfl)
      | ok response => exact .moves _ rfl (by simp [ReplayPhase.left]) (hkeep _ rfl)
  | built lookup interactionId response =>
    simp only [ReplayPool.advance]
    rcases s.engine.commitMatch interactionId with ⟨_ | _, engine⟩
    · exact .moves _ rfl (by simp [ReplayPhase.left]) (hkeep _ rfl)
    · exact .moves _ rfl (by simp [ReplayPhase.left]) (hkeep _ rfl)
  | leaving result =>
    refine .moves _ rfl (by simp [ReplayPhase.left]) fun other hother => ?_
    simp [ReplayPool.advance] at hother
  | counting result =>
    simp only [ReplayPool.advance]
    rcases result with e | response
    · cases e <;> exact .moves _ rfl (by simp [ReplayPhase.left]) (hkeep _ rfl)
    · exact .moves _ rfl (by simp [ReplayPhase.left]) (hkeep _ rfl)

theorem Turn.held {s' : ReplayPool} (h : Turn s id request phase s') (hs : s.Held) : s'.Held := by
  cases h with
  | told none_left same => rwa [same]
  | waits lookup ready other taken same => rwa [same]
  | moves next tasks less held =>
    intro other hother
    rcases held other hother with ⟨rfl, hlock⟩ | ⟨hne, hold⟩
    · exact ⟨⟨request, next⟩, by rw [tasks, Function.update_self], hlock⟩
    · rw [tasks, Function.update_of_ne hne]
      exact hs other hold

/-- Every event leaves the lock with a request that is going to give it back. -/
theorem Held.step (hs : s.Held) (e : Event) : (s.step sha256 e).Held := by
  cases e with
  | arrive id request =>
    simp only [ReplayPool.step]
    cases ht : s.tasks id with
    | some t => exact hs
    | none =>
      intro other hother
      obtain ⟨t, ht', hlock⟩ := hs other hother
      have hne : other ≠ id := by
        rintro rfl
        rw [ht] at ht'
        cases ht'
      exact ⟨t, (Function.update_of_ne hne _ _).trans ht', hlock⟩
  | advance id =>
    cases ht : s.tasks id with
    | none => simpa only [ReplayPool.step, ht] using hs
    | some t => simpa only [ReplayPool.step, ht] using (advance_spec hs ht).held hs

/-- Only an arrival brings a request that was not there. -/
theorem Held.arrived (hs : s.Held) {e : Event} {t : ReplayTask}
    (ht : (s.step sha256 e).tasks id = some t) :
    (∃ t, s.tasks id = some t) ∨ ∃ request, e = .arrive id request := by
  cases e with
  | arrive other request =>
    by_cases heq : id = other
    · exact .inr ⟨request, by rw [heq]⟩
    · simp only [ReplayPool.step] at ht
      split at ht
      · exact .inl ⟨t, ht⟩
      · exact .inl ⟨t, (Function.update_of_ne heq _ _).symm.trans ht⟩
  | advance other =>
    cases ho : s.tasks other with
    | none => exact .inl ⟨t, by simpa only [ReplayPool.step, ho] using ht⟩
    | some u =>
      simp only [ReplayPool.step, ho] at ht
      cases @advance_spec sha256 _ _ _ _ hs ho with
      | told none_left same => exact .inl ⟨t, same ▸ ht⟩
      | waits lookup ready _ taken same => exact .inl ⟨t, same ▸ ht⟩
      | moves next tasks less held =>
        by_cases heq : id = other
        · exact .inl ⟨u, heq ▸ ho⟩
        · rw [tasks, Function.update_of_ne heq] at ht
          exact .inl ⟨t, ht⟩

/-- A request stays the request that it is. -/
def Same (s s' : ReplayPool) : Prop :=
  ∀ id t, s.tasks id = some t → ∃ t', s'.tasks id = some t' ∧ t'.request = t.request

theorem Same.refl (s : ReplayPool) : s.Same s :=
  fun _ t ht => ⟨t, ht, rfl⟩

theorem Same.trans {s₁ s₂ s₃ : ReplayPool} (h₁ : s₁.Same s₂) (h₂ : s₂.Same s₃) : s₁.Same s₃ := by
  intro id t ht
  obtain ⟨t₂, ht₂, heq₂⟩ := h₁ id t ht
  obtain ⟨t₃, ht₃, heq₃⟩ := h₂ id t₂ ht₂
  exact ⟨t₃, ht₃, heq₃.trans heq₂⟩

theorem Turn.same {s' : ReplayPool} (h : Turn s id request phase s')
    (ht : s.tasks id = some ⟨request, phase⟩) : s.Same s' := by
  intro other t hother
  cases h with
  | told none_left same => exact ⟨t, by rw [same, hother], rfl⟩
  | waits lookup ready _ taken same => exact ⟨t, by rw [same, hother], rfl⟩
  | moves next tasks less held =>
    by_cases heq : other = id
    · subst heq
      obtain rfl := Option.some.inj (hother.symm.trans ht)
      exact ⟨⟨request, next⟩, by rw [tasks, Function.update_self], rfl⟩
    · exact ⟨t, by rw [tasks, Function.update_of_ne heq, hother], rfl⟩

theorem Held.same_step (hs : s.Held) (e : Event) : s.Same (s.step sha256 e) := by
  cases e with
  | arrive id request =>
    simp only [ReplayPool.step]
    cases ht : s.tasks id with
    | some t => exact .refl s
    | none =>
      intro other t hother
      have hne : other ≠ id := by
        rintro rfl
        rw [ht] at hother
        cases hother
      exact ⟨t, (Function.update_of_ne hne _ _).trans hother, rfl⟩
  | advance id =>
    cases ht : s.tasks id with
    | none => exact fun other t hother => ⟨t, by simpa only [ReplayPool.step, ht], rfl⟩
    | some t => simpa only [ReplayPool.step, ht] using (advance_spec hs ht).same ht

theorem Held.same_run (hs : s.Held) (es : List Event) :
    s.Same (Runs.run (ReplayPool.step sha256) s es) := by
  refine Runs.run_rel (I := Held) (R := Same) .refl (fun _ _ _ => .trans) ?_ hs
    (Runs.along_of_forall (fun e _ => trivial) _)
  exact fun s e hs _ => ⟨hs.step e, hs.same_step e⟩

/-- The steps that are left for some requests, at most. -/
def left (ids : List ℕ) (s : ReplayPool) : ℕ :=
  (ids.map fun id => (s.tasks id).elim 0 fun t => t.phase.left).sum

theorem left_le (ids : List ℕ) (s : ReplayPool) : s.left ids ≤ 7 * ids.length := by
  have hle : ∀ n ∈ ids.map fun id => (s.tasks id).elim 0 fun t => t.phase.left, n ≤ 7 := by
    intro n hn
    obtain ⟨id, -, rfl⟩ := List.mem_map.1 hn
    cases s.tasks id with
    | none => exact Nat.zero_le 7
    | some t => cases t with | mk request phase => cases phase <;> simp [ReplayPhase.left]
  have hsum := List.sum_le_card_nsmul _ 7 hle
  rwa [List.length_map, Nat.nsmul_eq_mul, Nat.mul_comm] at hsum

/-- All requests are among those that get turns. -/
structure Turning (ids : List ℕ) (s : ReplayPool) : Prop where
  held : s.Held
  cover : ∀ id t, s.tasks id = some t → id ∈ ids

variable (sha256) in
/-- Turns wind down. -/
theorem windsDown (ids : List ℕ) :
    Runs.WindsDown (step sha256) (Turning ids) (left ids) (ids.map .advance) := by
  constructor
  · intro s hs e he
    obtain ⟨id, hid, rfl⟩ := List.mem_map.1 he
    refine ⟨hs.held.step _, fun other t ht => ?_⟩
    rcases hs.held.arrived ht with ⟨t, ht⟩ | ⟨request, h⟩
    · exact hs.cover other t ht
    · cases h
  · intro s hs e he
    obtain ⟨id, hid, rfl⟩ := List.mem_map.1 he
    cases ht : s.tasks id with
    | none => exact .inl (by simp only [ReplayPool.step, ht])
    | some t =>
      simp only [ReplayPool.step, ht]
      cases @advance_spec sha256 _ _ _ _ hs.held ht with
      | told none_left same => exact .inl same
      | waits lookup ready other taken same => exact .inl same
      | moves next tasks less held =>
        refine .inr ?_
        rw [left, tasks]
        refine @Runs.sum_left_lt _ _ _ (fun t => t.elim 0 fun t => t.phase.left) ids id hid s.tasks
          (some ⟨t.request, next⟩) ?_
        rw [ht]
        exact less

/-- Where no turn changes anything, every request is over: one that waited for the lock would wait
for a request that has a turn to take. -/
theorem Turning.over {ids : List ℕ} (h : Turning ids s)
    (hstill : ∀ e ∈ ids.map Event.advance, s.step sha256 e = s)
    (ht : s.tasks id = some ⟨request, phase⟩) : phase.left = 0 := by
  have hcases : ∀ {id : ℕ} {request : ObservedRequest} {phase : ReplayPhase},
      s.tasks id = some ⟨request, phase⟩ →
        phase.left = 0 ∨ ∃ lookup other, phase = .ready lookup ∧ s.holder = some other := by
    intro id request phase ht
    have hsame := hstill (.advance id) (List.mem_map_of_mem (h.cover id _ ht))
    simp only [ReplayPool.step, ht] at hsame
    have hturn := @advance_spec sha256 _ _ _ _ h.held ht
    rw [hsame] at hturn
    cases hturn with
    | told none_left => exact .inl none_left
    | waits lookup ready other taken => exact .inr ⟨lookup, other, ready, taken⟩
    | moves next tasks less held =>
      have hnext := congrFun tasks id
      rw [Function.update_self, ht] at hnext
      cases hnext
      exact absurd less (lt_irrefl _)
  rcases hcases ht with hover | ⟨lookup, other, rfl, hholder⟩
  · exact hover
  · obtain ⟨⟨request', phase'⟩, ht', hlock⟩ := h.held other hholder
    rcases hcases ht' with hover | ⟨lookup', -, rfl, -⟩
    · cases phase' <;> simp [ReplayPhase.left, ReplayPhase.hasLock] at hover hlock
    · cases hlock

/-- **No request waits forever.**  Whatever has happened to requests on the clones of a new service,
once each of them gets turns in rounds, in any order and any number of times, all are told something
after seven rounds for each of them, and the lock is free. -/
theorem all_answered (engine : ReplayMatchEngine) (sha256 : Bytes → Bytes) (es : List Event)
    {ids : List ℕ} (hids : ∀ id request, .arrive id request ∈ es → id ∈ ids)
    {rounds : List (List ℕ)} (hrounds : ∀ round ∈ rounds, ∀ id, id ∈ round ↔ id ∈ ids)
    (hlength : 7 * ids.length ≤ rounds.length) :
    let s := Runs.run (step sha256) (start engine) es
    let s' := Runs.run (step sha256) s (rounds.flatten.map .advance)
    s'.holder = none ∧ ∀ id request phase, s.tasks id = some ⟨request, phase⟩ →
      (∃ e, s'.tasks id = some ⟨request, .rejected e⟩) ∨
        ∃ result, s'.tasks id = some ⟨request, .returned result⟩ := by
  intro s s'
  have hturning : Turning ids s := by
    refine Runs.run_invariant (I := Turning ids) (fun s e hs he => ?_) ?_
      (Runs.along_of_forall (P := fun e => ∀ id request, e = .arrive id request → id ∈ ids) ?_ _)
    · refine ⟨hs.held.step e, fun id t ht => ?_⟩
      rcases hs.held.arrived ht with ⟨t, ht⟩ | ⟨request, h⟩
      · exact hs.cover id t ht
      · exact he id request h
    · exact ⟨fun id h => by simp [start] at h, fun id t h => by simp [start] at h⟩
    · rintro e he id request rfl
      exact hids id request he
  have hwinds := windsDown sha256 ids
  have hturns : ∀ round ∈ rounds.map (List.map Event.advance), ∀ e,
      e ∈ round ↔ e ∈ ids.map Event.advance := by
    intro round hround e
    obtain ⟨of, hof, rfl⟩ := List.mem_map.1 hround
    simp only [List.mem_map, hrounds of hof]
  have hstill := hwinds.still_of_rounds hturns hturning
    ((s.left_le ids).trans (by rwa [List.length_map]))
  rw [← List.map_flatten] at hstill
  have hturning' : Turning ids s' := by
    refine hwinds.run_inv hturning fun e he => ?_
    obtain ⟨id, hid, rfl⟩ := List.mem_map.1 he
    obtain ⟨round, hround, hid⟩ := List.mem_flatten.1 hid
    exact List.mem_map_of_mem ((hrounds round hround id).1 hid)
  have hover := fun id request phase =>
    @Turning.over sha256 s' id request phase ids hturning' hstill
  constructor
  -- a request that had the lock would not be over
  · by_contra hheld
    obtain ⟨other, hother⟩ := Option.ne_none_iff_exists'.1 hheld
    obtain ⟨⟨request, phase⟩, ht, hlock⟩ := hturning'.held other hother
    have hzero := hover other request phase ht
    cases phase <;> simp [ReplayPhase.left, ReplayPhase.hasLock] at hzero hlock
  · intro id request phase ht
    obtain ⟨⟨request', phase'⟩, ht', rfl⟩ := Held.same_run hturning.held _ id _ ht
    rcases ReplayPhase.over_of_left (hover id _ _ ht') with ⟨e, rfl⟩ | ⟨result, rfl⟩
    · exact .inl ⟨e, ht'⟩
    · exact .inr ⟨result, ht'⟩

/-- One of two requests has the lock, and the other waits for it. -/
theorem all_answered_two :
    let request : ObservedRequest :=
      ⟨"POST", chatCompletionsPath, "", [], [], [], some (.object [("model", .string "m")])⟩
    let engine : ReplayMatchEngine :=
      { cassette := .ofHashes [""], interactions := [⟨"", none⟩], mode := .sequentialStrict
        sequentialCursor := 0, hashToIndices := fun _ => none, consumed := [false]
        parallel := .cons ⟨rfl, rfl⟩ .nil, indexed := rfl }
    let s := Runs.run (step fun _ => []) (start engine)
      [.arrive 1 request, .arrive 2 request, .advance 1, .advance 1, .advance 2]
    let s' := Runs.run (step fun _ => []) s ((List.replicate 14 [2, 1]).flatten.map .advance)
    s.holder = some 1 ∧ s'.holder = none ∧
      ((∃ e, s'.tasks 2 = some ⟨request, .rejected e⟩) ∨
        ∃ result, s'.tasks 2 = some ⟨request, .returned result⟩) := by
  intro request engine s s'
  have hids : ∀ id x, Event.arrive id x ∈ [.arrive 1 request, .arrive 2 request, .advance 1,
      .advance 1, .advance 2] → id ∈ [1, 2] := by
    intro id x h
    simp only [List.mem_cons, Event.arrive.injEq, reduceCtorEq, List.not_mem_nil, or_false] at h ⊢
    exact h.imp And.left And.left
  have hrounds : ∀ round ∈ List.replicate 14 [2, 1], ∀ id, id ∈ round ↔ id ∈ [1, 2] := by
    intro round hround id
    rw [List.eq_of_mem_replicate hround]
    simp [or_comm]
  obtain ⟨hfree, htold⟩ := all_answered engine (fun _ => []) _ hids hrounds (by simp)
  have hstate : s.holder = some 1 ∧
      s.tasks 2 = some ⟨request, .ready (lookupOf (fun _ => []) request)⟩ := by
    have hready : ReplayPool.prepare (fun _ => []) request =
        .ready (lookupOf (fun _ => []) request) := prepare_eq request
    simp [s, Runs.run, step, start, ReplayPool.set, advance, hready]
  have htold := htold 2 request _ hstate.2
  unfold s' s
  exact ⟨hstate.1, hfree, htold⟩

end ReplayPool

/-! ### Recording -/

section

open Files Store

variable {C : RecordConfig}

namespace Task

/-- The steps that are left for the future of a request, at most. -/
def futureLeft (t : Task C) : ℕ :=
  match t.phase with
  | .sending => t.exchange.times.length + 7
  | .reading _ times => times.length + 6
  | .built _ => 5
  | .waiting => 1
  | .finished | .dropped => 0

/-- The steps that are left for its blocking task. -/
def jobLeft (t : Task C) : ℕ :=
  match t.job with
  | some (.queued _) => 2
  | some (.locked _) => 1
  | none | some (.done _) => 0

/-- The steps that are left for a request, at most. -/
def left (t : Task C) : ℕ := t.futureLeft + t.jobLeft

/-- The request is over, or its client does not read on, and its blocking task is done. -/
structure Over (t : Task C) : Prop where
  future : t.phase = .finished ∨ t.phase = .dropped ∨ ∃ r, t.phase = .reading r []
  job : ∀ job, t.job = some job → ∃ result, job = .done result

end Task

namespace Pool

variable {s : Pool C} {id : ℕ}

/-- A request has gone on. -/
def Moves (s : Pool C) (id : ℕ) (s' : Pool C) : Prop :=
  ∃ t t', s.tasks id = some t ∧ s'.tasks = Function.update s.tasks id (some t') ∧
    t'.left < t.left ∧ t'.exchange = t.exchange

theorem Moves.ne {s' : Pool C} (h : Moves s id s') : s' ≠ s := by
  rintro rfl
  obtain ⟨t, t', ht, htasks, hless, -⟩ := h
  have hsame := congrFun htasks id
  rw [Function.update_self, ht] at hsame
  obtain rfl := Option.some.inj hsame
  exact absurd hless (lt_irrefl _)

/-- An event takes a request further if it can, and otherwise changes nothing. -/
structure Acts (s : Pool C) (id : ℕ) (e : Event C) (can : Prop) : Prop where
  moves : can → Moves s id (s.step e)
  rests : ¬ can → s.step e = s

theorem Acts.spec {e : Event C} {can : Prop} (h : Acts s id e can) :
    s.step e = s ∨ Moves s id (s.step e) := by
  by_cases hcan : can
  · exact .inr (h.moves hcan)
  · exact .inl (h.rests hcan)

/-- Where an event changes nothing, it could not take the request further. -/
theorem Acts.not {e : Event C} {can : Prop} (h : Acts s id e can) (hsame : s.step e = s) : ¬ can :=
  fun hcan => (h.moves hcan).ne hsame

theorem acts_respond (s : Pool C) (id : ℕ) :
    Acts s id (.respond id) (∃ x job, s.tasks id = some ⟨x, .sending, job⟩) := by
  constructor
  · rintro ⟨x, job, ht⟩
    have hmoves : ∀ phase : Phase, (⟨x, phase, job⟩ : Task C).futureLeft < x.times.length + 7 →
        ∀ count, Moves s id { s.set id x phase job with failureCount := count } :=
      fun phase hless _ => ⟨_, _, ht, rfl, Nat.add_lt_add_right hless _, rfl⟩
    simp only [step, ht]
    split_ifs
    · cases x.stream with
      | error e => exact hmoves _ (by simp [Task.futureLeft]) _
      | ok response => exact hmoves _ (by simp [Task.futureLeft]) s.failureCount
    · cases x.send with
      | error e => exact hmoves _ (by simp [Task.futureLeft]) _
      | ok response =>
        cases hbuild : C.buildInteraction x.request response x.metadata with
        | error e => simp only [hbuild]; exact hmoves _ (by simp [Task.futureLeft]) _
        | ok i => simp only [hbuild]; exact hmoves _ (by simp [Task.futureLeft]) s.failureCount
  · intro hcan
    simp only [step]
    split
    · rename_i x job ht
      exact absurd ⟨x, job, ht⟩ hcan
    · rfl

theorem acts_poll (s : Pool C) (id : ℕ) : Acts s id (.poll id)
    (∃ x recording now times job,
      s.tasks id = some ⟨x, .reading recording (now :: times), job⟩) := by
  constructor
  · rintro ⟨x, recording, now, times, job, ht⟩
    have hmoves : ∀ phase : Phase, (⟨x, phase, job⟩ : Task C).futureLeft < times.length + 1 + 6 →
        ∀ count, Moves s id { s.set id x phase job with failureCount := count } :=
      fun phase hless _ => ⟨_, _, ht, rfl, Nat.add_lt_add_right hless _, rfl⟩
    simp only [step, ht]
    refine hmoves _ ?_ _
    cases (appends (recording.polled C x.metadata now)).head? with
    | some i => simp [Task.futureLeft]
    | none => cases (recording.step C x.metadata now).stream <;> simp [Task.futureLeft]
  · intro hcan
    simp only [step]
    split
    · rename_i x recording now times job ht
      exact absurd ⟨x, recording, now, times, job, ht⟩ hcan
    · rfl

theorem acts_spawn (s : Pool C) (id : ℕ) :
    Acts s id (.spawn id) (∃ x i job, s.tasks id = some ⟨x, .built i, job⟩) := by
  constructor
  · rintro ⟨x, i, job, ht⟩
    refine ⟨_, ⟨x, .waiting, some (.queued i)⟩, ht, by simp only [step, ht]; rfl, ?_, rfl⟩
    simp only [Task.left, Task.futureLeft, Task.jobLeft]
    omega
  · intro hcan
    simp only [step]
    split
    · rename_i x i job ht
      exact absurd ⟨x, i, job, ht⟩ hcan
    · rfl

theorem acts_lock (s : Pool C) (id : ℕ) : Acts s id (.lock id)
    (s.holder = none ∧ ∃ x phase i, s.tasks id = some ⟨x, phase, some (.queued i)⟩) := by
  constructor
  · rintro ⟨hholder, x, phase, i, ht⟩
    simp only [step, ht, hholder]
    split_ifs
    · exact ⟨_, _, ht, rfl, by simp [Task.left, Task.futureLeft, Task.jobLeft], rfl⟩
    · exact ⟨_, _, ht, rfl, by simp [Task.left, Task.futureLeft, Task.jobLeft], rfl⟩
  · intro hcan
    simp only [step]
    split
    · rename_i x phase i hholder ht
      exact absurd ⟨ht, x, phase, i, hholder⟩ hcan
    · rfl

theorem acts_append (s : Pool C) (id : ℕ) : Acts s id (.append id)
    (∃ x phase i, s.tasks id = some ⟨x, phase, some (.locked i)⟩) := by
  constructor
  · rintro ⟨x, phase, i, ht⟩
    simp only [step, ht]
    exact ⟨_, _, ht, rfl, by simp [Task.left, Task.futureLeft, Task.jobLeft], rfl⟩
  · intro hcan
    simp only [step]
    split
    · rename_i x phase i ht
      exact absurd ⟨x, phase, i, ht⟩ hcan
    · rfl

theorem acts_resume (s : Pool C) (id : ℕ) : Acts s id (.resume id)
    (∃ x result, s.tasks id = some ⟨x, .waiting, some (.done result)⟩) := by
  constructor
  · rintro ⟨x, e | ⟨⟨⟩⟩, ht⟩
    · simp only [step, ht]
      exact ⟨_, _, ht, rfl, by simp [Task.left, Task.futureLeft, Task.jobLeft], rfl⟩
    · simp only [step, ht]
      exact ⟨_, _, ht, rfl, by simp [Task.left, Task.futureLeft, Task.jobLeft], rfl⟩
  · intro hcan
    simp only [step]
    split
    · rename_i x ht
      exact absurd ⟨x, .ok (), ht⟩ hcan
    · rename_i x e ht
      exact absurd ⟨x, .error e, ht⟩ hcan
    · rfl

/-- The turns of a request: its upstream answers, its client reads on, its task is spawned, takes
the lock and appends, and its future takes the outcome. -/
def turns (id : ℕ) : List (Event C) :=
  [.respond id, .poll id, .spawn id, .lock id, .append id, .resume id]

theorem turn_spec (s : Pool C) {e : Event C} (he : e ∈ turns id) :
    s.step e = s ∨ Moves s id (s.step e) := by
  simp only [turns, List.mem_cons, List.not_mem_nil, or_false] at he
  rcases he with rfl | rfl | rfl | rfl | rfl | rfl
  · exact (acts_respond s id).spec
  · exact (acts_poll s id).spec
  · exact (acts_spawn s id).spec
  · exact (acts_lock s id).spec
  · exact (acts_append s id).spec
  · exact (acts_resume s id).spec

/-- Only an arrival brings a request that was not there. -/
theorem arrived (s : Pool C) {e : Event C} {t : Task C} (ht : (s.step e).tasks id = some t) :
    (∃ t, s.tasks id = some t) ∨ ∃ x, e = .arrive id x := by
  have hset : ∀ {s' : Pool C} {other u}, s.tasks other ≠ none →
      s'.tasks = Function.update s.tasks other u → s'.tasks id = some t →
        ∃ t, s.tasks id = some t := by
    intro s' other u hother htasks ht
    by_cases heq : id = other
    · exact heq ▸ Option.ne_none_iff_exists'.1 hother
    · rw [htasks, Function.update_of_ne heq] at ht
      exact ⟨t, ht⟩
  have hturn : ∀ {other}, e ∈ turns other → ∃ t, s.tasks id = some t := by
    intro other he
    rcases turn_spec s he with heq | ⟨u, u', hu, htasks, -, -⟩
    · exact ⟨t, heq ▸ ht⟩
    · exact hset (by simp [hu]) htasks ht
  cases e with
  | arrive other x =>
    by_cases heq : id = other
    · exact .inr ⟨x, by rw [heq]⟩
    · simp only [step] at ht
      split at ht
      · exact .inl ⟨t, ht⟩
      · exact .inl ⟨t, (Function.update_of_ne heq _ _).symm.trans ht⟩
  | drop other =>
    simp only [step] at ht
    split at ht
    · rename_i h
      exact .inl (hset (by simp [h]) rfl ht)
    · rename_i h
      exact .inl (hset (by simp [h]) rfl ht)
    · rename_i h
      exact .inl (hset (by simp [h]) rfl ht)
    · exact .inl ⟨t, ht⟩
  | poison =>
    simp only [step] at ht
    split at ht <;> exact .inl ⟨t, ht⟩
  | respond other | poll other | spawn other | lock other | append other | resume other =>
    exact .inl (@hturn other (by simp [turns]))

/-- The steps that are left for some requests, at most. -/
def left (ids : List ℕ) (s : Pool C) : ℕ := (ids.map fun id => (s.tasks id).elim 0 Task.left).sum

/-- All requests are among those that get turns. -/
def Covers (ids : List ℕ) (s : Pool C) : Prop := ∀ id t, s.tasks id = some t → id ∈ ids

/-- Turns wind down. -/
theorem windsDown (ids : List ℕ) :
    Runs.WindsDown (step (C := C)) (Covers ids) (left ids) (ids.flatMap turns) := by
  constructor
  · intro s hs e he
    obtain ⟨id, hid, he⟩ := List.mem_flatMap.1 he
    intro other t ht
    rcases s.arrived ht with ⟨t, ht⟩ | ⟨x, rfl⟩
    · exact hs other t ht
    · simp [turns] at he
  · intro s hs e he
    obtain ⟨id, hid, he⟩ := List.mem_flatMap.1 he
    rcases turn_spec s he with heq | ⟨t, t', ht, htasks, hless, -⟩
    · exact .inl heq
    · refine .inr ?_
      rw [left, htasks]
      refine @Runs.sum_left_lt _ _ _ (fun t => t.elim 0 Task.left) ids id hid s.tasks (some t') ?_
      rw [ht]
      exact hless

/-- A future that waits for a blocking task has one. -/
def Waits (s : Pool C) : Prop := ∀ id x job, s.tasks id = some ⟨x, .waiting, job⟩ → job.isSome

theorem Waits.set (hs : s.Waits) {s' : Pool C} {x : Exchange C} {phase : Phase} {job : Option Job}
    (htasks : s'.tasks = Function.update s.tasks id (some ⟨x, phase, job⟩))
    (h : phase ≠ .waiting ∨ job.isSome) : s'.Waits := by
  intro other y job' ht
  rw [htasks] at ht
  by_cases heq : other = id
  · subst heq
    rw [Function.update_self] at ht
    cases ht
    exact h.resolve_left fun hne => hne rfl
  · rw [Function.update_of_ne heq] at ht
    exact hs other y job' ht

theorem Waits.step (hs : s.Waits) (e : Event C) : (s.step e).Waits := by
  cases e with
  | arrive id x =>
    simp only [Pool.step]
    split
    · exact hs
    · refine hs.set rfl (.inl ?_)
      split_ifs <;> simp
  | respond id =>
    simp only [Pool.step]
    split
    · split_ifs
      · split
        · exact hs.set rfl (.inl (by simp))
        · exact hs.set rfl (.inl (by simp))
      · split
        · exact hs.set rfl (.inl (by simp))
        · split
          · exact hs.set rfl (.inl (by simp))
          · exact hs.set rfl (.inl (by simp))
    · exact hs
  | poll id =>
    simp only [Pool.step]
    split
    · refine hs.set rfl (.inl ?_)
      split <;> simp
    · exact hs
  | spawn id =>
    simp only [Pool.step]
    split
    · exact hs.set rfl (.inr rfl)
    · exact hs
  | lock id =>
    simp only [Pool.step]
    split
    · split_ifs
      · exact hs.set rfl (.inr rfl)
      · exact hs.set rfl (.inr rfl)
    · exact hs
  | append id =>
    simp only [Pool.step]
    split
    · exact hs.set rfl (.inr rfl)
    · exact hs
  | resume id =>
    simp only [Pool.step]
    split
    · exact hs.set rfl (.inl (by simp))
    · exact hs.set rfl (.inl (by simp))
    · exact hs
  | drop id =>
    simp only [Pool.step]
    split
    · exact hs.set rfl (.inl (by simp))
    · exact hs.set rfl (.inl (by simp))
    · exact hs.set rfl (.inl (by simp))
    · exact hs
  | poison =>
    simp only [Pool.step]
    split
    · exact hs
    · exact hs

/-- Where no turn changes anything, every request is over. -/
theorem Recorded.over {dir : Dir String} {store : Store} {takers counts : List ℕ}
    {entries : List (ℕ × Interaction)} (h : Recorded dir store takers entries counts s)
    (hwaits : s.Waits) {ids : List ℕ} (hcovers : s.Covers ids)
    (hstill : ∀ e ∈ ids.flatMap turns, s.step e = s) :
    s.holder = none ∧ ∀ id t, s.tasks id = some t → t.Over := by
  have hturn : ∀ {id t}, s.tasks id = some t → ∀ e ∈ turns id, s.step e = s := fun ht e he =>
    hstill e (List.mem_flatMap.2 ⟨_, hcovers _ _ ht, he⟩)
  have hunlocked : ∀ id x phase i, s.tasks id ≠ some ⟨x, phase, some (.locked i)⟩ :=
    fun id x phase i ht =>
      (acts_append s id).not (hturn ht _ (by simp [turns])) ⟨x, phase, i, ht⟩
  have hfree : s.holder = none := by
    by_contra hheld
    obtain ⟨other, hother⟩ := Option.ne_none_iff_exists'.1 hheld
    have hlocked := (h.log.held other).1 hother
    cases ht : s.tasks other with
    | none => simp [view, status, ht] at hlocked
    | some t =>
      obtain ⟨x, phase, job⟩ := t
      have hstatus := (status_eq ht).symm.trans hlocked
      rcases job with _ | (_ | i | (_ | _))
      · cases hstatus
      · cases hstatus
      · exact hunlocked other x phase i ht
      · cases hstatus
      · cases phase <;> cases hstatus
  refine ⟨hfree, fun id t ht => ?_⟩
  obtain ⟨x, phase, job⟩ := t
  have hdone : ∀ j, job = some j → ∃ result, j = .done result := by
    rintro (i | i | result) rfl
    · exact absurd ⟨hfree, x, phase, i, ht⟩ ((acts_lock s id).not (hturn ht _ (by simp [turns])))
    · exact absurd ht (hunlocked id x phase i)
    · exact ⟨result, rfl⟩
  refine ⟨?_, hdone⟩
  cases phase with
  | sending => exact absurd ⟨x, job, ht⟩ ((acts_respond s id).not (hturn ht _ (by simp [turns])))
  | reading recording times =>
    cases times with
    | nil => exact .inr (.inr ⟨recording, rfl⟩)
    | cons now times =>
      exact absurd ⟨x, recording, now, times, job, ht⟩
        ((acts_poll s id).not (hturn ht _ (by simp [turns])))
  | built i => exact absurd ⟨x, i, job, ht⟩ ((acts_spawn s id).not (hturn ht _ (by simp [turns])))
  | waiting =>
    obtain ⟨j, rfl⟩ := Option.isSome_iff_exists.1 (hwaits id x job ht)
    obtain ⟨result, rfl⟩ := hdone j rfl
    exact absurd ⟨x, result, ht⟩ ((acts_resume s id).not (hturn ht _ (by simp [turns])))
  | finished => exact .inl rfl
  | dropped => exact .inr (.inl rfl)

/-- A request stays the request that it is. -/
def Same (s s' : Pool C) : Prop :=
  ∀ id t, s.tasks id = some t → ∃ t', s'.tasks id = some t' ∧ t'.exchange = t.exchange

theorem Same.refl (s : Pool C) : s.Same s :=
  fun _ t ht => ⟨t, ht, rfl⟩

theorem Same.trans {s₁ s₂ s₃ : Pool C} (h₁ : s₁.Same s₂) (h₂ : s₂.Same s₃) : s₁.Same s₃ := by
  intro id t ht
  obtain ⟨t₂, ht₂, heq₂⟩ := h₁ id t ht
  obtain ⟨t₃, ht₃, heq₃⟩ := h₂ id t₂ ht₂
  exact ⟨t₃, ht₃, heq₃.trans heq₂⟩

theorem same_turn {ids : List ℕ} (s : Pool C) {e : Event C} (he : e ∈ ids.flatMap turns) :
    s.Same (s.step e) := by
  intro other u hu
  obtain ⟨id, hid, he⟩ := List.mem_flatMap.1 he
  rcases turn_spec s he with heq | ⟨t, t', ht, htasks, -, hexchange⟩
  · exact ⟨u, by rw [heq, hu], rfl⟩
  · by_cases heq : other = id
    · subst heq
      obtain rfl := Option.some.inj (hu.symm.trans ht)
      exact ⟨t', by rw [htasks, Function.update_self], hexchange⟩
    · exact ⟨u, by rw [htasks, Function.update_of_ne heq, hu], rfl⟩

theorem same_turns {ids : List ℕ} {es : List (Event C)} (hes : ∀ e ∈ es, e ∈ ids.flatMap turns)
    (s : Pool C) : s.Same (Runs.run step s es) := by
  refine Runs.run_rel (I := fun _ => True) (R := Same) .refl (fun _ _ _ => .trans) ?_ trivial
    (Runs.along_of_forall hes s)
  exact fun s e _ he => ⟨trivial, s.same_turn he⟩

/-- **No recording waits forever.**  Whatever has happened to requests on the clones of a recording
service, once each of them gets its turns in rounds, in any order and any number of times, all come
to their end after as many rounds as they had steps left, and the lock is free. -/
theorem all_finish (dir : Dir String) (store : Store) (es : List (Event C)) {ids : List ℕ}
    (hids : ∀ id x, .arrive id x ∈ es → id ∈ ids) {rounds : List (List (Event C))}
    (hrounds : ∀ round ∈ rounds, ∀ e, e ∈ round ↔ e ∈ ids.flatMap turns)
    (hlength : (Runs.run step (start dir store) es).left ids ≤ rounds.length) :
    let s := Runs.run step (start dir store) es
    let s' := Runs.run step s rounds.flatten
    s'.holder = none ∧ ∀ id t, s.tasks id = some t →
      ∃ t', s'.tasks id = some t' ∧ t'.exchange = t.exchange ∧ t'.Over := by
  intro s s'
  have hcovers : s.Covers ids := by
    refine Runs.run_invariant (I := Covers ids) (fun s e hs he id t ht => ?_) ?_
      (Runs.along_of_forall (P := fun e => ∀ id x, e = .arrive id x → id ∈ ids) ?_ _)
    · rcases s.arrived ht with ⟨t, ht⟩ | ⟨x, h⟩
      · exact hs id t ht
      · exact he id x h
    · exact fun id t h => by simp [start] at h
    · rintro e he id x rfl
      exact hids id x he
  have hwinds := windsDown (C := C) ids
  have hstill := hwinds.still_of_rounds hrounds hcovers hlength
  have hturns : ∀ e ∈ rounds.flatten, e ∈ ids.flatMap turns := by
    intro e he
    obtain ⟨round, hround, he⟩ := List.mem_flatten.1 he
    exact (hrounds round hround e).1 he
  have hrecorded := (recorded_start dir store).run (es ++ rounds.flatten)
  have hwaits : s'.Waits := by
    have hstart : (start dir store : Pool C).Waits := fun id x job h => by
      simp [start] at h
    unfold s' s
    rw [← Runs.run_append]
    exact Runs.run_invariant (I := Waits) (fun s e hs _ => hs.step e) hstart
      (Runs.along_of_forall (P := fun _ => True) (fun e _ => trivial) _)
  rw [Runs.run_append] at hrecorded
  obtain ⟨hfree, hover⟩ := hrecorded.over hwaits (hwinds.run_inv hcovers hturns) hstill
  refine ⟨hfree, fun id t ht => ?_⟩
  obtain ⟨t', ht', heq⟩ := same_turns hturns s id t ht
  exact ⟨t', ht', heq, hover id t' ht'⟩

/-- The second of two requests has the lock when the turns begin. -/
theorem all_finish_two :
    let C : RecordConfig := ⟨.exact, Sha256.digest, .default⟩
    let v : Json := .object [("model", .string "m")]
    let x : Exchange C :=
      { request := ⟨"POST", chatCompletionsPath, "", [], [], SerdeJson.exact.toWriterPretty v,
          some v⟩
        apiKey := some "key"
        send := .ok ⟨200, [], [], SerdeJson.exact.toWriterPretty v, some v⟩
        stream := .error (.io .other)
        metadata := .ok ⟨"chat", "up", "now", 0⟩
        started := 0
        times := []
        faults := .none
        observed := RecordConfig.observes_exact rfl rfl (by decide) (by decide)
        observedResponse := by
          rintro _ ⟨⟩
          exact RecordConfig.observesResponse_exact rfl rfl (by decide) (by decide)
        clockRuns := by rintro _ ⟨⟩ }
    let s := Runs.run step (start (fun _ => none) ⟨"c.json", .new⟩)
      [.arrive 1 x, .arrive 2 x, .respond 2, .respond 1, .spawn 2, .spawn 1, .lock 2, .lock 1]
    let s' := Runs.run step s (List.replicate 7 ([2, 1].flatMap turns)).flatten
    s.holder = some 2 ∧ s'.holder = none ∧
      ∃ t, s'.tasks 1 = some t ∧ t.exchange = x ∧ t.Over := by
  intro C v x s s'
  have hids : ∀ id y, Event.arrive id y ∈ [.arrive 1 x, .arrive 2 x, .respond 2, .respond 1,
      .spawn 2, .spawn 1, .lock 2, .lock 1] → id ∈ [1, 2] := by
    intro id y h
    simp only [List.mem_cons, Event.arrive.injEq, reduceCtorEq, List.not_mem_nil, or_false] at h ⊢
    exact h.imp And.left And.left
  have hrounds : ∀ round ∈ List.replicate 7 ([2, 1].flatMap turns), ∀ e : Event C,
      e ∈ round ↔ e ∈ [1, 2].flatMap turns := by
    intro round hround e
    rw [List.eq_of_mem_replicate hround]
    simp [or_comm]
  have hstate : s.holder = some 2 ∧ s.left [1, 2] ≤ 7 := by decide +kernel
  obtain ⟨t, ht, hexchange⟩ : ∃ t, s.tasks 1 = some t ∧ t.exchange = x := by
    refine @same_turns _ [1, 2] [.respond 2, .respond 1, .spawn 2, .spawn 1, .lock 2, .lock 1] ?_
      (Runs.run step (start (fun _ => none) ⟨"c.json", .new⟩) [.arrive 1 x, .arrive 2 x]) 1
      ⟨x, .sending, none⟩ rfl
    simp [turns]
  obtain ⟨hfree, hover⟩ := all_finish (fun _ => none) ⟨"c.json", .new⟩ _ hids hrounds
    (by rw [List.length_replicate]; exact hstate.2)
  have hdone := hover 1 t ht
  rw [hexchange] at hdone
  unfold s' s
  exact ⟨hstate.1, hfree, hdone⟩

end Pool

end

end SpycatcherHarness
