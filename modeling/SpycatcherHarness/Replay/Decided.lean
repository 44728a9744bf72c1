import SpycatcherHarness.Cassette.Matching.Sequential
import SpycatcherHarness.Replay.Reordered

/-!
# What requests are told

The decisions of a replay service, taken one after another, in either mode.  The requests may be any
that are JSON: those that were recorded, fewer, more, or others.

* `ReplayService.decided_keyed` : of the requests with one hash each is told what was recorded for
  the next one with this hash, until none is left.
* `ReplayService.decided_sequential` : each is told what was recorded at the cursor, if it has the
  hash of that.
-/

namespace SpycatcherHarness

namespace ReplayService

open ReplayMatchEngine

variable {sha256 : Bytes → Bytes} {service : ReplayService} {cassette : Cassette}

/-! ### In keyed mode -/

/-- A request that was decided is JSON. -/
theorem isSome_parsedJson_of_ok {d : Decision} (hok : d.Ok cassette)
    (h : (service.handleChatCompletions sha256 d.request).1 = d.result) :
    d.request.parsedJson.isSome := by
  by_contra hnone
  rw [handleChatCompletions_eq, if_pos (by simpa using hnone)] at h
  rw [Decision.Ok, ← h] at hok
  rcases hok.2 with hkind | ⟨diagnostic, hkind⟩ <;> cases hkind

/-- What a request with the hash is told: what was recorded, if that is left, or that it does not
match. -/
inductive Tells {α : Type*} (cassette : Cassette) (hash : String) (R : α → ReplayResponse → Prop) :
    Option α → Except ReplayError ReplayResponse → Prop
  | recorded (x : α) (response : ReplayResponse) (brought : R x response) :
      Tells cassette hash R (some x) (.ok response)
  | missed : Tells cassette hash R none (.error (.mismatch (cassette.keyedMiss hash)))

section
variable {α : Type*} {asked : α → ObservedRequest} {R : α → ReplayResponse → Prop}
  {recorded : List α} {served : String → ℕ}

/-- The exchanges that were recorded for requests with the hash. -/
def withHash (sha256 : Bytes → Bytes) (asked : α → ObservedRequest) (hash : String) (xs : List α) :
    List α :=
  xs.filter fun x => hashOf sha256 (asked x) = hash

/-- A request is told what was recorded for the next request with its hash.  Then the next with its
hash looks one further. -/
theorem handle_tells {request : ObservedRequest} (hjson : request.parsedJson.isSome)
    (hrecorded : List.Forall₂ (fun x i =>
      i.request.stableHash = some (hashOf sha256 (asked x)) ∧
      (hashOf sha256 request = hashOf sha256 (asked x) →
        ∃ response, responseFromRecorded i.response
          (isStreamingChatCompletionsRequest request.parsedJson) = .ok response ∧ R x response))
      recorded cassette.interactions)
    (hlock : service.poisoned = false)
    (inv : Keyed.Inv cassette served (Client.new service.engine)) :
    ∃ served', Keyed.Inv cassette served' (Client.new (step sha256 service request).engine) ∧
      (step sha256 service request).poisoned = false ∧
      Tells cassette (hashOf sha256 request) R
        (withHash sha256 asked (hashOf sha256 request) recorded)[
          served (hashOf sha256 request)]?
        (service.handleChatCompletions sha256 request).1 ∧
      ∀ hash k, (withHash sha256 asked hash recorded)[served' hash + k]? =
        (withHash sha256 asked hash recorded)[
          served hash + if hashOf sha256 request = hash then k + 1 else k]? := by
  obtain ⟨hlength, hget⟩ := List.forall₂_iff_get.1
    (forall₂_recordedWith hrecorded (hashOf sha256 request))
  by_cases hlt : served (hashOf sha256 request) <
      (withHash sha256 asked (hashOf sha256 request) recorded).length
  -- one with its hash is left, and is consumed
  · have hnext := List.getElem?_eq_getElem (hlength ▸ hlt)
    have hx := hget _ hlt (hlength ▸ hlt)
    have hhash := List.of_mem_filter (List.getElem_mem hlt)
    simp only [List.get_eq_getElem] at hx
    rw [decide_eq_true_eq] at hhash
    obtain ⟨response, hresponse, hR⟩ := hx hhash.symm
    obtain ⟨engine, hhandle, inv'⟩ := handle_keyed inv hlock hjson hnext hresponse
    have hstep : step sha256 service request =
        { service with engine, matchedCount := service.matchedCount + 1 } := by
      rw [step, hhandle]
    refine ⟨_, by rw [hstep]; exact inv', by rw [hstep]; exact hlock, ?_, fun hash k => ?_⟩
    · rw [List.getElem?_eq_getElem hlt, hhandle]
      exact .recorded _ response hR
    · by_cases heq : hashOf sha256 request = hash
      · subst heq
        rw [Function.update_self, if_pos rfl, Nat.add_right_comm, Nat.add_assoc]
      · rw [Function.update_of_ne (Ne.symm heq), if_neg heq]
  -- none is left, and the engine stays as it is
  · have hnone := List.getElem?_eq_none (hlength ▸ not_lt.1 hlt)
    have hpeek : service.engine.peekMatch (lookupOf sha256 request).observedHash
        (lookupOf sha256 request).canonicalRequest =
          .mismatch (cassette.keyedMiss (hashOf sha256 request)) := by
      have h := Keyed.peekMatch_eq inv (hashOf sha256 request)
        (canonicalRequestValue (canonicalOf request))
      rw [Cassette.keyedOutcome, hnone] at h
      exact h
    have hhandle := (@handle_eq_lookup sha256 service request hjson).trans
      (matchRecordedResponse_mismatch hlock hpeek)
    have hstep : step sha256 service request =
        { service with mismatchCount := service.mismatchCount + 1 } := by
      rw [step, hhandle]
    refine ⟨served, by rw [hstep]; exact inv, by rw [hstep]; exact hlock, ?_, fun hash k => ?_⟩
    · rw [List.getElem?_eq_none (not_lt.1 hlt), hhandle]
      exact .missed
    · by_cases heq : hashOf sha256 request = hash
      · subst heq
        rw [if_pos rfl, List.getElem?_eq_none (by omega), List.getElem?_eq_none (by omega)]
      · rw [if_neg heq]

/-- **Requests one after another, in keyed mode.**  The requests with one hash are told what was
recorded for the requests with this hash, one after another. -/
theorem decided_keyed {ds : List Decision}
    (hrecorded : List.Forall₂ (fun x i =>
      i.request.stableHash = some (hashOf sha256 (asked x)) ∧
      ∀ d ∈ ds, hashOf sha256 d.request = hashOf sha256 (asked x) →
        ∃ response, responseFromRecorded i.response
          (isStreamingChatCompletionsRequest d.request.parsedJson) = .ok response ∧ R x response)
      recorded cassette.interactions)
    (hok : ∀ d ∈ ds, d.Ok cassette)
    (hanswers : answers sha256 service (ds.map Decision.request) = ds.map Decision.result)
    (hlock : service.poisoned = false)
    (inv : Keyed.Inv cassette served (Client.new service.engine)) (hash : String) {k : ℕ}
    {d : Decision} (hd : (withHash sha256 Decision.request hash ds)[k]? = some d) :
    Tells cassette hash R (withHash sha256 asked hash recorded)[served hash + k]? d.result := by
  induction ds generalizing service served k with
  | nil => cases hd
  | cons d' ds ih =>
    rw [List.forall_mem_cons] at hok
    rw [List.map_cons, List.map_cons, answers, Runs.collect, List.singleton_append,
      List.cons.injEq] at hanswers
    obtain ⟨hanswer, hanswers⟩ := hanswers
    obtain ⟨served', inv', hlock', htells, hserved⟩ := handle_tells
      (isSome_parsedJson_of_ok hok.1 hanswer)
      (hrecorded.imp fun x i h => ⟨h.1, h.2 d' List.mem_cons_self⟩) hlock inv
    have hrest : ∀ k, (withHash sha256 Decision.request hash ds)[k]? = some d →
        Tells cassette hash R (withHash sha256 asked hash recorded)[served' hash + k]? d.result :=
      fun k => ih (hrecorded.imp fun x i h =>
        ⟨h.1, fun e he => h.2 e (List.mem_cons_of_mem d' he)⟩) hok.2 hanswers hlock' inv'
    by_cases heq : hashOf sha256 d'.request = hash
    · subst heq
      rw [withHash, List.filter_cons_of_pos (by simp)] at hd
      cases k with
      | zero =>
        obtain rfl := Option.some.inj hd
        rw [← hanswer]
        exact htells
      | succ k =>
        have h := hrest k hd
        rwa [hserved, if_pos rfl] at h
    · rw [withHash, List.filter_cons_of_neg (by simpa using heq)] at hd
      have h := hrest k hd
      rwa [hserved, if_neg heq] at h

end

/-! ### In sequential mode -/

section
variable {α : Type*} {asked : α → ObservedRequest} {R : α → ReplayResponse → Prop}
  {recorded : List α}

/-- What a request is told when the cursor stands before an exchange: what was recorded, if it has
the hash of the request, or that another was expected, or none. -/
inductive TellsNext (sha256 : Bytes → Bytes) (asked : α → ObservedRequest)
    (R : α → ReplayResponse → Prop) (cassette : Cassette) (cursor : ℕ) (request : ObservedRequest)
    (next : Option α) (result : Except ReplayError ReplayResponse) : Prop
  | recorded (x : α) (response : ReplayResponse) (here : next = some x)
      (hash : hashOf sha256 (asked x) = hashOf sha256 request) (told : result = .ok response)
      (brought : R x response)
  | unexpected (diagnostic : MismatchDiagnostic)
      (hash : ∀ x, next = some x → hashOf sha256 (asked x) ≠ hashOf sha256 request)
      (told : result = .error (.mismatch diagnostic))
      (reports : Sequential.Reports cassette cursor (hashOf sha256 request) diagnostic)

/-- A request is told what was recorded at the cursor, if it has the hash of that, and then the
cursor moves on. -/
theorem handle_tellsNext {request : ObservedRequest} (hjson : request.parsedJson.isSome)
    (hrecorded : List.Forall₂ (fun x i =>
      i.request.stableHash = some (hashOf sha256 (asked x)) ∧
      (hashOf sha256 request = hashOf sha256 (asked x) →
        ∃ response, responseFromRecorded i.response
          (isStreamingChatCompletionsRequest request.parsedJson) = .ok response ∧ R x response))
      recorded cassette.interactions)
    (hlock : service.poisoned = false)
    (inv : Sequential.Inv cassette (Client.new service.engine)) :
    TellsNext sha256 asked R cassette service.engine.sequentialCursor request
        recorded[service.engine.sequentialCursor]?
        (service.handleChatCompletions sha256 request).1 ∧
      Sequential.Inv cassette (Client.new (step sha256 service request).engine) ∧
      (step sha256 service request).poisoned = false ∧
      (step sha256 service request).engine.sequentialCursor = service.engine.sequentialCursor +
        if (service.handleChatCompletions sha256 request).1.isOk then 1 else 0 := by
  obtain ⟨hlength, hget⟩ := List.forall₂_iff_get.1 hrecorded
  have hcassette : service.engine.cassette = cassette := inv.cassette_eq
  rcases Sequential.peekMatch_spec inv (hashOf sha256 request)
    (canonicalRequestValue (canonicalOf request)) with
    ⟨i, hhash, hi, -⟩ | ⟨hne, diagnostic, hpeek, hreports⟩
  -- the interaction at the cursor is consumed
  · simp only [Client.new] at hhash hi
    obtain ⟨hlt, rfl⟩ := List.getElem?_eq_some_iff.1 hi
    have hihash : cassette.interactions[service.engine.sequentialCursor].request.stableHash =
        some (hashOf sha256 request) := by
      rwa [Sequential.recordedHash, hi, Option.bind_some] at hhash
    obtain ⟨hxhash, hresponse⟩ := hget _ (hlength ▸ hlt) hlt
    simp only [List.get_eq_getElem] at hxhash hresponse
    have hsame := Option.some.inj (hxhash.symm.trans hihash)
    obtain ⟨response, hresponse, hR⟩ := hresponse hsame.symm
    obtain ⟨engine, hhandle, hcassette', hmode', hcursor⟩ :=
      handle_sequential inv.mode_eq hlock hjson (hcassette ▸ hi) hihash hresponse
    have hstep : step sha256 service request =
        { service with engine, matchedCount := service.matchedCount + 1 } := by
      rw [step, hhandle]
    rw [hstep, hhandle]
    refine ⟨.recorded _ response (List.getElem?_eq_getElem (hlength ▸ hlt)) hsame rfl hR, ?_,
      hlock, hcursor⟩
    refine ⟨hcassette'.trans hcassette, hmode', ?_, by simp [Client.new]⟩
    simp only [Client.new, hcursor]
    omega
  -- the engine stays as it is
  · simp only [Client.new] at hne hpeek hreports
    have hhandle := (@handle_eq_lookup sha256 service request hjson).trans
      (matchRecordedResponse_mismatch hlock hpeek)
    have hstep : step sha256 service request =
        { service with mismatchCount := service.mismatchCount + 1 } := by
      rw [step, hhandle]
    rw [hstep, hhandle]
    refine ⟨.unexpected diagnostic (fun x hx heq => hne ?_) rfl hreports, ?_, hlock, rfl⟩
    · obtain ⟨hlt, rfl⟩ := List.getElem?_eq_some_iff.1 hx
      have hxhash := (hget _ hlt (hlength ▸ hlt)).1
      rw [Sequential.recordedHash, List.getElem?_eq_getElem (hlength ▸ hlt), Option.bind_some,
        ← heq]
      exact hxhash
    · exact ⟨hcassette, inv.mode_eq, inv.cursor_le, by simp [Client.new]⟩

/-- **Requests one after another, in sequential mode.**  A request is told what was recorded at the
place that the answers so far have come to, or that another request was expected there. -/
theorem decided_sequential {ds : List Decision}
    (hrecorded : List.Forall₂ (fun x i =>
      i.request.stableHash = some (hashOf sha256 (asked x)) ∧
      ∀ d ∈ ds, hashOf sha256 d.request = hashOf sha256 (asked x) →
        ∃ response, responseFromRecorded i.response
          (isStreamingChatCompletionsRequest d.request.parsedJson) = .ok response ∧ R x response)
      recorded cassette.interactions)
    (hok : ∀ d ∈ ds, d.Ok cassette)
    (hanswers : answers sha256 service (ds.map Decision.request) = ds.map Decision.result)
    (hlock : service.poisoned = false)
    (inv : Sequential.Inv cassette (Client.new service.engine)) {k : ℕ} {d : Decision}
    (hd : ds[k]? = some d) :
    TellsNext sha256 asked R cassette
      (service.engine.sequentialCursor + (ds.take k).countP fun d => d.result.isOk) d.request
      recorded[service.engine.sequentialCursor + (ds.take k).countP fun d => d.result.isOk]?
      d.result := by
  induction ds generalizing service k with
  | nil => cases hd
  | cons d' ds ih =>
    rw [List.forall_mem_cons] at hok
    rw [List.map_cons, List.map_cons, answers, Runs.collect, List.singleton_append,
      List.cons.injEq] at hanswers
    obtain ⟨hanswer, hanswers⟩ := hanswers
    obtain ⟨htells, inv', hlock', hcursor⟩ := handle_tellsNext
      (isSome_parsedJson_of_ok hok.1 hanswer)
      (hrecorded.imp fun x i h => ⟨h.1, h.2 d' List.mem_cons_self⟩) hlock inv
    rw [hanswer] at htells hcursor
    cases k with
    | zero =>
      obtain rfl := Option.some.inj hd
      exact htells
    | succ k =>
      have h := @ih (step sha256 service d'.request)
        (hrecorded.imp fun x i h => ⟨h.1, fun e he => h.2 e (List.mem_cons_of_mem d' he)⟩) hok.2
        hanswers hlock' inv' k hd
      rwa [hcursor, Nat.add_assoc, Nat.add_comm (ite _ _ _), ← List.countP_cons,
        ← List.take_succ_cons] at h

end

end ReplayService

end SpycatcherHarness
