import SpycatcherHarness.Cassette.Matching.Keyed
import SpycatcherHarness.Replay.Concurrent

/-!
# Keyed replay of requests in another order

In keyed mode requests with different hashes do not get in each other's way.  A session can be
replayed in any order that keeps the order of the requests with one hash, and can stop anywhere.

* `ReplayService.handle_keyed` : a request is answered from the next interaction with its hash.
* `ReplayService.answers_keyed` : requests are answered from the interactions recorded for them.
-/

namespace SpycatcherHarness

namespace ReplayService

open ReplayMatchEngine

variable {sha256 : Bytes → Bytes} {service : ReplayService} {request : ObservedRequest}
  {cassette : Cassette} {served : String → ℕ}

/-- In keyed mode a request is answered from the next interaction with its hash, which is then
consumed. -/
theorem handle_keyed (inv : Keyed.Inv cassette served (Client.new service.engine))
    (hlock : service.poisoned = false) (hjson : request.parsedJson.isSome) {i : Interaction}
    {idx : ℕ}
    (hnext : (cassette.recordedWith (hashOf sha256 request))[served (hashOf sha256 request)]? =
      some (i, idx)) {response : ReplayResponse}
    (hresponse : responseFromRecorded i.response
      (isStreamingChatCompletionsRequest request.parsedJson) = .ok response) :
    ∃ engine, service.handleChatCompletions sha256 request =
        (.ok response, { service with engine, matchedCount := service.matchedCount + 1 }) ∧
      Keyed.Inv cassette (Function.update served (hashOf sha256 request)
        (served (hashOf sha256 request) + 1)) (Client.new engine) := by
  have hpeek : service.engine.peekMatch (hashOf sha256 request)
      (canonicalRequestValue (canonicalOf request)) = .matched idx i := by
    have h := Keyed.peekMatch_eq inv (hashOf sha256 request)
      (canonicalRequestValue (canonicalOf request))
    rw [Cassette.keyedOutcome, hnext] at h
    exact h
  refine ⟨(service.engine.commitMatch idx).2, ?_, ?_⟩
  · rw [handle_eq_lookup service hjson]
    exact matchRecordedResponse_ok hlock hpeek hresponse
  · have hposition : (cassette.positions (hashOf sha256 request))[
        served (hashOf sha256 request)]? = some idx := by
      rw [Cassette.positions, List.getElem?_map, hnext, Option.map_some]
    refine inv.serve (hashOf sha256 request) ?_
    rw [hposition]
    rfl

/-- The recordings with a hash are those of the requests with that hash, in order. -/
theorem forall₂_recordedWith {α : Type*} {asked : α → ObservedRequest}
    {R : α → Interaction → Prop} {recorded : List α}
    (h : List.Forall₂ (fun x i => i.request.stableHash = some (hashOf sha256 (asked x)) ∧ R x i)
      recorded cassette.interactions) (hash : String) :
    List.Forall₂ (fun x p => R x p.1)
      (recorded.filter fun x => hashOf sha256 (asked x) = hash) (cassette.recordedWith hash) := by
  rw [← List.zipIdx_map_fst 0 cassette.interactions, List.forall₂_map_right_iff] at h
  refine (List.rel_filter ?_ h).imp fun x p hp => hp.2
  rintro x p ⟨hhash, -⟩
  simp only [decide_eq_true_eq, hhash, Option.some.injEq]

/-- **A session in another order.**  The requests that have been answered and those that are asked
have, for every hash, the requests with that hash in common with the recorded session, in order and
from its start.  Then every request is answered from the interaction that was recorded for it. -/
theorem answers_keyed {α : Type*} {asked : α → ObservedRequest} {R : α → ReplayResponse → Prop}
    {recorded answered xs : List α} (hjson : ∀ x ∈ xs, (asked x).parsedJson.isSome)
    (hrecorded : List.Forall₂ (fun x i =>
      i.request.stableHash = some (hashOf sha256 (asked x)) ∧
      ∃ response, responseFromRecorded i.response
        (isStreamingChatCompletionsRequest (asked x).parsedJson) = .ok response ∧ R x response)
      recorded cassette.interactions)
    (horder : ∀ hash, ((answered ++ xs).filter fun x => hashOf sha256 (asked x) = hash) <+:
      recorded.filter fun x => hashOf sha256 (asked x) = hash)
    (hlock : service.poisoned = false)
    (inv : Keyed.Inv cassette
      (fun hash => (answered.filter fun x => hashOf sha256 (asked x) = hash).length)
      (Client.new service.engine)) :
    List.Forall₂ (fun x answer => ∃ response, answer = .ok response ∧ R x response) xs
      (answers sha256 service (xs.map asked)) := by
  induction xs generalizing service answered with
  | nil => exact .nil
  | cons x xs ih =>
    rw [List.forall_mem_cons] at hjson
    -- the request is the next one with its hash
    have hthis : (recorded.filter fun y => hashOf sha256 (asked y) = hashOf sha256 (asked x))[
        (answered.filter fun y => hashOf sha256 (asked y) = hashOf sha256 (asked x)).length]? =
          some x := by
      obtain ⟨rest, hrest⟩ := horder (hashOf sha256 (asked x))
      rw [← hrest, List.filter_append, List.append_assoc, List.getElem?_append_right le_rfl]
      simp
    obtain ⟨hlength, hget⟩ := List.forall₂_iff_get.1
      (forall₂_recordedWith hrecorded (hashOf sha256 (asked x)))
    obtain ⟨hlt, hx⟩ := List.getElem?_eq_some_iff.1 hthis
    have hnext := List.getElem?_eq_getElem (hlength ▸ hlt)
    obtain ⟨response, hresponse, hR⟩ := hget _ hlt (hlength ▸ hlt)
    simp only [List.get_eq_getElem, hx] at hresponse hR
    obtain ⟨engine, hhandle, inv'⟩ := handle_keyed inv hlock hjson.1 hnext hresponse
    have hserved : (Function.update
        (fun hash => (answered.filter fun y => hashOf sha256 (asked y) = hash).length)
        (hashOf sha256 (asked x))
        ((answered.filter fun y => hashOf sha256 (asked y) = hashOf sha256 (asked x)).length + 1)) =
        fun hash => ((answered ++ [x]).filter fun y => hashOf sha256 (asked y) = hash).length := by
      funext hash
      by_cases h : hash = hashOf sha256 (asked x)
      · subst h
        simp
      · simp [Function.update_of_ne h, Ne.symm h]
    have hstep : step sha256 service (asked x) =
        { service with engine, matchedCount := service.matchedCount + 1 } := by
      rw [step, hhandle]
    refine .cons ⟨response, ?_, hR⟩ ?_
    · rw [hhandle]
    · refine @ih (step sha256 service (asked x)) (answered ++ [x]) hjson.2 ?_ ?_ ?_
      · intro hash
        rw [List.append_assoc, List.singleton_append]
        exact horder hash
      · rw [hstep]
        exact hlock
      · rw [hstep, ← hserved]
        exact inv'

end ReplayService

end SpycatcherHarness
