import SpycatcherHarness.Cassette.Matching.Calls
import SpycatcherHarness.Machine.Queues

/-!
# Keyed matching

In keyed mode the engine is a set of queues, one for each hash, in which the interactions with that
hash wait in recorded order.  Requests with a hash are served from the front of its queue, and what
they are told depends on nothing but how many came before them.

* `Cassette.positions_apart` : every interaction waits in one queue only.
* `ReplayMatchEngine.Keyed.peekMatch_eq` : what a request is told, in closed form.
* `ReplayMatchEngine.Keyed.step` : a call serves the queue of the hash it asks for.
-/

namespace SpycatcherHarness

/-! ### The queues of a cassette -/

namespace Cassette

variable (cassette : Cassette)

/-- The interactions with a hash, in recorded order, with their positions. -/
def recordedWith (hash : String) : List (Interaction × ℕ) :=
  cassette.interactions.zipIdx.filter fun i => i.1.request.stableHash = some hash

/-- The positions of the interactions with a hash, in recorded order. -/
def positions (hash : String) : List ℕ := (cassette.recordedWith hash).map Prod.snd

variable {cassette} {hash : String}

theorem mem_recordedWith {i : Interaction} {idx : ℕ} :
    (i, idx) ∈ cassette.recordedWith hash ↔
      cassette.interactions[idx]? = some i ∧ i.request.stableHash = some hash := by
  simp [recordedWith, List.mem_zipIdx_iff_getElem?]

/-- A hash has no interactions when none was recorded with it. -/
theorem recordedWith_eq_nil_iff :
    cassette.recordedWith hash = [] ↔
      ¬ ∃ i ∈ cassette.interactions, i.request.stableHash = some hash := by
  rw [List.eq_nil_iff_forall_not_mem]
  constructor
  · rintro h ⟨i, hi, hhash⟩
    obtain ⟨idx, hidx⟩ := List.mem_iff_getElem?.1 hi
    exact h (i, idx) (mem_recordedWith.2 ⟨hidx, hhash⟩)
  · rintro h ⟨i, idx⟩ hmem
    obtain ⟨hidx, hhash⟩ := mem_recordedWith.1 hmem
    exact h ⟨i, List.mem_of_getElem? hidx, hhash⟩

theorem mem_positions {idx : ℕ} :
    idx ∈ cassette.positions hash ↔
      ∃ i, cassette.interactions[idx]? = some i ∧ i.request.stableHash = some hash := by
  simp only [positions, List.mem_map, Prod.exists, mem_recordedWith]
  constructor
  · rintro ⟨i, _, hi, rfl⟩
    exact ⟨i, hi⟩
  · rintro ⟨i, hi⟩
    exact ⟨i, idx, hi, rfl⟩

/-- Positions are in recorded order. -/
theorem positions_pairwise (cassette : Cassette) (hash : String) :
    (cassette.positions hash).Pairwise (· < ·) := by
  have hall : (cassette.interactions.zipIdx.map Prod.snd).Pairwise (· < ·) := by
    rw [List.zipIdx_map_snd]
    exact List.pairwise_lt_range'
  exact hall.sublist (List.filter_sublist.map _)

/-- Every interaction waits in one queue only. -/
theorem positions_apart (cassette : Cassette) : Queues.Apart cassette.positions where
  nodup hash := (cassette.positions_pairwise hash).imp ne_of_lt
  key := by
    intro hash hash' idx h h'
    obtain ⟨i, hi, hhash⟩ := mem_positions.1 h
    obtain ⟨j, hj, hhash'⟩ := mem_positions.1 h'
    obtain rfl : i = j := Option.some.inj (hi.symm.trans hj)
    exact Option.some.inj (hhash.symm.trans hhash')

/-- Every position with a hash stands in its queue. -/
theorem exists_mem_positions (hashed : ∀ i ∈ cassette.interactions, i.request.stableHash.isSome)
    {idx : ℕ} (h : idx < cassette.interactions.length) :
    ∃ hash, idx ∈ cassette.positions hash := by
  obtain ⟨hash, hhash⟩ := Option.isSome_iff_exists.1 (hashed _ (List.getElem_mem h))
  exact ⟨hash, mem_positions.2 ⟨_, List.getElem?_eq_getElem h, hhash⟩⟩

/-! ### What a request is told -/

/-- What a request is told when no interaction with its hash is left. -/
def keyedMiss (cassette : Cassette) (hash : String) : MismatchDiagnostic where
  position := .keyedMiss cassette.interactions.length
  expectedHash := ""
  observedHash := hash
  diffSummary :=
    if cassette.recordedWith hash = [] then
      diagnosticNoMatch ++ ": no interaction with hash " ++ hash ++ " found in cassette"
    else
      diagnosticConsumed ++ ": all interactions with hash " ++ hash ++
        " have already been consumed; cassette contains " ++
        toString (cassette.recordedWith hash).length ++ " interaction(s) with this hash"

/-- What a request is told after a number of others with its hash. -/
def keyedOutcome (cassette : Cassette) (hash : String) (earlier : ℕ) : MatchOutcome :=
  match (cassette.recordedWith hash)[earlier]? with
  | some (interaction, idx) => .matched idx interaction
  | none => .mismatch (cassette.keyedMiss hash)

/-- The reason code tells a hash that has run out from one that was never recorded. -/
theorem reasonCode_keyedMiss (cassette : Cassette) (hash : String) :
    (cassette.keyedMiss hash).reasonCode =
      if cassette.recordedWith hash = [] then "no_matching_interaction"
      else "interaction_already_consumed" := by
  unfold MismatchDiagnostic.reasonCode
  by_cases hnil : cassette.recordedWith hash = []
  · -- the texts differ in their first letter
    simp [keyedMiss, hnil, diagnosticConsumed, diagnosticNoMatch]
  · have hprefix : diagnosticConsumed.toList <+: (cassette.keyedMiss hash).diffSummary.toList := by
      simp [keyedMiss, hnil, List.append_assoc]
    rw [if_neg hnil]
    exact if_pos hprefix

end Cassette

namespace InteractionData

/-- The hashes that the positions are indexed by are those of the interactions. -/
theorem index_positions {data : List InteractionData} {cassette : Cassette}
    (parallel : List.Forall₂ Of data cassette.interactions) (hash : String) :
    (index data hash).getD [] = cassette.positions hash := by
  have hhashes : data.map (fun d => some d.stableHash) =
      cassette.interactions.map fun i => i.request.stableHash := by
    rw [← List.forall₂_eq_eq_eq, List.forall₂_map_left_iff, List.forall₂_map_right_iff]
    exact parallel.imp fun d i hof => hof.1.symm
  -- on both sides the positions depend on nothing but the hashes
  have hfilter : ∀ {α : Type} (f : α → Option String) (xs : List α),
      (xs.zipIdx.filter fun x => f x.1 = some hash).map Prod.snd =
        ((xs.map f).zipIdx.filter fun x => x.1 = some hash).map Prod.snd := by
    intro α f xs
    rw [List.zipIdx_map, List.filter_map, List.map_map]
    rfl
  rw [index_eq, Cassette.positions, Cassette.recordedWith,
    hfilter fun i : Interaction => i.request.stableHash, ← hhashes, ← hfilter]
  simp

/-- A hash is indexed only with positions. -/
theorem index_ne_some_nil (data : List InteractionData) (hash : String) :
    index data hash ≠ some [] := by
  have hfold : ∀ (ds : List (InteractionData × ℕ)) (map : String → Option (List ℕ)),
      map hash ≠ some [] →
      ds.foldl (fun (map : String → Option (List ℕ)) d => Function.update map d.1.stableHash
        (some ((map d.1.stableHash).getD [] ++ [d.2] : List ℕ))) map hash ≠ some [] := by
    intro ds
    induction ds with
    | nil => exact fun map h => h
    | cons d ds ih =>
      intro map h
      refine ih _ ?_
      show Function.update _ _ _ hash ≠ _
      by_cases hd : d.1.stableHash = hash
      · subst hd; simp
      · rwa [Function.update_of_ne (Ne.symm hd)]
  exact hfold data.zipIdx _ (by simp)

end InteractionData

namespace ReplayMatchEngine

variable {engine : ReplayMatchEngine}

/-- A hash is indexed exactly with the positions of its interactions. -/
theorem hashToIndices_eq (hmode : engine.mode = .keyed) (hash : String) :
    engine.hashToIndices hash =
      if engine.cassette.recordedWith hash = [] then none
      else some (engine.cassette.positions hash) := by
  have hindexed : engine.hashToIndices = InteractionData.index engine.interactions := by
    have h := engine.indexed
    rw [hmode] at h
    exact h
  have heq := InteractionData.index_positions engine.parallel hash
  have hne := InteractionData.index_ne_some_nil engine.interactions hash
  rw [hindexed]
  cases hindex : InteractionData.index engine.interactions hash with
  | none =>
    rw [hindex, Option.getD_none, Cassette.positions, eq_comm, List.map_eq_nil_iff] at heq
    rw [if_pos heq]
  | some indices =>
    rw [hindex, Option.getD_some] at heq
    subst heq
    rw [if_neg]
    intro hnil
    rw [hindex, Cassette.positions, hnil] at hne
    exact hne rfl

namespace Keyed

variable {cassette : Cassette} {served : String → ℕ} {client : Client}

/-- The client's engine is the cassette's queues, each served a number of times; what it has shown
stood no further back in its queue than what is served next. -/
structure Inv (cassette : Cassette) (served : String → ℕ) (client : Client) : Prop where
  cassette_eq : client.engine.cassette = cassette
  mode_eq : client.engine.mode = .keyed
  length_eq : client.engine.consumed.length = cassette.interactions.length
  waiting : Queues.Waiting cassette.positions served
    fun idx => client.engine.consumed[idx]? = some false
  shown : ∀ {idx hash}, (idx, hash) ∈ client.shown →
    ∃ n, (cassette.positions hash)[n]? = some idx ∧ n ≤ served hash

/-- A hash is served with the interaction at the front of its queue. -/
theorem keyedCandidate_eq (inv : Inv cassette served client) (hash : String) :
    client.engine.keyedCandidate hash =
      match (cassette.positions hash)[served hash]? with
      | some idx => .ok idx
      | none => .error (cassette.keyedMiss hash) := by
  have hfind := inv.waiting.find?_eq cassette.positions_apart hash
  have hlength := client.engine.length_interactions
  unfold keyedCandidate
  rw [hashToIndices_eq inv.mode_eq, hlength, inv.cassette_eq]
  split_ifs with hnil
  · simp [Cassette.positions, Cassette.keyedMiss, hnil]
  · simp only [hfind]
    cases (cassette.positions hash)[served hash]? with
    | some idx => rfl
    | none => simp [Cassette.keyedMiss, hnil, Cassette.positions]

/-- **What a request is told, in closed form.** -/
theorem peekMatch_eq (inv : Inv cassette served client) (hash : String) (canonical : Json) :
    client.engine.peekMatch hash canonical = cassette.keyedOutcome hash (served hash) := by
  have hcandidate : client.engine.candidate hash canonical = client.engine.keyedCandidate hash := by
    simp [candidate, inv.mode_eq]
  rw [keyedCandidate_eq inv, Cassette.positions, List.getElem?_map] at hcandidate
  unfold Cassette.keyedOutcome
  cases hserved : (cassette.recordedWith hash)[served hash]? with
  | none =>
    rw [hserved] at hcandidate
    exact peekMatch_of_error hcandidate
  | some front =>
    obtain ⟨i, idx⟩ := front
    rw [hserved] at hcandidate
    obtain ⟨j, hj, -, hpeek⟩ := peekMatch_of_candidate hcandidate
    have hi := (Cassette.mem_recordedWith.1 (List.mem_of_getElem? hserved)).1
    rw [inv.cassette_eq, hi] at hj
    cases hj
    exact hpeek

/-- A new engine's queues have not been served. -/
theorem inv_new (h : new cassette .keyed = .ok engine) :
    Inv cassette (fun _ => 0) (Client.new engine) := by
  unfold new at h
  split at h
  · cases h
  obtain rfl := Except.ok.inj h
  rename_i data hdata
  have hlength := List.Forall₂.length_eq (InteractionData.of_collect hdata)
  refine ⟨rfl, rfl, by simp [Client.new, hlength], ?_, by simp [Client.new]⟩
  intro hash idx hidx
  obtain ⟨i, hi, -⟩ := Cassette.mem_positions.1 hidx
  have hlt := (List.getElem?_eq_some_iff.1 hi).1
  simp [Client.new, hlength, hlt]

/-- A commit takes what was shown if it has come to the front of its queue. -/
theorem commitMatch_shown (inv : Inv cassette served client) {idx : ℕ} {hash : String}
    (hmem : (idx, hash) ∈ client.shown) :
    (client.engine.commitMatch idx).1 = true ↔
      (cassette.positions hash)[served hash]? = some idx := by
  obtain ⟨n, hn, hle⟩ := inv.shown hmem
  have hiff : (client.engine.commitMatch idx).1 = true ↔
      client.engine.consumed[idx]? = some false := by
    rw [commitMatch_keyed inv.mode_eq]
    split_ifs with hfresh <;> simp [hfresh]
  rw [hiff]
  constructor
  · intro hfresh
    obtain rfl := inv.waiting.eq_served hn hle (by simpa using hfresh)
    exact hn
  · intro hget
    have hfresh := (inv.waiting hash idx (List.mem_of_getElem? hget)).2
      (Queues.notMem_take (cassette.positions_apart.nodup hash) hget)
    simpa using hfresh

/-- What the index finds under a hash are the positions with it. -/
theorem mem_hashToIndices (inv : Inv cassette served client) (hash : String) (idx : ℕ) :
    (∃ indices, client.engine.hashToIndices hash = some indices ∧ idx ∈ indices) ↔
      idx ∈ cassette.positions hash := by
  rw [hashToIndices_eq inv.mode_eq, inv.cassette_eq]
  split_ifs with hnil
  · simp [Cassette.positions, hnil]
  · simp

/-- **A call consumes the interaction at the front of the queue that it asks for.** -/
theorem consumes_eq (inv : Inv cassette served client) {call : Call}
    (hshown : client.CommitsShown call) :
    client.consumes call = (client.requestedHash call).bind fun hash =>
      (cassette.positions hash)[served hash]?.map fun idx => (idx, some hash) := by
  cases call with
  | next hash canonical =>
    simp only [Client.consumes, Client.requestedHash, nextMatch_eq, peekMatch_eq inv,
      Cassette.keyedOutcome, Cassette.positions, List.getElem?_map, Option.bind_some]
    cases (cassette.recordedWith hash)[served hash]? <;> rfl
  | peek hash canonical => rfl
  | commit idx =>
    simp only [Client.consumes, Client.requestedHash]
    split_ifs with hcommit
    · cases hlookup : client.shown.lookup idx with
      | none =>
        obtain ⟨hash, hmem⟩ := hshown
        have := List.lookup_eq_none_iff.1 hlookup _ hmem
        simp at this
      | some hash =>
        obtain ⟨before, after, heq, -⟩ := List.lookup_eq_some_iff.1 hlookup
        have hmem : (idx, hash) ∈ client.shown := by simp [heq]
        simp [(commitMatch_shown inv hmem).1 hcommit]
    · rfl

theorem mem_consumes (inv : Inv cassette served client) {call : Call}
    (hshown : client.CommitsShown call) {c : ℕ × Option String} :
    c ∈ (client.consumes call).toList ↔
      ∃ hash, (cassette.positions hash)[served hash]? = some c.1 ∧ c.2 = some hash ∧
        client.requestedHash call = some hash := by
  obtain ⟨idx, observed⟩ := c
  rw [consumes_eq inv hshown]
  simp only [Option.mem_toList, Option.bind_eq_some_iff, Option.map_eq_some_iff, Prod.mk.injEq]
  constructor
  · rintro ⟨hash, hasked, next, hnext, rfl, rfl⟩
    exact ⟨hash, hnext, rfl, hasked⟩
  · rintro ⟨hash, hnext, rfl, hasked⟩
    exact ⟨hash, hasked, idx, hnext, rfl, rfl⟩

/-- The queues after a request. -/
theorem Inv.serve (inv : Inv cassette served client) (hash : String)
    {engine : ReplayMatchEngine}
    (hengine : engine =
      match (cassette.positions hash)[served hash]? with
      | some idx => (client.engine.commitMatch idx).2
      | none => client.engine) :
    Inv cassette (Function.update served hash (served hash + 1)) { client with engine } := by
  have hshown : ∀ {idx hash'}, (idx, hash') ∈ client.shown → ∃ n,
      (cassette.positions hash')[n]? = some idx ∧
        n ≤ Function.update served hash (served hash + 1) hash' := by
    intro idx hash' hmem
    obtain ⟨n, hn, hle⟩ := inv.shown hmem
    refine ⟨n, hn, ?_⟩
    by_cases h : hash' = hash
    · subst h; simp; omega
    · rwa [Function.update_of_ne h]
  cases hserved : (cassette.positions hash)[served hash]? with
  | none =>
    simp only [hserved] at hengine
    subst hengine
    exact { inv with waiting := inv.waiting.miss hserved, shown := hshown }
  | some idx =>
    have hfresh : client.engine.consumed[idx]? = some false := by
      have h := (inv.waiting hash idx (List.mem_of_getElem? hserved)).2
        (Queues.notMem_take (cassette.positions_apart.nodup hash) hserved)
      simpa using h
    simp only [hserved, commitMatch_keyed inv.mode_eq, if_pos hfresh] at hengine
    subst hengine
    refine ⟨inv.cassette_eq, inv.mode_eq, by simp [inv.length_eq], ?_, hshown⟩
    refine inv.waiting.serve cassette.positions_apart hserved fun other => ?_
    rw [decide_eq_true_iff, decide_eq_true_iff, List.getElem?_set]
    split_ifs with heq hlt
    · simp [heq]
    · simp [heq]
    · simp [Ne.symm heq]

/-- **A call serves the queue of the hash that it asks for.** -/
theorem Inv.step (inv : Inv cassette served client) {call : Call}
    (hshown : client.CommitsShown call) :
    Inv cassette
      (match client.requestedHash call with
      | none => served
      | some hash => Function.update served hash (served hash + 1)) (client.step call) := by
  have hengine := client.step_engine call
  rw [consumes_eq inv hshown] at hengine
  cases call with
  | next hash canonical =>
    refine inv.serve hash (hengine.trans ?_)
    simp only [Client.requestedHash, Option.bind_some]
    cases (cassette.positions hash)[served hash]? <;> rfl
  | peek hash canonical =>
    simp only [Client.requestedHash, Client.step, peekMatch_eq inv]
    cases houtcome : cassette.keyedOutcome hash (served hash) with
    | mismatch diagnostic => exact inv
    | matched idx i =>
      refine { inv with shown := ?_ }
      intro found hash' hmem
      rcases List.mem_cons.1 hmem with heq | hmem
      · obtain ⟨rfl, rfl⟩ := Prod.mk.inj heq
        refine ⟨_, ?_, le_rfl⟩
        unfold Cassette.keyedOutcome at houtcome
        split at houtcome
        · rename_i hget
          cases houtcome
          simp [Cassette.positions, hget]
        · cases houtcome
      · exact inv.shown hmem
  | commit idx =>
    cases hash : client.requestedHash (.commit idx) with
    | none =>
      rw [hash] at hengine
      simp only [Client.step] at hengine ⊢
      rw [show (client.engine.commitMatch idx).2 = client.engine from hengine]
      exact inv
    | some hash' =>
      rw [hash] at hengine
      refine inv.serve hash' (hengine.trans ?_)
      simp only [Option.bind_some]
      cases (cassette.positions hash')[served hash']? <;> rfl

/-! ### Runs -/

variable (cassette) in
/-- The queues after a run have been served as often as the run asks for their hashes. -/
structure After (start : Client) (calls : List Call) : Prop where
  inv : Inv cassette (start.requests calls) (Runs.run Client.step start calls)
  consumed : ∀ hash, ((start.consumed calls).filter fun c => c.2 = some hash).map Prod.fst =
    (cassette.positions hash).take (start.requests calls hash)
  hashed : ∀ c ∈ start.consumed calls, ∃ hash, c.2 = some hash
  once : ((start.consumed calls).map Prod.fst).Nodup

variable {start : Client} {calls : List Call}

/-- What a run has consumed stands among those served in the queue of its hash. -/
theorem After.mem_take (h : After cassette start calls) {c : ℕ × Option String}
    (hc : c ∈ start.consumed calls) :
    ∃ hash, c.2 = some hash ∧ c.1 ∈ (cassette.positions hash).take (start.requests calls hash) := by
  obtain ⟨hash, hhash⟩ := h.hashed c hc
  refine ⟨hash, hhash, ?_⟩
  rw [← h.consumed hash]
  exact List.mem_map.2 ⟨c, List.mem_filter.2 ⟨hc, by simpa using hhash⟩, rfl⟩

/-- **A call takes a run further.** -/
theorem After.concat (h : After cassette start calls) {call : Call}
    (hshown : (Runs.run Client.step start calls).CommitsShown call) :
    After cassette start (calls ++ [call]) := by
  have hinv := h.inv.step hshown
  refine ⟨?_, ?_, ?_, ?_⟩
  · rw [Client.requests_concat, Runs.run_concat]
    exact hinv
  · intro hash
    rw [Client.consumed_concat, Client.requests_concat, List.filter_append, List.map_append,
      h.consumed, consumes_eq h.inv hshown]
    cases (Runs.run Client.step start calls).requestedHash call with
    | none => simp
    | some asked =>
      simp only [Option.bind_some]
      by_cases hasked : asked = hash
      · subst hasked
        rw [Function.update_self, List.take_add_one]
        cases (cassette.positions asked)[start.requests calls asked]? <;> simp
      · rw [Function.update_of_ne (Ne.symm hasked)]
        cases (cassette.positions asked)[start.requests calls asked]? <;> simp [hasked]
  · intro c hc
    rw [Client.consumed_concat, List.mem_append, mem_consumes h.inv hshown] at hc
    rcases hc with hc | ⟨hash, -, hhash, -⟩
    · exact h.hashed c hc
    · exact ⟨hash, hhash⟩
  · rw [Client.consumed_concat, List.map_append]
    refine List.nodup_append.2 ⟨h.once, ?_, ?_⟩
    · cases (Runs.run Client.step start calls).consumes call <;> simp
    · intro idx hidx next hnext
      obtain ⟨c, hc, rfl⟩ := List.mem_map.1 hidx
      obtain ⟨d, hd, rfl⟩ := List.mem_map.1 hnext
      obtain ⟨hash, -, htake⟩ := h.mem_take hc
      obtain ⟨asked, hfront, -⟩ := (mem_consumes h.inv hshown).1 hd
      -- the next one has not been served, in its own queue nor in another
      rintro heq
      rw [heq] at htake
      obtain rfl := cassette.positions_apart.key (List.mem_of_mem_take htake)
        (List.mem_of_getElem? hfront)
      exact Queues.notMem_take (cassette.positions_apart.nodup hash) hfront htake

/-- Every run serves the queues. -/
theorem after_run (h : new cassette .keyed = .ok engine)
    (hshown : Runs.Along Client.step Client.CommitsShown (Client.new engine) calls) :
    After cassette (Client.new engine) calls := by
  refine Runs.run_history (I := fun calls _ => After cassette (Client.new engine) calls)
    ⟨inv_new h, ?_, ?_, ?_⟩ (fun calls call ih hcall => ih.concat hcall) calls hshown
  · intro hash
    simp
  · simp
  · simp

/-- The law of keyed matching: what a client sees after a list of calls. -/
structure Law (cassette : Cassette) (start : Client) (calls : List Call) : Prop where
  /-- The next request with a hash is answered from the next interaction with it, -/
  served : ∀ {hash idx canonical},
    (cassette.positions hash)[start.requests calls hash]? = some idx →
    ∃ i, cassette.interactions[idx]? = some i ∧
      ((Runs.run Client.step start calls).engine.nextMatch hash canonical).1 = .matched idx i
  /-- and when none is left it is told so. -/
  missed : ∀ {hash canonical},
    (cassette.positions hash)[start.requests calls hash]? = none →
    ∃ diagnostic,
      (Runs.run Client.step start calls).engine.nextMatch hash canonical =
        (.mismatch diagnostic, (Runs.run Client.step start calls).engine) ∧
      diagnostic.position = .keyedMiss cassette.interactions.length ∧
      diagnostic.reasonCode =
        if ∃ i ∈ cassette.interactions, i.request.stableHash = some hash then
          "interaction_already_consumed"
        else "no_matching_interaction"
  /-- Nothing but the number of earlier requests with the hash tells in what a request is told. -/
  outcome : ∀ hash canonical,
    ((Runs.run Client.step start calls).engine.nextMatch hash canonical).1 =
      cassette.keyedOutcome hash (start.requests calls hash)
  /-- Looking at a match shows what taking it would give. -/
  peeked : ∀ hash canonical,
    (Runs.run Client.step start calls).engine.peekMatch hash canonical =
      cassette.keyedOutcome hash (start.requests calls hash)
  /-- A match that was just looked at can be committed. -/
  commits : ∀ {hash canonical idx i},
    (Runs.run Client.step start calls).engine.peekMatch hash canonical = .matched idx i →
    ((Runs.run Client.step start calls).engine.commitMatch idx).1 = true
  /-- A commit takes the next interaction with the hash it was shown for, or nothing. -/
  committed : ∀ {hash idx}, (idx, hash) ∈ (Runs.run Client.step start calls).shown →
    (((Runs.run Client.step start calls).engine.commitMatch idx).1 = true ↔
      (cassette.positions hash)[start.requests calls hash]? = some idx)
  declined : ∀ {idx}, ((Runs.run Client.step start calls).engine.commitMatch idx).1 = false →
    ((Runs.run Client.step start calls).engine.commitMatch idx).2 =
      (Runs.run Client.step start calls).engine
  /-- The interactions consumed for a hash are the first ones with it, in recorded order. -/
  consumed : ∀ hash, ((start.consumed calls).filter fun c => c.2 = some hash).map Prod.fst =
    (cassette.positions hash).take (start.requests calls hash)
  /-- No interaction is consumed twice. -/
  once : ((start.consumed calls).map Prod.fst).Nodup
  /-- The index is a partition into ascending lists. -/
  ascending : ∀ {hash indices},
    (Runs.run Client.step start calls).engine.hashToIndices hash = some indices →
    indices ≠ [] ∧ indices.Pairwise (· < ·) ∧ ∀ idx ∈ indices, idx < cassette.interactions.length
  partition : ∀ {idx}, idx < cassette.interactions.length →
    ∃! hash, ∃ indices,
      (Runs.run Client.step start calls).engine.hashToIndices hash = some indices ∧ idx ∈ indices

/-- A run has the law when its queues have been served. -/
theorem After.law (h : After cassette start calls)
    (hashed : ∀ i ∈ cassette.interactions, i.request.stableHash.isSome) :
    Law cassette start calls := by
  have hpeek : ∀ hash canonical,
      (Runs.run Client.step start calls).engine.peekMatch hash canonical =
        cassette.keyedOutcome hash (start.requests calls hash) := peekMatch_eq h.inv
  have hindices := hashToIndices_eq h.inv.mode_eq
  simp only [h.inv.cassette_eq] at hindices
  refine ⟨?_, ?_, ?_, hpeek, ?_, ?_, commitMatch_of_false, h.consumed, h.once, ?_, ?_⟩
  · intro hash idx canonical hidx
    obtain ⟨⟨i, _⟩, hget, rfl⟩ :=
      Option.map_eq_some_iff.1 (List.getElem?_map .. ▸ hidx)
    refine ⟨i, (Cassette.mem_recordedWith.1 (List.mem_of_getElem? hget)).1, ?_⟩
    simp [nextMatch_eq, hpeek, Cassette.keyedOutcome, hget]
  · intro hash canonical hnone
    have hget := Option.map_eq_none_iff.1 (List.getElem?_map .. ▸ hnone)
    refine ⟨cassette.keyedMiss hash, ?_, rfl, ?_⟩
    · simp [nextMatch_eq, hpeek, Cassette.keyedOutcome, hget]
    · rw [Cassette.reasonCode_keyedMiss]
      simp only [Cassette.recordedWith_eq_nil_iff, ite_not]
  · intro hash canonical
    rw [nextMatch_eq, hpeek]
  · intro hash canonical idx i hmatched
    exact commitMatch_of_candidate (matched_of_peekMatch hmatched).1
  · intro hash idx hmem
    exact commitMatch_shown h.inv hmem
  · intro hash indices hsome
    rw [hindices] at hsome
    split_ifs at hsome with hnil
    cases hsome
    refine ⟨by simpa [Cassette.positions] using hnil, cassette.positions_pairwise hash, ?_⟩
    intro idx hidx
    obtain ⟨i, hi, -⟩ := Cassette.mem_positions.1 hidx
    exact (List.getElem?_eq_some_iff.1 hi).1
  · intro idx hlt
    simp only [mem_hashToIndices h.inv]
    obtain ⟨hash, hmem⟩ := Cassette.exists_mem_positions hashed hlt
    exact ⟨hash, hmem, fun other hother => cassette.positions_apart.key hother hmem⟩

/-- **Keyed matching in closed form.**  An engine can be made of every cassette whose interactions
have hashes, and every run of calls to it, in which commits are of interactions that were shown,
has the law. -/
theorem keyed_closed_form (hashed : ∀ i ∈ cassette.interactions, i.request.stableHash.isSome) :
    ∃ engine, new cassette .keyed = .ok engine ∧ ∀ calls : List Call,
      Runs.Along Client.step Client.CommitsShown (Client.new engine) calls →
      Law cassette (Client.new engine) calls := by
  obtain ⟨engine, hnew⟩ := exists_new hashed .keyed
  exact ⟨engine, hnew, fun calls hshown => (after_run hnew hshown).law hashed⟩

/-- Two interactions with one hash are served in order, the first after it was looked at. -/
theorem keyed_closed_form_duplicate :
    ∃ engine, new (.ofHashes ["hash_a", "hash_a", "hash_b"]) .keyed = .ok engine ∧
      Law (.ofHashes ["hash_a", "hash_a", "hash_b"]) (Client.new engine)
        [.peek "hash_a" .null, .commit 0, .next "hash_b" .null, .next "hash_a" .null] := by
  obtain ⟨engine, hnew, hlaw⟩ := @keyed_closed_form
    (.ofHashes ["hash_a", "hash_a", "hash_b"]) (by simp [Cassette.ofHashes])
  refine ⟨engine, hnew, hlaw _ ⟨trivial, ?_, trivial, trivial, trivial⟩⟩
  have hpeek := peekMatch_eq (inv_new hnew) "hash_a" .null
  refine ⟨"hash_a", ?_⟩
  simp only [Client.step, hpeek]
  exact List.mem_cons_self

end Keyed

end ReplayMatchEngine

end SpycatcherHarness
