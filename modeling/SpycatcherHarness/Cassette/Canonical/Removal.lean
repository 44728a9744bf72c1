import SpycatcherHarness.Cassette.Canonical.Body

/-!
# Removing ignored paths

What the removals of `canonicalize_body` leave of a body.  Removing an object entry moves the last
entry into the gap, and removing from inside an entry writes the value back under the same key.

* `Canonical.swapRemove_perm` : up to order, removing a key only erases its entry.
* `Canonical.canonicalizeBody_wf` : a canonical body has distinct keys, like the body it was made
  from.
-/

namespace SpycatcherHarness

namespace Canonical

/-! ### Object entries -/

/-- Moving the last item into the place of another one erases that one, up to order. -/
theorem set_dropLast_perm {α : Type*} (xs : List α) (last : α) {i : ℕ} (hi : i < xs.length + 1) :
    (((xs ++ [last]).set i last).dropLast).Perm ((xs ++ [last]).eraseIdx i) := by
  rcases Nat.lt_or_ge i xs.length with hlt | hge
  · rw [List.set_append_left _ _ hlt, List.dropLast_concat, List.eraseIdx_append_of_lt_length hlt]
    exact (List.set_perm_cons_eraseIdx hlt last).trans (List.perm_append_singleton _ _).symm
  -- the last item itself is erased
  · obtain rfl : i = xs.length := by omega
    simp [List.eraseIdx_append_of_length_le]

/-- Removing a key erases the entry it is found at, up to order. -/
theorem swapRemove_perm {key : String} {es : List (String × Json)} {i : ℕ}
    (hi : es.findIdx? (·.1 = key) = some i) : (swapRemove key es).Perm (es.eraseIdx i) := by
  obtain ⟨hlt, -⟩ := List.findIdx?_eq_some_iff_getElem.1 hi
  have hne : es ≠ [] := List.ne_nil_of_length_pos (by omega)
  have hsplit := List.dropLast_concat_getLast hne
  rw [swapRemove, hi, List.getLast?_eq_some_getLast hne]
  simp only
  generalize es.getLast hne = last at hsplit ⊢
  generalize es.dropLast = ds at hsplit
  subst hsplit
  exact set_dropLast_perm ds last (by simpa using hlt)

theorem swapRemove_of_not_mem {key : String} {es : List (String × Json)}
    (h : es.findIdx? (·.1 = key) = none) : swapRemove key es = es := by
  rw [swapRemove, h]

/-- Removing a key brings in no entry and keeps the keys distinct. -/
theorem swapRemove_wf {key : String} {es : List (String × Json)} (h : (Json.object es).Wf) :
    (Json.object (swapRemove key es)).Wf := by
  cases hi : es.findIdx? (·.1 = key) with
  | none => rwa [swapRemove_of_not_mem hi]
  | some i =>
    obtain ⟨hkeys, hes⟩ := Json.wf_object.1 h
    have hperm := swapRemove_perm hi
    have hsub := List.eraseIdx_sublist es i
    refine Json.wf_object.2 ⟨?_, fun e he => hes e (hsub.subset (hperm.subset he))⟩
    rw [(hperm.map Prod.fst).nodup_iff]
    exact hkeys.sublist (hsub.map Prod.fst)

/-- Writing through a key changes no key. -/
theorem map_fst_setEntry (key : String) (v : Json) (es : List (String × Json)) :
    (setEntry key v es).map Prod.fst = es.map Prod.fst := by
  rw [setEntry, List.map_map]
  refine List.map_congr_left fun e _ => ?_
  show (if e.1 = key then (key, v) else e).1 = e.1
  split_ifs with h
  · exact h.symm
  · rfl

theorem setEntry_wf {key : String} {v : Json} {es : List (String × Json)}
    (h : (Json.object es).Wf) (hv : v.Wf) : (Json.object (setEntry key v es)).Wf := by
  obtain ⟨hkeys, hes⟩ := Json.wf_object.1 h
  refine Json.wf_object.2 ⟨by rwa [map_fst_setEntry], fun e he => ?_⟩
  obtain ⟨f, hf, rfl⟩ := List.mem_map.1 he
  split_ifs
  · exact hv
  · exact hes f hf

/-! ### Removals -/

theorem exists_of_map_eq_ok {ε α β : Type} {f : α → β} {x : Except ε α} {b : β}
    (h : x.map f = .ok b) : ∃ a, x = .ok a ∧ f a = b := by
  cases x with
  | error e => cases h
  | ok a => exact ⟨a, rfl, Except.ok.inj h⟩

/-- One removal keeps the keys of every object distinct. -/
theorem removePointer_wf {pointerPath : String} {tokens : List PointerToken} :
    ∀ {v w : Json}, v.Wf → removePointer pointerPath tokens v = .ok w → w.Wf := by
  induction tokens with
  | nil =>
    intro v w hv h
    cases h
    exact hv
  | cons head tail ih =>
    intro v w hv h
    cases v with
    | object es =>
      simp only [removePointer] at h
      split_ifs at h with htail
      · cases h
        exact swapRemove_wf hv
      cases hl : Json.lookup head es with
      | none => rw [hl] at h; cases h; exact hv
      | some next =>
        rw [hl] at h
        obtain ⟨u, hu, rfl⟩ := exists_of_map_eq_ok h
        exact setEntry_wf hv (ih ((Json.wf_object.1 hv).2 _ (Json.mem_of_lookup hl)) hu)
    | array items =>
      have hitems := Json.wf_array.1 hv
      simp only [removePointer] at h
      cases hindex : parseArrayIndexToken head with
      | none => rw [hindex] at h; cases h
      | some index =>
        rw [hindex] at h
        simp only at h
        split_ifs at h with htail
        · cases h
          exact Json.wf_array.2 fun x hx => hitems x (List.mem_of_mem_eraseIdx hx)
        cases hget : items[index]? with
        | none => rw [hget] at h; cases h; exact hv
        | some next =>
          rw [hget] at h
          obtain ⟨u, hu, rfl⟩ := exists_of_map_eq_ok h
          refine Json.wf_array.2 fun x hx => ?_
          rcases List.mem_or_eq_of_mem_set hx with hx | rfl
          · exact hitems x hx
          · exact ih (hitems _ (List.mem_of_getElem? hget)) hu
    | _ => cases h; exact hv

theorem foldlM_removePointer_wf {removals : List (List PointerToken)} :
    ∀ {v w : Json}, v.Wf →
      removals.foldlM (fun v tokens => removePointer (pointerTokensToPath tokens) tokens v) v =
        .ok w → w.Wf := by
  induction removals with
  | nil =>
    intro v w hv h
    cases h
    exact hv
  | cons tokens removals ih =>
    intro v w hv h
    rw [List.foldlM_cons] at h
    cases hstep : removePointer (pointerTokensToPath tokens) tokens v with
    | error e => rw [hstep] at h; cases h
    | ok u =>
      rw [hstep] at h
      exact ih (removePointer_wf hv hstep) h

/-- A canonical body is what the removals leave, with its keys sorted. -/
theorem exists_of_canonicalizeBody {body v : Json} {ignoredBodyPaths : List String}
    (h : canonicalizeBody body ignoredBodyPaths = .ok v) :
    ∃ (removals : List (List PointerToken)) (canonical : Json), removals.foldlM
        (fun v tokens => removePointer (pointerTokensToPath tokens) tokens v) body = .ok canonical ∧
      v = sortJsonValue canonical := by
  unfold canonicalizeBody at h
  cases hremovals : orderedPointerRemovals ignoredBodyPaths with
  | error e => rw [hremovals] at h; cases h
  | ok removals =>
    rw [hremovals] at h
    cases hfold : removals.foldlM
        (fun v tokens => removePointer (pointerTokensToPath tokens) tokens v) body with
    | error e => simp only [bind, Except.bind, hfold] at h; cases h
    | ok canonical =>
      simp only [bind, Except.bind, hfold] at h
      exact ⟨removals, canonical, hfold, (Except.ok.inj h).symm⟩

/-- A canonical body has distinct keys, like the body it was made from. -/
theorem canonicalizeBody_wf {body v : Json} {ignoredBodyPaths : List String} (hbody : body.Wf)
    (h : canonicalizeBody body ignoredBodyPaths = .ok v) : v.Wf := by
  obtain ⟨removals, canonical, hfold, rfl⟩ := exists_of_canonicalizeBody h
  exact sortJsonValue_wf (foldlM_removePointer_wf hbody hfold)

end Canonical

end SpycatcherHarness
