import SpycatcherHarness.Cassette.Canonical.RemovalOrder
import SpycatcherHarness.Cassette.Canonical.Request

/-!
# Ignored paths are removed at once

Removals are carried out one after another on a changing body.  `Canonical.prune` says what they
amount to: every node that a path addresses in the body as it came in is gone, and nothing else.

* `Canonical.sort_removePointer` : one removal, up to the order of keys, erases one node.
* `Canonical.prune_eraseAt` : erasing a node first is the same as counting it among the nodes that
  are gone, if it comes before the others in the order of removals.
* `canonicalizeBody_simultaneous` : the canonical body is the pruned body with sorted keys, and a
  body is refused exactly if a path meets an array with a token that is no index.
-/

namespace SpycatcherHarness

namespace Canonical

/-! ### Pruning -/

mutual

/-- A value without the nodes that are `gone`.  A node's place is the list of the keys and of the
decimal indices that lead to it. -/
def prune (gone : List PointerToken → Bool) : Json → Json
  | .array items => .array (pruneItems gone 0 items)
  | .object es => .object (pruneEntries gone es)
  | v => v

/-- The items from index `i` on. -/
def pruneItems (gone : List PointerToken → Bool) : ℕ → List Json → List Json
  | _, [] => []
  | i, x :: xs =>
    if gone [i.repr] then pruneItems gone (i + 1) xs
    else prune (fun place => gone (i.repr :: place)) x :: pruneItems gone (i + 1) xs

def pruneEntries (gone : List PointerToken → Bool) : List (String × Json) → List (String × Json)
  | [] => []
  | (key, v) :: es =>
    if gone [key] then pruneEntries gone es
    else (key, prune (fun place => gone (key :: place)) v) :: pruneEntries gone es

end

/-- Walking the tokens in a value reaches an array with a token that is not the decimal text of a
number that fits `usize`. -/
inductive Misaddressed : List PointerToken → Json → Prop
  | here {token : PointerToken} {rest : List PointerToken} {items : List Json} :
      (∀ i < 2 ^ 64, token ≠ Nat.repr i) → Misaddressed (token :: rest) (.array items)
  | item {i : ℕ} {rest : List PointerToken} {items : List Json} {next : Json} :
      items[i]? = some next → Misaddressed rest next → Misaddressed (i.repr :: rest) (.array items)
  | entry {key : PointerToken} {rest : List PointerToken} {es : List (String × Json)}
      {next : Json} : Json.lookup key es = some next → Misaddressed rest next →
      Misaddressed (key :: rest) (.object es)

/-- The nodes that some path addresses. -/
def addressed (ignoredBodyPaths : List String) (place : List PointerToken) : Bool :=
  ignoredBodyPaths.any fun path => decide (parseJsonPointer path = some place)

/-! ### Walking -/

theorem misaddressed_object {key : PointerToken} {rest : List PointerToken}
    {es : List (String × Json)} : Misaddressed (key :: rest) (.object es) ↔
      ∃ next, Json.lookup key es = some next ∧ Misaddressed rest next := by
  constructor
  · intro h
    cases h with
    | entry hnext hrest => exact ⟨_, hnext, hrest⟩
  · rintro ⟨next, hnext, hrest⟩
    exact .entry hnext hrest

theorem misaddressed_array {token : PointerToken} {rest : List PointerToken} {items : List Json} :
    Misaddressed (token :: rest) (.array items) ↔ parseArrayIndexToken token = none ∨
      ∃ i next, parseArrayIndexToken token = some i ∧ items[i]? = some next ∧
        Misaddressed rest next := by
  have hnone : parseArrayIndexToken token = none ↔ ∀ i < 2 ^ 64, token ≠ Nat.repr i := by
    rw [Option.eq_none_iff_forall_ne_some]
    exact forall_congr' fun i => by
      rw [ne_eq, parseArrayIndexToken_eq_some_iff, not_and, ne_eq]
      exact ⟨fun h hi heq => h heq hi, fun h heq hi => h hi heq⟩
  constructor
  · intro h
    cases h with
    | here htoken => exact Or.inl (hnone.2 htoken)
    | @item i _ _ next hnext hrest =>
      by_cases hi : i < 2 ^ 64
      · exact Or.inr ⟨i, next, parseArrayIndexToken_repr hi, hnext, hrest⟩
      · exact Or.inl (hnone.2 fun j hj heq => hi (repr_injective heq ▸ hj))
  · rintro (h | ⟨i, next, hi, hnext, hrest⟩)
    · exact .here (hnone.1 h)
    · rw [(parseArrayIndexToken_eq_some_iff.1 hi).1]
      exact .item hnext hrest

theorem not_misaddressed_nil {v : Json} : ¬ Misaddressed [] v := by
  intro h
  cases h

/-- Sorting the keys of a value does not change where a walk leads. -/
theorem misaddressed_sortJsonValue {tokens : List PointerToken} :
    ∀ {v : Json}, v.Wf → (Misaddressed tokens (sortJsonValue v) ↔ Misaddressed tokens v) := by
  induction tokens with
  | nil => intro v _; exact iff_of_false not_misaddressed_nil not_misaddressed_nil
  | cons token rest ih =>
    intro v hv
    cases v with
    | object es =>
      have hget := get_sortJsonValue hv token
      have hwf := (Json.wf_object.1 hv).2
      rw [sortJsonValue_object] at hget ⊢
      simp only [Json.get] at hget
      rw [misaddressed_object, misaddressed_object, hget]
      simp only [Option.map_eq_some_iff]
      constructor
      · rintro ⟨_, ⟨next, hnext, rfl⟩, hrest⟩
        exact ⟨next, hnext, (ih (hwf _ (Json.mem_of_lookup hnext))).1 hrest⟩
      · rintro ⟨next, hnext, hrest⟩
        exact ⟨_, ⟨next, hnext, rfl⟩, (ih (hwf _ (Json.mem_of_lookup hnext))).2 hrest⟩
    | array items =>
      have hwf := Json.wf_array.1 hv
      rw [sortJsonValue_array, misaddressed_array, misaddressed_array]
      simp only [List.getElem?_map, Option.map_eq_some_iff]
      refine or_congr_right ⟨?_, ?_⟩
      · rintro ⟨i, _, hi, ⟨next, hnext, rfl⟩, hrest⟩
        exact ⟨i, next, hi, hnext, (ih (hwf _ (List.mem_of_getElem? hnext))).1 hrest⟩
      · rintro ⟨i, next, hi, hnext, hrest⟩
        exact ⟨i, _, hi, ⟨next, hnext, rfl⟩, (ih (hwf _ (List.mem_of_getElem? hnext))).2 hrest⟩
    | _ => exact iff_of_false (fun h => by cases h) (fun h => by cases h)

/-! ### One removal -/

/-- A value without the node at one place, the rest staying in order. -/
def eraseAt : List PointerToken → Json → Json
  | [], v => v
  | head :: tail, .object es =>
    .object (if tail = [] then es.filter (·.1 ≠ head)
      else es.map fun e => if e.1 = head then (e.1, eraseAt tail e.2) else e)
  | head :: tail, .array items =>
    match parseArrayIndexToken head with
    | none => .array items
    | some i => .array (if tail = [] then items.eraseIdx i else items.modify i (eraseAt tail))
  | _ :: _, v => v

/-- A removal fails exactly if its walk reaches an array with a token that is no index. -/
theorem removePointer_eq_error {pointerPath : String} {tokens : List PointerToken} {e} :
    ∀ {v : Json}, removePointer pointerPath tokens v = .error e ↔
      e = .invalidPointerPath pointerPath ∧ Misaddressed tokens v := by
  induction tokens with
  | nil => intro v; exact iff_of_false (fun h => by cases h) (fun h => not_misaddressed_nil h.2)
  | cons head tail ih =>
    have hmap : ∀ {x : Except CanonicalError Json} {f : Json → Json},
        x.map f = .error e ↔ x = .error e := by
      intro x f
      cases x <;> simp [Except.map]
    intro v
    cases v with
    | object es =>
      rw [misaddressed_object, removePointer]
      split_ifs with htail
      · subst htail
        refine iff_of_false (fun h => by cases h) ?_
        rintro ⟨_, _, _, h⟩
        exact not_misaddressed_nil h
      cases hl : Json.lookup head es with
      | none =>
        refine iff_of_false (fun h => by cases h) ?_
        rintro ⟨_, _, h, _⟩
        cases h
      | some next =>
        simp only [hmap, ih, Option.some.injEq, exists_eq_left']
    | array items =>
      rw [misaddressed_array, removePointer]
      cases hindex : parseArrayIndexToken head with
      | none => simp [eq_comm]
      | some i =>
        simp only [reduceCtorEq, false_or, Option.some.injEq, exists_and_left, exists_eq_left']
        split_ifs with htail
        · subst htail
          refine iff_of_false (fun h => by cases h) ?_
          rintro ⟨_, _, _, h⟩
          exact not_misaddressed_nil h
        cases hget : items[i]? with
        | none =>
          refine iff_of_false (fun h => by cases h) ?_
          rintro ⟨_, _, h, _⟩
          cases h
        | some next => simp only [hmap, ih, Option.some.injEq, exists_eq_left']
    | _ => exact iff_of_false (fun h => by cases h) (fun h => by cases h.2)

/-- With distinct keys, the entry found at a key is the only one. -/
theorem eraseIdx_eq_filter {key : String} {es : List (String × Json)} {i : ℕ}
    (hkeys : (es.map Prod.fst).Nodup) (hi : es.findIdx? (·.1 = key) = some i) :
    es.eraseIdx i = es.filter (·.1 ≠ key) := by
  induction es generalizing i with
  | nil => cases hi
  | cons e es ih =>
    obtain ⟨hnotin, hkeys⟩ := List.nodup_cons.1 hkeys
    rw [List.findIdx?_cons] at hi
    split_ifs at hi with he
    · cases hi
      rw [decide_eq_true_eq] at he
      rw [List.filter_cons_of_neg (by simpa using he), List.eraseIdx_cons_zero,
        List.filter_eq_self.2]
      intro f hf
      rw [decide_eq_true_eq]
      rintro rfl
      exact hnotin (he ▸ List.mem_map_of_mem hf)
    · obtain ⟨j, hj, rfl⟩ := Option.map_eq_some_iff.1 hi
      rw [List.filter_cons_of_pos (by simpa using he), List.eraseIdx_cons_succ, ih hkeys hj]

/-- Removing a key leaves the other entries, up to order. -/
theorem swapRemove_perm_filter {key : String} {es : List (String × Json)}
    (hkeys : (es.map Prod.fst).Nodup) : (swapRemove key es).Perm (es.filter (·.1 ≠ key)) := by
  cases hi : es.findIdx? (·.1 = key) with
  | some i => rw [← eraseIdx_eq_filter hkeys hi]; exact swapRemove_perm hi
  | none =>
    rw [swapRemove_of_not_mem hi, List.filter_eq_self.2]
    intro e he
    simpa using List.findIdx?_eq_none_iff.1 hi e he

/-- With distinct keys, sorting commutes with dropping entries. -/
theorem filter_insertionSort {p : String × Json → Bool} {es : List (String × Json)}
    (hkeys : (es.map Prod.fst).Nodup) :
    (es.insertionSort EntryLe).filter p = (es.filter p).insertionSort EntryLe := by
  have hperm := (List.perm_insertionSort EntryLe es).filter p
  have hsorted := (List.pairwise_insertionSort EntryLe es).sublist
    (List.filter_sublist (p := p))
  rw [← hsorted.insertionSort_eq]
  refine insertionSort_eq_of_perm hperm ?_
  rw [(hperm.map Prod.fst).nodup_iff]
  exact hkeys.sublist (List.filter_sublist.map Prod.fst)

theorem sortJsonValue_filter {es : List (String × Json)} {p : String → Bool}
    (hkeys : (es.map Prod.fst).Nodup) :
    sortJsonValue (.object (es.filter (p ·.1))) =
      .object (((es.map fun e => (e.1, sortJsonValue e.2)).insertionSort EntryLe).filter
        (p ·.1)) := by
  rw [sortJsonValue_object, filter_insertionSort (by rw [List.map_map]; exact hkeys),
    List.filter_map]
  rfl

/-- Equal up to the order of their entries, values are sorted alike. -/
theorem sortJsonValue_of_perm {es fs : List (String × Json)} (hkeys : (es.map Prod.fst).Nodup)
    (h : es.Perm fs) : sortJsonValue (.object es) = sortJsonValue (.object fs) := by
  rw [sortJsonValue_object, sortJsonValue_object]
  exact congrArg Json.object
    (insertionSort_eq_of_perm (h.map _) (by rw [List.map_map]; exact hkeys))

/-- Writing under a key and sorting is sorting and writing under the key. -/
theorem sortJsonValue_setEntry {key : String} {v u : Json} {f : Json → Json}
    {es : List (String × Json)} (hkeys : (es.map Prod.fst).Nodup)
    (hv : Json.lookup key es = some v) (hu : sortJsonValue u = f (sortJsonValue v)) :
    sortJsonValue (.object (setEntry key u es)) =
      .object (((es.map fun e => (e.1, sortJsonValue e.2)).insertionSort EntryLe).map
        fun e => if e.1 = key then (e.1, f e.2) else e) := by
  have hfst : ∀ e : String × Json, (if e.1 = key then (e.1, f e.2) else e).1 = e.1 := by
    intro e
    split_ifs <;> rfl
  rw [sortJsonValue_object, List.map_insertionSort EntryLe EntryLe _ _
    (fun a _ b _ => by rw [EntryLe, EntryLe, hfst, hfst]), setEntry, List.map_map, List.map_map]
  congr 2
  refine List.map_congr_left fun e he => ?_
  simp only [Function.comp_apply]
  split_ifs with hkey
  -- the entry that was looked up is the only one under its key
  · have hvalue : e.2 = v := by
      have hsome := (lookup_eq_some_iff hkeys).2 (hkey ▸ he : (key, e.2) ∈ es)
      exact Option.some.inj (hsome.symm.trans hv)
    rw [hu, hvalue, hkey]
  · rfl

/-- Writing under a key that is not there does nothing. -/
theorem sortJsonValue_absent {key : String} {f : Json → Json} {es : List (String × Json)}
    (hnone : Json.lookup key es = none) :
    sortJsonValue (.object es) =
      .object (((es.map fun e => (e.1, sortJsonValue e.2)).insertionSort EntryLe).map
        fun e => if e.1 = key then (e.1, f e.2) else e) := by
  have hkey : ∀ e ∈ (es.map fun e => (e.1, sortJsonValue e.2)).insertionSort EntryLe,
      (if e.1 = key then (e.1, f e.2) else e) = e := by
    intro e he
    obtain ⟨entry, hentry, rfl⟩ := List.mem_map.1 ((List.mem_insertionSort _).1 he)
    refine if_neg fun heq => Json.lookup_eq_none_iff.1 hnone ?_
    exact List.mem_map.2 ⟨entry, hentry, heq⟩
  rw [sortJsonValue_object, List.map_congr_left hkey, List.map_id']

theorem set_eq_modify {α : Type*} {l : List α} {i : ℕ} {a : α} {f : α → α} (h : l[i]? = some a) :
    l.set i (f a) = l.modify i f := by
  refine List.ext_getElem? fun j => ?_
  rw [List.getElem?_modify, List.getElem?_set]
  by_cases hij : i = j
  · subst hij
    obtain ⟨hlt, rfl⟩ := List.getElem?_eq_some_iff.1 h
    simp [hlt]
  · simp [hij]

/-- Up to the order of keys, a removal erases the node that it addresses. -/
theorem sort_removePointer {pointerPath : String} {tokens : List PointerToken} :
    ∀ {v w : Json}, v.Wf → removePointer pointerPath tokens v = .ok w →
      sortJsonValue w = eraseAt tokens (sortJsonValue v) := by
  induction tokens with
  | nil =>
    intro v w _ h
    cases h
    rfl
  | cons head tail ih =>
    intro v w hv h
    cases v with
    | object es =>
      obtain ⟨hkeys, hes⟩ := Json.wf_object.1 hv
      rw [removePointer] at h
      rw [sortJsonValue_object, eraseAt]
      split_ifs at h ⊢ with htail
      · cases h
        have hperm : (swapRemove head es).Perm (es.filter (·.1 ≠ head)) :=
          swapRemove_perm_filter hkeys
        rw [sortJsonValue_of_perm (Json.wf_object.1 (swapRemove_wf hv)).1 hperm]
        exact sortJsonValue_filter (p := fun k => decide (k ≠ head)) hkeys
      cases hl : Json.lookup head es with
      | none =>
        rw [hl] at h
        cases h
        exact sortJsonValue_absent hl
      | some next =>
        rw [hl] at h
        obtain ⟨u, hu, rfl⟩ := exists_of_map_eq_ok h
        exact sortJsonValue_setEntry hkeys hl (ih (hes _ (Json.mem_of_lookup hl)) hu)
    | array items =>
      have hitems := Json.wf_array.1 hv
      rw [removePointer] at h
      rw [sortJsonValue_array, eraseAt]
      cases hindex : parseArrayIndexToken head with
      | none => rw [hindex] at h; cases h
      | some i =>
        rw [hindex] at h
        simp only at h ⊢
        split_ifs at h ⊢ with htail
        · cases h
          rw [sortJsonValue_array, List.eraseIdx_map]
        cases hget : items[i]? with
        | none =>
          rw [hget] at h
          cases h
          rw [sortJsonValue_array, List.modify_eq_self]
          rw [List.length_map]
          exact List.getElem?_eq_none_iff.1 hget
        | some next =>
          rw [hget] at h
          obtain ⟨u, hu, rfl⟩ := exists_of_map_eq_ok h
          have hu := ih (hitems _ (List.mem_of_getElem? hget)) hu
          have hget' : (items.map sortJsonValue)[i]? = some (sortJsonValue next) := by
            rw [List.getElem?_map, hget]
            rfl
          rw [sortJsonValue_array, List.map_set, hu, set_eq_modify hget']
    | _ => cases h; rfl

/-! ### What pruning looks at -/

theorem pruneEntries_eq (gone : List PointerToken → Bool) (es : List (String × Json)) :
    pruneEntries gone es = (es.filter fun e => !gone [e.1]).map fun e =>
      (e.1, prune (fun place => gone (e.1 :: place)) e.2) := by
  induction es with
  | nil => rfl
  | cons e es ih =>
    obtain ⟨key, v⟩ := e
    rw [pruneEntries, ih]
    cases h : gone [key] <;> simp [h]

/-- Items that are pruned alike one by one are pruned alike. -/
theorem pruneItems_congr_item {gone gone' : List PointerToken → Bool} {xs : List Json} :
    ∀ {i : ℕ}, (∀ j x, xs[j]? = some x → gone [(i + j).repr] = gone' [(i + j).repr] ∧
      prune (fun place => gone ((i + j).repr :: place)) x =
        prune (fun place => gone' ((i + j).repr :: place)) x) →
      pruneItems gone i xs = pruneItems gone' i xs := by
  induction xs with
  | nil => intro i _; rfl
  | cons x xs ih =>
    intro i h
    obtain ⟨hitem, hx⟩ := h 0 x rfl
    rw [Nat.add_zero] at hitem hx
    rw [pruneItems, pruneItems, hitem, hx, ih fun j y hy => ?_]
    rw [Nat.add_assoc, Nat.add_comm 1 j]
    exact h (j + 1) y hy

/-- Only places that start with an index of the items matter. -/
theorem pruneItems_congr {gone gone' : List PointerToken → Bool} {xs : List Json} {i : ℕ}
    (h : ∀ j, i ≤ j → ∀ place, gone (Nat.repr j :: place) = gone' (Nat.repr j :: place)) :
    pruneItems gone i xs = pruneItems gone' i xs :=
  pruneItems_congr_item fun j _ _ =>
    ⟨h _ (Nat.le_add_right i j) [], by rw [funext (h _ (Nat.le_add_right i j))]⟩

/-- Only places below the root matter. -/
theorem prune_congr {gone gone' : List PointerToken → Bool} {v : Json}
    (h : ∀ token place, gone (token :: place) = gone' (token :: place)) :
    prune gone v = prune gone' v := by
  cases v with
  | array items => rw [prune, prune, pruneItems_congr fun j _ => h _]
  | object es =>
    have hentry : ∀ token,
        (fun place => gone (token :: place)) = fun place => gone' (token :: place) :=
      fun token => funext (h token)
    simp only [prune, pruneEntries_eq, h]
  | _ => rfl

theorem pruneItems_false (xs : List Json) :
    ∀ i, pruneItems (fun _ => false) i xs = xs.map (prune fun _ => false) := by
  induction xs with
  | nil => intro i; rfl
  | cons x xs ih =>
    intro i
    rw [pruneItems, if_neg Bool.false_ne_true, ih, List.map_cons]

/-- Where nothing is gone, nothing changes. -/
theorem prune_false (v : Json) : prune (fun _ => false) v = v := by
  induction v using Json.induct with
  | null | bool b | number n | string s => rfl
  | array xs ih =>
    rw [prune, pruneItems_false, List.map_congr_left ih, List.map_id']
  | object es ih =>
    have hall : (es.filter fun _ => !false) = es := List.filter_eq_self.2 fun _ _ => rfl
    rw [prune, pruneEntries_eq, hall]
    congr 1
    refine (List.map_congr_left fun e he => ?_).trans (List.map_id es)
    rw [ih e he]
    rfl

/-- Items behind the last index that is gone stay. -/
theorem pruneItems_of_none {gone : List PointerToken → Bool} {xs : List Json} {i : ℕ}
    (h : ∀ j, i ≤ j → ∀ place, gone (Nat.repr j :: place) = false) : pruneItems gone i xs = xs := by
  have hfalse : pruneItems gone i xs = pruneItems (fun _ => false) i xs := pruneItems_congr h
  rw [hfalse, pruneItems_false, List.map_congr_left fun x _ => prune_false x, List.map_id']

/-- Pruning and sorting commute. -/
theorem sortJsonValue_prune {v : Json} (hv : v.Wf) :
    ∀ gone : List PointerToken → Bool,
      sortJsonValue (prune gone v) = prune gone (sortJsonValue v) := by
  induction v using Json.induct with
  | null | bool b | number n | string s => intro gone; rfl
  | array xs ih =>
    have hwf := Json.wf_array.1 hv
    have hitems : ∀ ys : List Json, (∀ y ∈ ys, y ∈ xs) → ∀ (gone : List PointerToken → Bool) i,
        (pruneItems gone i ys).map sortJsonValue = pruneItems gone i (ys.map sortJsonValue) := by
      intro ys hys gone i
      induction ys generalizing i with
      | nil => rfl
      | cons y ys ihys =>
        have hy := hys y List.mem_cons_self
        rw [List.map_cons, pruneItems, pruneItems,
          ← ihys fun z hz => hys z (List.mem_cons_of_mem _ hz)]
        split_ifs
        · rfl
        · rw [List.map_cons, ih y hy (hwf y hy)]
    intro gone
    rw [prune, sortJsonValue_array, sortJsonValue_array, prune, hitems xs fun _ => id]
  | object es ih =>
    obtain ⟨hkeys, hwf⟩ := Json.wf_object.1 hv
    intro gone
    have hsorted : ((es.map fun e => (e.1, sortJsonValue e.2)).map Prod.fst).Nodup := by
      rw [List.map_map]
      exact hkeys
    rw [prune, sortJsonValue_object, sortJsonValue_object, prune, pruneEntries_eq, pruneEntries_eq,
      filter_insertionSort hsorted, List.map_insertionSort EntryLe EntryLe
        (fun e => (e.1, prune (fun place => gone (e.1 :: place)) e.2)) _ fun _ _ _ _ => Iff.rfl,
      List.filter_map, List.map_map, List.map_map]
    congr 2
    refine List.map_congr_left fun e he => ?_
    have he := List.mem_of_mem_filter he
    exact congrArg (Prod.mk e.1) (ih e he (hwf e he) _)

/-! ### One removal among several -/

theorem Precedes.tail {t : PointerToken} {a b : List PointerToken}
    (h : Precedes (t :: a) (t :: b)) : Precedes a b := by
  have hcons : ∀ {s : List PointerToken} {i}, arrayEntryIndex s = some i →
      arrayEntryIndex (t :: s) = some i ∧ (t :: s).dropLast = t :: s.dropLast := by
    intro s i hi
    have hs := eq_append_of_arrayEntryIndex hi
    have hne : s ≠ [] := by
      rw [hs]
      simp
    rw [arrayEntryIndex, List.getLast?_cons_of_ne_nil hne, List.dropLast_cons_of_ne_nil hne]
    exact ⟨hi, rfl⟩
  have hlen := h.length_le
  rw [List.length_cons, List.length_cons] at hlen
  refine ⟨⟨fun hab => h.ne (congrArg _ hab), fun hparent i j hi hj => ?_⟩, by omega⟩
  refine h.index_lt ?_ i j (hcons hi).1 (hcons hj).1
  rw [(hcons hi).2, (hcons hj).2, hparent]

theorem lookup_map_entry {key t : String} {f : Json → Json} (es : List (String × Json)) :
    Json.lookup key (es.map fun e => if e.1 = t then (e.1, f e.2) else e) =
      if key = t then (Json.lookup key es).map f else Json.lookup key es := by
  induction es with
  | nil => simp [Json.lookup]
  | cons e es ih =>
    obtain ⟨k, v⟩ := e
    rw [List.map_cons]
    by_cases hk : k = key
    · subst hk
      by_cases hkt : k = t <;> simp [Json.lookup, hkt]
    · by_cases hkt : k = t
      · subst hkt
        simpa [Json.lookup, hk, Ne.symm hk] using ih
      · simpa [Json.lookup, hkt, hk] using ih

theorem misaddressed_singleton {u : PointerToken} {items : List Json} :
    Misaddressed [u] (.array items) ↔ parseArrayIndexToken u = none := by
  rw [misaddressed_array, or_iff_left_iff_imp]
  rintro ⟨_, _, _, _, h⟩
  exact absurd h not_misaddressed_nil

/-- Erasing a node does not change where the walk to a shallower or different node leads. -/
theorem misaddressed_eraseAt {r : List PointerToken} :
    ∀ {s : List PointerToken} {v : Json}, Precedes r s →
      (Misaddressed s (eraseAt r v) ↔ Misaddressed s v) := by
  induction r with
  | nil => intro s v _; rfl
  | cons t ts ih =>
    intro s v h
    cases s with
    | nil => exact iff_of_false not_misaddressed_nil not_misaddressed_nil
    | cons u us =>
      by_cases htail : ts = []
      -- the walk ends at its first step, which only looks at the kind of value
      · have hlen := h.length_le
        rw [htail, List.length_cons, List.length_singleton] at hlen
        obtain rfl : us = [] := List.eq_nil_of_length_eq_zero (by omega)
        cases v with
        | object es =>
          rw [eraseAt, misaddressed_object, misaddressed_object]
          exact iff_of_false (fun ⟨_, _, h⟩ => not_misaddressed_nil h)
            (fun ⟨_, _, h⟩ => not_misaddressed_nil h)
        | array items =>
          rw [eraseAt]
          cases parseArrayIndexToken t with
          | none => rfl
          | some i => rw [misaddressed_singleton, misaddressed_singleton]
        | _ => rfl
      · cases v with
        | object es =>
          rw [eraseAt, if_neg htail, misaddressed_object, misaddressed_object, lookup_map_entry]
          by_cases hut : u = t
          · subst hut
            simp [ih h.tail]
          · simp [hut]
        | array items =>
          rw [eraseAt]
          cases ht : parseArrayIndexToken t with
          | none => rfl
          | some i =>
            simp only [if_neg htail, misaddressed_array, List.getElem?_modify]
            refine or_congr_right (exists_congr fun j => ?_)
            by_cases hij : i = j
            · subst hij
              by_cases hu : parseArrayIndexToken u = some i
              · have hut : u = t := (eq_repr_of_parseArrayIndexToken hu).1.trans
                  (eq_repr_of_parseArrayIndexToken ht).1.symm
                subst hut
                simp [ih h.tail]
              · simp [hu]
            · simp [hij]
        | _ => rfl

/-- Erasing an item that nothing at or behind it is gone with. -/
theorem pruneItems_eraseIdx {gone gone' : List PointerToken → Bool} {xs : List Json} :
    ∀ {k i : ℕ}, (∀ j < k + i, ∀ place, gone (Nat.repr j :: place) = gone' (Nat.repr j :: place)) →
      (∀ j, k + i ≤ j → ∀ place, gone (Nat.repr j :: place) = false) →
      (∀ j, k + i < j → ∀ place, gone' (Nat.repr j :: place) = false) →
      gone' [(k + i).repr] = true →
      pruneItems gone k (xs.eraseIdx i) = pruneItems gone' k xs := by
  induction xs with
  | nil => intro k i _ _ _ _; rfl
  | cons x xs ih =>
    intro k i hbefore hgone hbehind hitem
    cases i with
    | zero =>
      rw [List.eraseIdx_cons_zero, pruneItems, if_pos (by simpa using hitem),
        pruneItems_of_none fun j hj => hgone j (by omega),
        pruneItems_of_none fun j hj => hbehind j (by omega)]
    | succ i =>
      have hk := hbefore k (by omega)
      have hnext : k + 1 + i = k + (i + 1) := by omega
      rw [List.eraseIdx_cons_succ, pruneItems, pruneItems, hk, funext hk,
        ih (hnext ▸ hbefore) (hnext ▸ hgone) (hnext ▸ hbehind) (hnext ▸ hitem)]

/-- Changing an item to what pruning makes the same of. -/
theorem pruneItems_modify {gone gone' : List PointerToken → Bool} {f : Json → Json}
    {xs : List Json} :
    ∀ {k i : ℕ}, (∀ j ≠ k + i, ∀ place, gone (Nat.repr j :: place) = gone' (Nat.repr j :: place)) →
      gone [(k + i).repr] = gone' [(k + i).repr] →
      (∀ x, xs[i]? = some x → prune (fun place => gone ((k + i).repr :: place)) (f x) =
        prune (fun place => gone' ((k + i).repr :: place)) x) →
      pruneItems gone k (xs.modify i f) = pruneItems gone' k xs := by
  induction xs with
  | nil => intro k i _ _ _; rw [List.modify_nil]; rfl
  | cons x xs ih =>
    intro k i hother hitem hx
    cases i with
    | zero =>
      have hx := hx x rfl
      rw [Nat.add_zero] at hitem hx
      rw [List.modify_zero_cons, pruneItems, pruneItems, hitem, hx,
        pruneItems_congr fun j hj => hother j (by omega)]
    | succ i =>
      have hk := hother k (by omega)
      have hnext : k + 1 + i = k + (i + 1) := by omega
      rw [List.modify_succ_cons, pruneItems, pruneItems, hk, funext hk,
        ih (hnext ▸ hother) (hnext ▸ hitem) (hnext ▸ fun y hy => hx y hy)]

/-- Erasing the entries of a key. -/
theorem pruneEntries_filter {gone gone' : List PointerToken → Bool} {t : PointerToken}
    {es : List (String × Json)} (ht : gone' [t] = true)
    (hother : ∀ u ≠ t, ∀ place, gone (u :: place) = gone' (u :: place)) :
    pruneEntries gone (es.filter (·.1 ≠ t)) = pruneEntries gone' es := by
  induction es with
  | nil => rfl
  | cons e es ih =>
    obtain ⟨key, v⟩ := e
    by_cases hkey : key = t
    · rw [List.filter_cons_of_neg (by simpa using hkey), pruneEntries, hkey, if_pos ht, ih]
    · rw [List.filter_cons_of_pos (by simpa using hkey), pruneEntries, pruneEntries, ih,
        hother key hkey, funext (hother key hkey)]

/-- Changing the entries of a key to what pruning makes the same of. -/
theorem pruneEntries_map {gone gone' : List PointerToken → Bool} {t : PointerToken}
    {f : Json → Json} {es : List (String × Json)} (ht : gone [t] = gone' [t])
    (hother : ∀ u ≠ t, ∀ place, gone (u :: place) = gone' (u :: place))
    (hes : ∀ v, (t, v) ∈ es → prune (fun place => gone (t :: place)) (f v) =
      prune (fun place => gone' (t :: place)) v) :
    pruneEntries gone (es.map fun e => if e.1 = t then (e.1, f e.2) else e) =
      pruneEntries gone' es := by
  induction es with
  | nil => rfl
  | cons e es ih =>
    obtain ⟨key, v⟩ := e
    have ih := ih fun w hw => hes w (List.mem_cons_of_mem _ hw)
    rw [List.map_cons]
    split_ifs with hkey
    · obtain rfl : key = t := hkey
      rw [pruneEntries, pruneEntries, ih, ht, hes v List.mem_cons_self]
    · rw [pruneEntries, pruneEntries, ih, hother key hkey, funext (hother key hkey)]

/-- A path that is removed after an item ends in front of it. -/
theorem not_gone_behind {gone : List PointerToken → Bool} {items : List Json} {i j : ℕ}
    (hi : parseArrayIndexToken i.repr = some i)
    (hgone : ∀ s, gone s = true → Precedes [i.repr] s ∧ ¬ Misaddressed s (.array items))
    (hj : i ≤ j) (place : List PointerToken) : gone (j.repr :: place) = false := by
  by_contra hplace
  rw [Bool.not_eq_false] at hplace
  obtain ⟨hprec, hmis⟩ := hgone _ hplace
  have hlen := hprec.length_le
  rw [List.length_cons, List.length_singleton] at hlen
  obtain rfl : place = [] := List.eq_nil_of_length_eq_zero (by omega)
  rw [misaddressed_singleton] at hmis
  obtain ⟨k, hk⟩ := Option.ne_none_iff_exists'.1 hmis
  obtain rfl := repr_injective (eq_repr_of_parseArrayIndexToken hk).1
  exact absurd (hprec.index_lt rfl i j hi hk) (by omega)

/-- Erasing a node first is counting it among the nodes that are gone, if it comes before them in
the order of removals. -/
theorem prune_eraseAt {r : List PointerToken} :
    ∀ {gone : List PointerToken → Bool} {v : Json}, v.Wf → ¬ Misaddressed r v →
      (∀ s, gone s = true → Precedes r s ∧ ¬ Misaddressed s v) →
      prune gone (eraseAt r v) = prune (fun s => decide (s = r) || gone s) v := by
  induction r with
  | nil =>
    intro gone v _ _ _
    exact prune_congr fun _ _ => by simp
  | cons t ts ih =>
    intro gone v hv hr hgone
    -- below another token nothing changes
    have hother : ∀ u ≠ t, ∀ place,
        gone (u :: place) = (decide (u :: place = t :: ts) || gone (u :: place)) := by
      intro u hu place
      simp [hu]
    have hbelow : (fun place => decide (t :: place = t :: ts) || gone (t :: place)) =
        fun place => decide (place = ts) || gone (t :: place) := by
      funext place
      simp
    cases v with
    | object es =>
      obtain ⟨hkeys, hwf⟩ := Json.wf_object.1 hv
      rw [eraseAt, prune, prune]
      congr 1
      by_cases htail : ts = []
      · rw [if_pos htail]
        exact pruneEntries_filter (by simp [htail]) hother
      · rw [if_neg htail]
        refine pruneEntries_map (by simp [Ne.symm htail]) hother fun v hmem => ?_
        have hlookup := (lookup_eq_some_iff hkeys).2 hmem
        rw [hbelow]
        refine ih (hwf _ hmem) (fun h => hr (.entry hlookup h)) fun s hs => ?_
        exact ⟨(hgone _ hs).1.tail, fun h => (hgone _ hs).2 (.entry hlookup h)⟩
    | array items =>
      have hwf := Json.wf_array.1 hv
      obtain ⟨i, hi⟩ := Option.ne_none_iff_exists'.1 fun h => hr (misaddressed_array.2 (Or.inl h))
      obtain ⟨rfl, -⟩ := parseArrayIndexToken_eq_some_iff.1 hi
      have hindex : ∀ j ≠ i, Nat.repr j ≠ i.repr := fun j hj h => hj (repr_injective h)
      rw [eraseAt, hi]
      simp only [prune]
      congr 1
      by_cases htail : ts = []
      · subst htail
        rw [if_pos rfl]
        have hlater : ∀ j, i ≤ j → ∀ place, gone (Nat.repr j :: place) = false :=
          fun j => not_gone_behind hi hgone
        refine pruneItems_eraseIdx ?_ ?_ ?_ ?_
        · exact fun j hj => hother _ (hindex j (by omega))
        · exact fun j hj => hlater j (by omega)
        · intro j hj place
          rw [← hother _ (hindex j (by omega)), hlater j (by omega)]
        · simp
      · rw [if_neg htail]
        refine pruneItems_modify (fun j hj => hother _ (hindex j (by omega)))
          (by simp [Ne.symm htail]) fun x hx => ?_
        rw [Nat.zero_add, hbelow]
        refine ih (hwf _ (List.mem_of_getElem? hx)) (fun h => hr (.item hx h)) fun s hs => ?_
        exact ⟨(hgone _ hs).1.tail, fun h => (hgone _ hs).2 (.item hx h)⟩
    | _ => rfl

/-! ### All removals -/

/-- The removals, one after another: they fail if one of them is misaddressed in the value that came
in, and otherwise they leave that value without the nodes they address. -/
theorem foldlM_removePointer {removals : List (List PointerToken)} :
    ∀ {v : Json}, v.Wf → removals.Pairwise Precedes →
      (∃ w, removals.foldlM
          (fun v tokens => removePointer (pointerTokensToPath tokens) tokens v) v = .ok w ∧
          (∀ r ∈ removals, ¬ Misaddressed r v) ∧
          sortJsonValue w = prune (fun s => decide (s ∈ removals)) (sortJsonValue v)) ∨
        ∃ r ∈ removals, Misaddressed r v ∧
          removals.foldlM (fun v tokens => removePointer (pointerTokensToPath tokens) tokens v) v =
            .error (.invalidPointerPath (pointerTokensToPath r)) := by
  induction removals with
  | nil =>
    intro v _ _
    refine Or.inl ⟨v, rfl, fun r hr => absurd hr List.not_mem_nil, ?_⟩
    simp [prune_false]
  | cons r removals ih =>
    intro v hv hpairs
    obtain ⟨hr, hpairs⟩ := List.pairwise_cons.1 hpairs
    rw [List.foldlM_cons]
    cases hstep : removePointer (pointerTokensToPath r) r v with
    | error e =>
      obtain ⟨rfl, hmis⟩ := removePointer_eq_error.1 hstep
      exact Or.inr ⟨r, List.mem_cons_self, hmis, rfl⟩
    | ok u =>
      have hmis : ¬ Misaddressed r v := by
        intro h
        rw [removePointer_eq_error.2 ⟨rfl, h⟩] at hstep
        cases hstep
      have hu := removePointer_wf hv hstep
      have hsort := sort_removePointer hv hstep
      -- the walks of the later removals lead where they led before
      have hwalk : ∀ s ∈ removals, (Misaddressed s u ↔ Misaddressed s v) := by
        intro s hs
        rw [← misaddressed_sortJsonValue hu, hsort, misaddressed_eraseAt (hr s hs),
          misaddressed_sortJsonValue hv]
      rcases ih hu hpairs with ⟨w, hw, hall, hprune⟩ | ⟨s, hs, hbad, herr⟩
      · have hall : ∀ s ∈ removals, ¬ Misaddressed s v := fun s hs => by
          rw [← hwalk s hs]
          exact hall s hs
        refine Or.inl ⟨w, hw, List.forall_mem_cons.2 ⟨hmis, hall⟩, ?_⟩
        rw [hprune, hsort, prune_eraseAt (sortJsonValue_wf hv)
          (by rwa [misaddressed_sortJsonValue hv])]
        · exact prune_congr fun _ _ => by simp
        · intro s hs
          rw [decide_eq_true_eq] at hs
          rw [misaddressed_sortJsonValue hv]
          exact ⟨hr s hs, hall s hs⟩
      · exact Or.inr ⟨s, List.mem_cons_of_mem _ hs, (hwalk s hs).1 hbad, herr⟩

theorem parseJsonPointer_isSome {path : String} (h : isValidIgnorePath path = true) :
    (parseJsonPointer path).isSome := by
  unfold isValidIgnorePath isValidJsonPointer at h
  cases hp : parseJsonPointer path with
  | none => simp [hp] at h
  | some tokens => rfl

/-- Some path is misaddressed in a body. -/
def SomeMisaddressed (ignoredBodyPaths : List String) (body : Json) : Prop :=
  ∃ path ∈ ignoredBodyPaths, ∃ tokens,
    parseJsonPointer path = some tokens ∧ Misaddressed tokens body

/-- What `canonicalize_body` returns for paths that parse. -/
theorem canonicalizeBody_cases {body : Json} {ignoredBodyPaths : List String} (hbody : body.Wf)
    (hpaths : ∀ path ∈ ignoredBodyPaths, (parseJsonPointer path).isSome) :
    (¬ SomeMisaddressed ignoredBodyPaths body ∧ canonicalizeBody body ignoredBodyPaths =
        .ok (sortJsonValue (prune (addressed ignoredBodyPaths) body))) ∨
      SomeMisaddressed ignoredBodyPaths body ∧
        ∃ e, canonicalizeBody body ignoredBodyPaths = .error e := by
  obtain ⟨removals, hremovals, hpairs, hmem⟩ := orderedPointerRemovals_spec hpaths
  have hgone : (fun s => decide (s ∈ removals)) = addressed ignoredBodyPaths := by
    funext s
    rw [Bool.eq_iff_iff, decide_eq_true_eq, hmem, addressed, List.any_eq_true]
    simp only [decide_eq_true_eq]
  have hsome : SomeMisaddressed ignoredBodyPaths body ↔ ∃ r ∈ removals, Misaddressed r body := by
    simp only [hmem]
    constructor
    · rintro ⟨path, hpath, tokens, htokens, h⟩
      exact ⟨tokens, ⟨path, hpath, htokens⟩, h⟩
    · rintro ⟨tokens, ⟨path, hpath, htokens⟩, h⟩
      exact ⟨path, hpath, tokens, htokens, h⟩
  unfold canonicalizeBody
  rw [hremovals, hsome]
  simp only [bind, Except.bind]
  rcases foldlM_removePointer hbody hpairs with ⟨w, hw, hall, hprune⟩ | ⟨r, hr, hbad, herr⟩
  · refine Or.inl ⟨fun ⟨r, hr, hbad⟩ => hall r hr hbad, ?_⟩
    rw [hw, sortJsonValue_prune hbody, ← hgone, ← hprune]
    rfl
  · refine Or.inr ⟨⟨r, hr, hbad⟩, .invalidPointerPath (pointerTokensToPath r), ?_⟩
    rw [herr]

theorem validateIgnorePaths_eq_ok {paths : List String} :
    validateIgnorePaths ⟨paths⟩ = .ok () ↔ ∀ path ∈ paths, isValidIgnorePath path = true := by
  unfold validateIgnorePaths
  simp only
  induction paths with
  | nil => simp; rfl
  | cons path paths ih =>
    rw [List.forall_mem_cons, ← ih]
    cases hpath : isValidIgnorePath path with
    | true => simp [List.forM, hpath, bind, Except.bind]
    | false => simp [List.forM, hpath, bind, Except.bind]

/-- **Ignored paths are removed at once.**  For paths that are accepted, the canonical body is the
body with sorted keys and without exactly the nodes that some path addresses in it as it came in; it
does not depend on the order or repetition of the paths; and canonicalizing fails exactly if some
path, walked in the body as it came in, reaches an array with a token that is no index. -/
theorem canonicalizeBody_simultaneous {body : Json} {ignoredBodyPaths : List String}
    (hbody : body.Wf) (hpaths : validateIgnorePaths ⟨ignoredBodyPaths⟩ = .ok ()) :
    (∀ v, canonicalizeBody body ignoredBodyPaths = .ok v →
        v = sortJsonValue (prune (addressed ignoredBodyPaths) body)) ∧
      (∀ others : List String, (∀ path, path ∈ others ↔ path ∈ ignoredBodyPaths) →
        ∀ v, canonicalizeBody body others = .ok v ↔
          canonicalizeBody body ignoredBodyPaths = .ok v) ∧
      ((∃ e, canonicalizeBody body ignoredBodyPaths = .error e) ↔
        ∃ path ∈ ignoredBodyPaths, ∃ tokens,
          parseJsonPointer path = some tokens ∧ Misaddressed tokens body) := by
  have hparse : ∀ path ∈ ignoredBodyPaths, (parseJsonPointer path).isSome := fun path hpath =>
    parseJsonPointer_isSome (validateIgnorePaths_eq_ok.1 hpaths path hpath)
  have hcases := canonicalizeBody_cases hbody hparse
  refine ⟨fun v hv => ?_, fun others hothers v => ?_, ?_⟩
  · rcases hcases with ⟨-, hok⟩ | ⟨-, e, herr⟩
    · exact Except.ok.inj (hv.symm.trans hok)
    · rw [herr] at hv
      cases hv
  · have hsame := canonicalizeBody_cases hbody fun path hpath =>
      hparse path ((hothers path).1 hpath)
    have haddressed : addressed others = addressed ignoredBodyPaths := by
      funext s
      rw [Bool.eq_iff_iff, addressed, addressed, List.any_eq_true, List.any_eq_true]
      simp only [hothers]
    have hbad : SomeMisaddressed others body ↔ SomeMisaddressed ignoredBodyPaths body := by
      simp only [SomeMisaddressed, hothers]
    rw [haddressed, hbad] at hsame
    rcases hcases with ⟨hnone, hok⟩ | ⟨hsome, e, herr⟩
    · rw [(hsame.resolve_right fun h => hnone h.1).2, hok]
    · obtain ⟨-, f, hf⟩ := hsame.resolve_left fun h => h.1 hsome
      rw [hf, herr]
      simp
  · rcases hcases with ⟨hnone, hok⟩ | ⟨hsome, herr⟩
    · exact iff_of_false (fun ⟨e, he⟩ => by rw [hok] at he; cases he) hnone
    · exact iff_of_true herr hsome

/-- Two entries of one array. -/
theorem canonicalizeBody_simultaneous_rows :
    Json.object [("rows", .array [.bool true])] =
      sortJsonValue (prune (addressed ["/rows/0", "/rows/2", "/rows/0"])
        (.object [("rows", .array [.null, .bool true, .null])])) :=
  (canonicalizeBody_simultaneous (by decide) (by decide +kernel)).1 _ (by decide +kernel)

end Canonical

end SpycatcherHarness
