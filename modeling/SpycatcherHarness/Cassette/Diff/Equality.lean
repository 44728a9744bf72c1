import SpycatcherHarness.Cassette.Diff

/-!
# When values are equal

`==` on JSON values looks entries up by key and takes the two zeros for one.  Two values are equal
exactly if they have the same normal form, in which keys are sorted and no zero has a sign.

* `Json.valueEq_iff` : equality as equality of normal forms, which makes it an equivalence.
* `Json.valueEq_sort` : sorting the keys does not change what a value is equal to.
-/

namespace SpycatcherHarness

open Canonical

/-! ### Zeros without a sign -/

/-- A float, where zero has no sign. -/
def Float64.unsigned (x : Float64) : Float64 :=
  { x with negative := x.negative && x.digits != "0.0" }

theorem Float64.valueEq_iff {x y : Float64} : x.valueEq y = true ↔ x.unsigned = y.unsigned := by
  obtain ⟨xneg, xdigits, hx⟩ := x
  obtain ⟨yneg, ydigits, hy⟩ := y
  simp only [Float64.valueEq, Float64.unsigned, Float64.mk.injEq, Bool.and_eq_true, beq_iff_eq]
  rw [and_comm]
  refine and_congr_left fun heq => ?_
  subst heq
  by_cases h0 : xdigits = "0.0"
  · simp [h0]
  · simp [h0, bne_iff_ne.2 h0]

/-- A number, where zero has no sign. -/
def Number.unsigned : Number → Number
  | .float x => .float x.unsigned
  | n => n

theorem Number.valueEq_iff (m n : Number) : m.valueEq n = true ↔ m.unsigned = n.unsigned := by
  cases m <;> cases n <;> simp [Number.valueEq, Number.unsigned, Float64.valueEq_iff]

namespace Json

mutual

/-- A value, where zeros have no sign. -/
def unsigned : Json → Json
  | number n => number n.unsigned
  | array xs => array (unsignedItems xs)
  | object es => object (unsignedEntries es)
  | v => v

def unsignedItems : List Json → List Json
  | [] => []
  | x :: xs => unsigned x :: unsignedItems xs

def unsignedEntries : List (String × Json) → List (String × Json)
  | [] => []
  | (key, v) :: es => (key, unsigned v) :: unsignedEntries es

end

theorem unsigned_array (xs : List Json) : unsigned (array xs) = array (xs.map unsigned) := by
  have h : ∀ ys : List Json, unsignedItems ys = ys.map unsigned := by
    intro ys
    induction ys with
    | nil => rfl
    | cons y ys ih => rw [unsignedItems, ih, List.map_cons]
  rw [unsigned, h]

theorem unsigned_object (es : List (String × Json)) :
    unsigned (object es) = object (es.map fun e => (e.1, unsigned e.2)) := by
  have h : ∀ fs : List (String × Json),
      unsignedEntries fs = fs.map fun e => (e.1, unsigned e.2) := by
    intro fs
    induction fs with
    | nil => rfl
    | cons f fs ih => rw [unsignedEntries, ih, List.map_cons]
  rw [unsigned, h]

/-- The normal form: keys are sorted, and no zero has a sign. -/
def normal (v : Json) : Json := sortJsonValue v.unsigned

theorem normal_array (xs : List Json) : normal (array xs) = array (xs.map normal) := by
  rw [normal, unsigned_array, sortJsonValue_array, List.map_map]
  rfl

theorem normal_object (es : List (String × Json)) : normal (object es) =
    object ((es.map fun e => (e.1, normal e.2)).insertionSort EntryLe) := by
  rw [normal, unsigned_object, sortJsonValue_object, List.map_map]
  rfl

theorem map_fst_normal (es : List (String × Json)) :
    (es.map fun e => (e.1, normal e.2)).map Prod.fst = es.map Prod.fst := by
  rw [List.map_map]
  rfl

/-! ### Equality -/

theorem valueEqEntries_iff {es fs : List (String × Json)} : valueEqEntries es fs = true ↔
    ∀ e ∈ es, ∃ w, lookup e.1 fs = some w ∧ e.2.valueEq w = true := by
  induction es with
  | nil => simp [valueEqEntries]
  | cons e es ih =>
    obtain ⟨key, v⟩ := e
    rw [valueEqEntries, Bool.and_eq_true, ih, List.forall_mem_cons]
    refine and_congr_left fun _ => ?_
    cases lookup key fs <;> simp

theorem sorted_eq_iff {es fs : List (String × Json)} (hes : (es.map Prod.fst).Nodup) :
    es.insertionSort EntryLe = fs.insertionSort EntryLe ↔ es.Perm fs := by
  constructor
  · intro h
    exact (List.perm_insertionSort EntryLe es).symm.trans
      (h ▸ List.perm_insertionSort EntryLe fs)
  · exact fun h => insertionSort_eq_of_perm h hes

/-- **Equal values are those with the same normal form.** -/
theorem valueEq_iff {v : Json} (hv : v.Wf) :
    ∀ {w : Json}, w.Wf → (v.valueEq w = true ↔ v.normal = w.normal) := by
  induction v using Json.induct with
  | null | bool b | string s =>
    intro w _
    cases w <;> simp [valueEq, normal, unsigned, sortJsonValue]
  | number m =>
    intro w _
    cases w <;> simp [valueEq, normal, unsigned, sortJsonValue, Number.valueEq_iff]
  | array xs ih =>
    have hxs := wf_array.1 hv
    have hitems : ∀ ys : List Json, (∀ y ∈ ys, y.Wf) →
        (valueEqItems xs ys = true ↔ xs.map normal = ys.map normal) := by
      clear hv
      induction xs with
      | nil => intro ys _; cases ys <;> simp [valueEqItems]
      | cons x xs ihxs =>
        intro ys hys
        cases ys with
        | nil => simp [valueEqItems]
        | cons y ys =>
          rw [List.forall_mem_cons] at hys hxs
          rw [valueEqItems, Bool.and_eq_true, ih x List.mem_cons_self hxs.1 hys.1,
            ihxs (fun z hz => ih z (List.mem_cons_of_mem _ hz)) hxs.2 ys hys.2, List.map_cons,
            List.map_cons, List.cons.injEq]
    intro w hw
    cases w with
    | array ys => rw [valueEq, hitems ys (wf_array.1 hw), normal_array, normal_array, array.injEq]
    | _ => simp [valueEq, normal, unsigned, sortJsonValue]
  | object es ih =>
    obtain ⟨hkeys, hes⟩ := wf_object.1 hv
    intro w hw
    cases w with
    | object fs =>
      obtain ⟨hkeys', hfs⟩ := wf_object.1 hw
      have hnodup : ((es.map fun e => (e.1, normal e.2)).map Prod.fst).Nodup := by
        rwa [map_fst_normal]
      rw [valueEq, Bool.and_eq_true, beq_iff_eq, valueEqEntries_iff, normal_object, normal_object,
        object.injEq, sorted_eq_iff hnodup]
      constructor
      -- distinct keys that all have their equals, as many as there are
      · rintro ⟨hlen, hall⟩
        refine (List.subperm_of_subset (List.Nodup.of_map _ hnodup) ?_).perm_of_length_le
          (by simp [hlen])
        intro f hf
        obtain ⟨e, he, rfl⟩ := List.mem_map.1 hf
        obtain ⟨w, hw, heq⟩ := hall e he
        have hmem := mem_of_lookup hw
        rw [(ih e he (hes e he) (hfs _ hmem)).1 heq]
        exact List.mem_map.2 ⟨_, hmem, rfl⟩
      · intro hperm
        refine ⟨by simpa using hperm.length_eq, fun e he => ?_⟩
        obtain ⟨f, hf, heq⟩ := List.mem_map.1
          (hperm.subset (List.mem_map_of_mem (f := fun e => (e.1, normal e.2)) he))
        obtain ⟨hkey, hvalue⟩ := Prod.mk.inj heq
        exact ⟨f.2, (lookup_eq_some_iff hkeys').2 (hkey ▸ hf),
          (ih e he (hes e he) (hfs f hf)).2 hvalue.symm⟩
    | _ => simp [valueEq, normal, unsigned, sortJsonValue]

theorem valueEq_comm {v w : Json} (hv : v.Wf) (hw : w.Wf) : v.valueEq w = w.valueEq v := by
  rw [Bool.eq_iff_iff, valueEq_iff hv hw, valueEq_iff hw hv]
  exact eq_comm

/-- Arrays are equal exactly if they have equal items at every index. -/
theorem valueEq_array_iff {xs ys : List Json} (hxs : (array xs).Wf) (hys : (array ys).Wf) :
    (array xs).valueEq (array ys) = true ↔ ∀ i : ℕ, xs[i]?.map normal = ys[i]?.map normal := by
  rw [valueEq_iff hxs hys, normal_array, normal_array, array.injEq]
  constructor
  · intro h i
    rw [← List.getElem?_map, ← List.getElem?_map, h]
  · intro h
    refine List.ext_getElem? fun i => ?_
    rw [List.getElem?_map, List.getElem?_map, h i]

/-- Objects are equal exactly if they find each other's entries, equal, under the same keys. -/
theorem valueEq_object_iff {es fs : List (String × Json)} (hes : (object es).Wf)
    (hfs : (object fs).Wf) : (object es).valueEq (object fs) = true ↔
      (∀ name v, lookup name es = some v → ∃ w, lookup name fs = some w ∧ v.valueEq w = true) ∧
        ∀ name, lookup name es = none → lookup name fs = none := by
  have hkeys := (wf_object.1 hes).1
  have hkeys' := (wf_object.1 hfs).1
  have hentries : ∀ {es fs : List (String × Json)}, (object es).valueEq (object fs) = true →
      ∀ {name v}, lookup name es = some v → ∃ w, lookup name fs = some w ∧ v.valueEq w = true := by
    intro es fs heq name v hlookup
    rw [valueEq, Bool.and_eq_true, valueEqEntries_iff] at heq
    exact heq.2 _ (mem_of_lookup hlookup)
  constructor
  · intro heq
    refine ⟨fun name v => hentries heq, fun name hnone => ?_⟩
    rw [valueEq_comm hes hfs] at heq
    cases hsome : lookup name fs with
    | none => rfl
    | some w =>
      obtain ⟨v, hv, -⟩ := hentries heq hsome
      rw [hnone] at hv
      cases hv
  · rintro ⟨hfound, hmissing⟩
    have hall : ∀ e ∈ es, ∃ w, lookup e.1 fs = some w ∧ e.2.valueEq w = true :=
      fun e he => hfound e.1 e.2 ((lookup_eq_some_iff hkeys).2 he)
    -- both sides have the same keys, so they have as many of them
    have hsame : ∀ name, name ∈ es.map Prod.fst ↔ name ∈ fs.map Prod.fst := by
      intro name
      constructor
      · intro hname
        obtain ⟨e, he, rfl⟩ := List.mem_map.1 hname
        obtain ⟨w, hw, -⟩ := hall e he
        exact List.mem_map.2 ⟨(e.1, w), mem_of_lookup hw, rfl⟩
      · intro hname
        by_contra habsent
        exact lookup_eq_none_iff.1 (hmissing name (lookup_eq_none_iff.2 habsent)) hname
    have hlen := ((List.perm_ext_iff_of_nodup hkeys hkeys').2 hsame).length_eq
    rw [List.length_map, List.length_map] at hlen
    rw [valueEq, hlen, valueEqEntries_iff.2 hall, beq_self_eq_true]
    rfl

/-! ### Sorted values -/

/-- A sorted value is left as it is. -/
theorem sortJsonValue_sortJsonValue (v : Json) :
    sortJsonValue (sortJsonValue v) = sortJsonValue v := by
  induction v using Json.induct with
  | null | bool b | number n | string s => rfl
  | array xs ih =>
    rw [sortJsonValue_array, sortJsonValue_array, List.map_map]
    exact congrArg array (List.map_congr_left ih)
  | object es ih =>
    have hmap : ∀ e ∈ (es.map fun e => (e.1, sortJsonValue e.2)).insertionSort EntryLe,
        (e.1, sortJsonValue e.2) = e := by
      intro e he
      obtain ⟨f, hf, rfl⟩ := List.mem_map.1 ((List.mem_insertionSort _).1 he)
      exact congrArg (Prod.mk f.1) (ih f hf)
    rw [sortJsonValue_object, sortJsonValue_object, List.map_congr_left hmap, List.map_id',
      (List.pairwise_insertionSort EntryLe _).insertionSort_eq]

/-- The sign of a zero has nothing to do with the order of keys. -/
theorem unsigned_sortJsonValue (v : Json) :
    (sortJsonValue v).unsigned = sortJsonValue v.unsigned := by
  induction v using Json.induct with
  | null | bool b | number n | string s => rfl
  | array xs ih =>
    rw [sortJsonValue_array, unsigned_array, unsigned_array, sortJsonValue_array, List.map_map,
      List.map_map]
    exact congrArg array (List.map_congr_left ih)
  | object es ih =>
    rw [sortJsonValue_object, unsigned_object, unsigned_object, sortJsonValue_object,
      List.map_insertionSort EntryLe EntryLe (fun e => (e.1, unsigned e.2)) _
        fun _ _ _ _ => Iff.rfl, List.map_map, List.map_map]
    refine congrArg (fun l => object (List.insertionSort EntryLe l))
      (List.map_congr_left fun e he => ?_)
    exact congrArg (Prod.mk e.1) (ih e he)

theorem normal_sortJsonValue (v : Json) : (sortJsonValue v).normal = v.normal := by
  rw [normal, unsigned_sortJsonValue, sortJsonValue_sortJsonValue, normal]

/-- Sorting the keys does not change what a value is equal to. -/
theorem valueEq_sort {v w : Json} (hv : v.Wf) (hw : w.Wf) :
    (sortJsonValue v).valueEq (sortJsonValue w) = v.valueEq w := by
  rw [Bool.eq_iff_iff, valueEq_iff (sortJsonValue_wf hv) (sortJsonValue_wf hw), valueEq_iff hv hw,
    normal_sortJsonValue, normal_sortJsonValue]

end Json

end SpycatcherHarness
