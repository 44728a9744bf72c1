import SpycatcherHarness.Cassette.Diff.Equality

/-!
# The changes behind a summary

The lines of a summary are texts.  `Diff.changes` lists what they are about, as places in the two
values and what happened there, and `Diff.render` writes the line of each.

* `Diff.diffRecursive_eq` : the lines are those of the changes, in order.
* `Diff.mem_changes` : the changes are exactly the places where the values differ.
* `Diff.diffRecursive_sort` : the lines do not depend on the order that keys were inserted in.
* `Diff.changes_sound_complete` : the list of changes is sound and complete.
-/

namespace SpycatcherHarness

open Canonical

namespace Diff

/-- A step into a container. -/
inductive Step where
  | key (name : String)
  | index (i : ℕ)
  deriving DecidableEq

/-- What happened at a place. -/
inductive Kind where
  | removed
  | added (value : Json)
  | changed (expected observed : Json)
  deriving DecidableEq

/-- A difference: where, and what happened there. -/
structure Change where
  place : List Step
  kind : Kind
  deriving DecidableEq

/-- The change, seen from a container around it. -/
def Change.under (step : Step) (change : Change) : Change :=
  { change with place := step :: change.place }

/-! ### Differences -/

/-- Two objects or two arrays, which are compared by what they contain. -/
def sameContainer : Json → Json → Bool
  | .object _, .object _ => true
  | .array _, .array _ => true
  | _, _ => false

/-- The places where two values differ: a key or an index that only one of them has, and unequal
values, found below containers of the same kind, that are not themselves such containers. -/
inductive Differs : Json → Json → List Step → Kind → Prop
  | changed {v w : Json} : v.valueEq w = false → sameContainer v w = false →
      Differs v w [] (.changed v w)
  | removedKey {es fs : List (String × Json)} {name : String} {v : Json} :
      Json.lookup name es = some v → Json.lookup name fs = none →
      Differs (.object es) (.object fs) [.key name] .removed
  | addedKey {es fs : List (String × Json)} {name : String} {w : Json} :
      Json.lookup name es = none → Json.lookup name fs = some w →
      Differs (.object es) (.object fs) [.key name] (.added w)
  | removedItem {xs ys : List Json} {i : ℕ} {v : Json} :
      xs[i]? = some v → ys[i]? = none → Differs (.array xs) (.array ys) [.index i] .removed
  | addedItem {xs ys : List Json} {i : ℕ} {w : Json} :
      xs[i]? = none → ys[i]? = some w → Differs (.array xs) (.array ys) [.index i] (.added w)
  | underKey {es fs : List (String × Json)} {name : String} {v w : Json} {place : List Step}
      {kind : Kind} : Json.lookup name es = some v → Json.lookup name fs = some w →
      Differs v w place kind → Differs (.object es) (.object fs) (.key name :: place) kind
  | underItem {xs ys : List Json} {i : ℕ} {v w : Json} {place : List Step} {kind : Kind} :
      xs[i]? = some v → ys[i]? = some w → Differs v w place kind →
      Differs (.array xs) (.array ys) (.index i :: place) kind

/-! ### The changes -/

/-- Changes of keys on one side only. -/
def keyChanges (expected observed : List (String × Json)) : List Change :=
  ((byKey expected).filterMap fun e =>
      if (Json.lookup e.1 observed).isSome then none else some ⟨[.key e.1], .removed⟩) ++
    (byKey observed).filterMap fun e =>
      if (Json.lookup e.1 expected).isSome then none else some ⟨[.key e.1], .added e.2⟩

/-- Changes below a key, sorted by it. -/
def sortByKey (changes : List (String × List Change)) : List Change :=
  (changes.insertionSort fun a b => a.1 ≤ b.1).flatMap Prod.snd

mutual

/-- The changes between two values. -/
def changes : Json → Json → List Change
  | .object expected, .object observed =>
    keyChanges expected observed ++ sortByKey (sharedChanges expected observed)
  | .array expected, .array observed => itemChanges expected observed 0
  | expected, observed => [⟨[], .changed expected observed⟩]

/-- The changes below each key that both sides have. -/
def sharedChanges : List (String × Json) → List (String × Json) → List (String × List Change)
  | [], _ => []
  | (key, v) :: expected, observed =>
    match Json.lookup key observed with
    | some w =>
      (key, if v.valueEq w then [] else (changes v w).map (Change.under (.key key))) ::
        sharedChanges expected observed
    | none => sharedChanges expected observed

/-- The changes of items, from an index on. -/
def itemChanges : List Json → List Json → ℕ → List Change
  | [], observed, i => (observed.zipIdx i).map fun (w, j) => ⟨[.index j], .added w⟩
  | _ :: expected, [], i => ⟨[.index i], .removed⟩ :: itemChanges expected [] (i + 1)
  | v :: expected, w :: observed, i =>
    (if v.valueEq w then [] else (changes v w).map (Change.under (.index i))) ++
      itemChanges expected observed (i + 1)

end

/-! ### Lines -/

/-- The segment of a step. -/
def Step.segment : Step → String
  | .key name => name
  | .index i => indexSegment i

/-- The path of a place, behind the path of what is around it. -/
def renderPath (pre : String) (place : List Step) : String :=
  place.foldl (fun path step => formatPath path step.segment) pre

/-- The line of a change. -/
def render (pre : String) (change : Change) : String :=
  match change.kind with
  | .removed => removed (renderPath pre change.place)
  | .added value => added (renderPath pre change.place) value
  | .changed expected observed =>
    diffScalarOrTypeMismatch expected observed (renderPath pre change.place)

theorem map_render_under (pre : String) (step : Step) (changes : List Change) :
    (changes.map (Change.under step)).map (render pre) =
      changes.map (render (formatPath pre step.segment)) := by
  rw [List.map_map]
  rfl

theorem diffKeys_eq (expected observed : List (String × Json)) (path : String) :
    diffKeys expected observed path = (keyChanges expected observed).map (render path) := by
  rw [diffKeys, keyChanges, List.map_append, List.map_filterMap, List.map_filterMap]
  congr 2
  all_goals
    funext e
    split_ifs <;> rfl

theorem concatByKey_eq (path : String) (changes : List (String × List Change)) :
    concatByKey (changes.map fun c => (c.1, c.2.map (render path))) =
      (sortByKey changes).map (render path) := by
  rw [concatByKey, sortByKey, List.map_flatMap,
    ← List.map_insertionSort (fun a b : String × List Change => a.1 ≤ b.1)
      (fun a b : String × List String => a.1 ≤ b.1) _ changes fun _ _ _ _ => Iff.rfl,
    List.flatMap_map]

/-- The lines of a summary are those of the changes, in order. -/
theorem diffRecursive_eq (expected : Json) :
    ∀ observed path, diffRecursive expected observed path =
      (changes expected observed).map (render path) := by
  induction expected using Json.induct with
  | null | bool b | number n | string s =>
    intro observed path
    cases observed <;> rfl
  | array xs ih =>
    have hitems : ∀ ys observed path i, (∀ y ∈ ys, y ∈ xs) → diffArrays ys observed path i =
        (itemChanges ys observed i).map (render path) := by
      intro ys
      induction ys with
      | nil =>
        intro observed path i _
        rw [diffArrays, itemChanges, List.map_map]
        rfl
      | cons y ys ihys =>
        intro observed path i hys
        rw [List.forall_mem_cons] at hys
        cases observed with
        | nil => rw [diffArrays, itemChanges, List.map_cons, ihys [] path (i + 1) hys.2]; rfl
        | cons w observed =>
          rw [diffArrays, itemChanges, List.map_append, ihys observed path (i + 1) hys.2,
            ih y hys.1]
          congr 1
          split_ifs
          · rfl
          · rw [map_render_under]
            rfl
    intro observed path
    cases observed with
    | array ys => exact hitems xs ys path 0 fun _ => id
    | _ => rfl
  | object es ih =>
    have hshared : ∀ fs observed path, (∀ f ∈ fs, f ∈ es) → diffShared fs observed path =
        (sharedChanges fs observed).map fun c => (c.1, c.2.map (render path)) := by
      intro fs observed path hfs
      induction fs with
      | nil => rfl
      | cons f fs ihfs =>
        obtain ⟨key, v⟩ := f
        rw [List.forall_mem_cons] at hfs
        rw [diffShared, sharedChanges, ihfs hfs.2]
        cases Json.lookup key observed with
        | none => rfl
        | some w =>
          have hv : ∀ observed path, diffRecursive v observed path =
              (changes v observed).map (render path) := ih (key, v) hfs.1
          simp only [List.map_cons, hv]
          congr 2
          split_ifs
          · rfl
          · rw [map_render_under]
            rfl
    intro observed path
    cases observed with
    | object fs =>
      rw [diffRecursive, changes, List.map_append, diffKeys_eq, hshared es fs path fun _ => id,
        concatByKey_eq]
    | _ => rfl

/-- Every change has a label. -/
theorem labelled_render (pre : String) (change : Change) : Labelled (render pre change) := by
  obtain ⟨place, kind⟩ := change
  cases kind with
  | removed => exact labelled_removed _
  | added value => exact labelled_added _ _
  | changed expected observed => exact labelled_diffScalarOrTypeMismatch _ _ _

/-- A summary is empty only without changes. -/
theorem canonicalDiffSummary_eq_empty_iff {expected observed : Json} :
    canonicalDiffSummary expected observed = "" ↔ changes expected observed = [] := by
  rw [canonicalDiffSummary, diffRecursive_eq]
  cases changes expected observed with
  | nil => simp
  | cons change rest =>
    refine iff_of_false (fun h => ?_) (List.cons_ne_nil _ _)
    obtain ⟨label, hlabel, text, htext⟩ := labelled_render "" change
    have hlen := congrArg String.length h
    have hlabels : ∀ label ∈ ["added: ", "removed: ", "changed: "], 0 < String.length label := by
      decide
    have hpos := hlabels label hlabel
    cases rest with
    | nil =>
      rw [List.map_singleton, String.intercalate_singleton, htext, String.length_append,
        String.length_empty] at hlen
      omega
    | cons next rest =>
      rw [List.map_cons, List.map_cons, String.intercalate_cons_cons, htext, String.length_append,
        String.length_append, String.length_append, String.length_empty] at hlen
      omega

/-! ### Differences and equality -/

theorem mem_byKey {e : String × Json} {es : List (String × Json)} : e ∈ byKey es ↔ e ∈ es :=
  List.mem_insertionSort _

/-- Values that differ somewhere are not equal. -/
theorem valueEq_of_differs {v w : Json} {place : List Step} {kind : Kind}
    (h : Differs v w place kind) (hv : v.Wf) (hw : w.Wf) : v.valueEq w = false := by
  induction h with
  | changed hne _ => exact hne
  | removedKey hsome hnone =>
    by_contra heq
    rw [Bool.not_eq_false, Json.valueEq_object_iff hv hw] at heq
    obtain ⟨w, hlookup, -⟩ := heq.1 _ _ hsome
    rw [hnone] at hlookup
    cases hlookup
  | addedKey hnone hsome =>
    by_contra heq
    rw [Bool.not_eq_false, Json.valueEq_object_iff hv hw] at heq
    rw [heq.2 _ hnone] at hsome
    cases hsome
  | @removedItem xs ys i v hsome hnone =>
    by_contra heq
    rw [Bool.not_eq_false, Json.valueEq_array_iff hv hw] at heq
    have h := heq i
    rw [hsome, hnone] at h
    cases h
  | @addedItem xs ys i v hnone hsome =>
    by_contra heq
    rw [Bool.not_eq_false, Json.valueEq_array_iff hv hw] at heq
    have h := heq i
    rw [hsome, hnone] at h
    cases h
  | underKey hsome hsome' _ ih =>
    by_contra heq
    rw [Bool.not_eq_false, Json.valueEq_object_iff hv hw] at heq
    obtain ⟨w, hlookup, hvw⟩ := heq.1 _ _ hsome
    obtain rfl := Option.some.inj (hlookup.symm.trans hsome')
    have hne := ih ((Json.wf_object.1 hv).2 _ (Json.mem_of_lookup hsome))
      ((Json.wf_object.1 hw).2 _ (Json.mem_of_lookup hsome'))
    rw [hne] at hvw
    cases hvw
  | @underItem xs ys i v w place kind hsome hsome' _ ih =>
    have hv' := Json.wf_array.1 hv _ (List.mem_of_getElem? hsome)
    have hw' := Json.wf_array.1 hw _ (List.mem_of_getElem? hsome')
    by_contra heq
    rw [Bool.not_eq_false, Json.valueEq_array_iff hv hw] at heq
    have h := heq i
    rw [hsome, hsome', Option.map_some, Option.map_some, Option.some.injEq,
      ← Json.valueEq_iff hv' hw', ih hv' hw'] at h
    cases h

/-- Values that are not equal differ somewhere. -/
theorem exists_differs {v : Json} (hv : v.Wf) :
    ∀ {w : Json}, w.Wf → v.valueEq w = false → ∃ place kind, Differs v w place kind := by
  induction v using Json.induct with
  | null | bool b | number n | string s =>
    intro w _ hne
    exact ⟨[], _, .changed hne (by cases w <;> rfl)⟩
  | array xs ih =>
    intro w hw hne
    cases w with
    | array ys =>
      by_contra hnone
      rw [← Bool.not_eq_true, Json.valueEq_array_iff hv hw] at hne
      refine hne fun i => ?_
      cases hx : xs[i]? with
      | none =>
        cases hy : ys[i]? with
        | none => rfl
        | some y => exact absurd ⟨_, _, .addedItem hx hy⟩ hnone
      | some x =>
        cases hy : ys[i]? with
        | none => exact absurd ⟨_, _, .removedItem hx hy⟩ hnone
        | some y =>
          have hxmem := List.mem_of_getElem? hx
          have hxwf := Json.wf_array.1 hv x hxmem
          have hywf := Json.wf_array.1 hw y (List.mem_of_getElem? hy)
          refine congrArg some ((Json.valueEq_iff hxwf hywf).1 ?_)
          by_contra hxy
          rw [Bool.not_eq_true] at hxy
          obtain ⟨place, kind, hdiff⟩ := ih x hxmem hxwf hywf hxy
          exact hnone ⟨_, _, .underItem hx hy hdiff⟩
    | _ => exact ⟨[], _, .changed hne rfl⟩
  | object es ih =>
    intro w hw hne
    cases w with
    | object fs =>
      by_contra hnone
      rw [← Bool.not_eq_true, Json.valueEq_object_iff hv hw] at hne
      refine hne ⟨fun name v hlookup => ?_, fun name hlookup => ?_⟩
      · cases hlookup' : Json.lookup name fs with
        | none => exact absurd ⟨_, _, .removedKey hlookup hlookup'⟩ hnone
        | some w =>
          refine ⟨w, rfl, ?_⟩
          by_contra hvw
          rw [Bool.not_eq_true] at hvw
          have hmem := Json.mem_of_lookup hlookup
          obtain ⟨place, kind, hdiff⟩ := ih _ hmem ((Json.wf_object.1 hv).2 _ hmem)
            ((Json.wf_object.1 hw).2 _ (Json.mem_of_lookup hlookup')) hvw
          exact hnone ⟨_, _, .underKey hlookup hlookup' hdiff⟩
      · by_contra hsome
        obtain ⟨w, hlookup'⟩ := Option.ne_none_iff_exists'.1 hsome
        exact hnone ⟨_, _, .addedKey hlookup hlookup'⟩
    | _ => exact ⟨[], _, .changed hne rfl⟩

/-! ### The changes are the differences -/

theorem mem_keyChanges {es fs : List (String × Json)} (hes : (es.map Prod.fst).Nodup)
    (hfs : (fs.map Prod.fst).Nodup) {change : Change} : change ∈ keyChanges es fs ↔
      (∃ name v, Json.lookup name es = some v ∧ Json.lookup name fs = none ∧
        change = ⟨[.key name], .removed⟩) ∨
      ∃ name w, Json.lookup name es = none ∧ Json.lookup name fs = some w ∧
        change = ⟨[.key name], .added w⟩ := by
  have hif : ∀ {o : Option Json} {c : Change},
      (if o.isSome then none else some c) = some change ↔ o = none ∧ change = c := by
    intro o c
    cases o <;> simp [eq_comm]
  simp only [keyChanges, List.mem_append, List.mem_filterMap, mem_byKey, hif, Prod.exists,
    ← lookup_eq_some_iff hes, ← lookup_eq_some_iff hfs]
  exact or_congr_right (exists_congr fun name => exists_congr fun w => and_left_comm)

theorem mem_sortByKey {cs : List (String × List Change)} {change : Change} :
    change ∈ sortByKey cs ↔ ∃ c ∈ cs, change ∈ c.2 := by
  simp [sortByKey, List.mem_flatMap, List.mem_insertionSort]

theorem sharedChanges_eq (es fs : List (String × Json)) : sharedChanges es fs =
    es.filterMap fun e => (Json.lookup e.1 fs).map fun w =>
      (e.1, if e.2.valueEq w then [] else (changes e.2 w).map (Change.under (.key e.1))) := by
  induction es with
  | nil => rfl
  | cons e es ih =>
    obtain ⟨key, v⟩ := e
    rw [sharedChanges, ih]
    cases hlookup : Json.lookup key fs <;> simp [hlookup]

theorem mem_sharedChanges {es fs : List (String × Json)} (hes : (es.map Prod.fst).Nodup)
    {change : Change} : change ∈ sortByKey (sharedChanges es fs) ↔
      ∃ name v w, Json.lookup name es = some v ∧ Json.lookup name fs = some w ∧
        v.valueEq w = false ∧ change ∈ (changes v w).map (Change.under (.key name)) := by
  rw [mem_sortByKey, sharedChanges_eq]
  simp only [List.mem_filterMap, Option.map_eq_some_iff, Prod.exists, lookup_eq_some_iff hes]
  constructor
  · rintro ⟨_, _, ⟨name, v, hv, w, hw, heq⟩, hchange⟩
    obtain ⟨rfl, rfl⟩ := Prod.mk.inj heq
    cases hvw : v.valueEq w with
    | true => simp [hvw] at hchange
    | false => exact ⟨name, v, w, hv, hw, hvw, by simpa [hvw] using hchange⟩
  · rintro ⟨name, v, w, hv, hw, hvw, hchange⟩
    refine ⟨name, _, ⟨name, v, hv, w, hw, rfl⟩, ?_⟩
    simpa [hvw] using hchange

/-- The changes at one index. -/
def itemChange (i : ℕ) : Option Json → Option Json → List Change
  | none, none => []
  | some _, none => [⟨[.index i], .removed⟩]
  | none, some w => [⟨[.index i], .added w⟩]
  | some v, some w => if v.valueEq w then [] else (changes v w).map (Change.under (.index i))

/-- The changes of items, index by index through the longer side. -/
theorem itemChanges_eq {xs : List Json} : ∀ {ys : List Json} {i : ℕ}, itemChanges xs ys i =
    (List.range (max xs.length ys.length)).flatMap fun j => itemChange (i + j) xs[j]? ys[j]? := by
  have hnext : ∀ (x y : Option Json) (i j : ℕ),
      itemChange (i + 1 + j) x y = itemChange (i + (j + 1)) x y := by
    intro x y i j
    rw [Nat.add_assoc, Nat.add_comm 1 j]
  induction xs with
  | nil =>
    intro ys
    induction ys with
    | nil => intro i; rfl
    | cons y ys ihys =>
      intro i
      have hrest := ihys (i := i + 1)
      rw [itemChanges] at hrest ⊢
      rw [List.zipIdx_cons, List.map_cons, hrest, List.length_nil, Nat.zero_max, Nat.zero_max,
        List.length_cons, List.range_succ_eq_map, List.flatMap_cons, List.flatMap_map]
      exact congrArg (_ :: ·) (List.flatMap_congr fun j _ => hnext none ys[j]? i j)
  | cons x xs ih =>
    intro ys i
    cases ys with
    | nil =>
      rw [itemChanges, ih, List.length_nil, Nat.max_zero, Nat.max_zero, List.length_cons,
        List.range_succ_eq_map, List.flatMap_cons, List.flatMap_map]
      exact congrArg (_ :: ·) (List.flatMap_congr fun j _ => hnext xs[j]? none i j)
    | cons y ys =>
      rw [itemChanges, ih, List.length_cons, List.length_cons, Nat.succ_max_succ,
        List.range_succ_eq_map, List.flatMap_cons, List.flatMap_map]
      exact congrArg (_ ++ ·) (List.flatMap_congr fun j _ => hnext xs[j]? ys[j]? i j)

theorem mem_itemChanges {xs ys : List Json} {i : ℕ} {change : Change} :
    change ∈ itemChanges xs ys i ↔ ∃ j, change ∈ itemChange (i + j) xs[j]? ys[j]? := by
  rw [itemChanges_eq, List.mem_flatMap]
  refine exists_congr fun j => and_iff_right_of_imp fun h => ?_
  rw [List.mem_range, lt_max_iff]
  by_contra hlt
  rw [not_or, Nat.not_lt, Nat.not_lt, ← List.getElem?_eq_none_iff,
    ← List.getElem?_eq_none_iff] at hlt
  rw [hlt.1, hlt.2] at h
  cases h

theorem mem_under {step : Step} {cs : List Change} {place : List Step} {kind : Kind} :
    ⟨place, kind⟩ ∈ cs.map (Change.under step) ↔
      ∃ rest, place = step :: rest ∧ ⟨rest, kind⟩ ∈ cs := by
  rw [List.mem_map]
  constructor
  · rintro ⟨⟨rest, kind⟩, hc, h⟩
    cases h
    exact ⟨rest, rfl, hc⟩
  · rintro ⟨rest, rfl, hc⟩
    exact ⟨⟨rest, kind⟩, hc, rfl⟩

theorem mem_itemChange {v w : Option Json} {i : ℕ} {change : Change} :
    change ∈ itemChange i v w ↔
      ((∃ x, v = some x) ∧ w = none ∧ change = ⟨[.index i], .removed⟩) ∨
      (∃ y, v = none ∧ w = some y ∧ change = ⟨[.index i], .added y⟩) ∨
      ∃ x y, v = some x ∧ w = some y ∧ x.valueEq y = false ∧
        change ∈ (changes x y).map (Change.under (.index i)) := by
  cases v with
  | none => cases w <;> simp [itemChange]
  | some x =>
    cases w with
    | none => simp [itemChange]
    | some y => cases hxy : x.valueEq y <;> simp [itemChange, hxy]

/-- Values that are not containers of the same kind differ as a whole. -/
theorem changes_of_ne {v w : Json} (h : sameContainer v w = false) :
    changes v w = [⟨[], .changed v w⟩] := by
  cases v <;> cases w <;> first | rfl | cases h

theorem differs_of_ne {v w : Json} (h : sameContainer v w = false) (hne : v.valueEq w = false)
    {place : List Step} {kind : Kind} :
    Differs v w place kind ↔ place = [] ∧ kind = .changed v w := by
  constructor
  · intro hd
    cases hd with
    | changed => exact ⟨rfl, rfl⟩
    | _ => cases h
  · rintro ⟨rfl, rfl⟩
    exact .changed hne h

/-- **The changes are the differences.** -/
theorem mem_changes {v : Json} (hv : v.Wf) : ∀ {w : Json}, w.Wf →
    (v.valueEq w = false ∨ sameContainer v w = true) → ∀ {place kind},
      ⟨place, kind⟩ ∈ changes v w ↔ Differs v w place kind := by
  have hscalar : ∀ {v w : Json}, (v.valueEq w = false ∨ sameContainer v w = true) →
      sameContainer v w = false → ∀ {place kind},
        ⟨place, kind⟩ ∈ changes v w ↔ Differs v w place kind := by
    intro v w hne hsame place kind
    rw [hsame, or_iff_left Bool.false_ne_true] at hne
    rw [changes_of_ne hsame, differs_of_ne hsame hne, List.mem_singleton, Change.mk.injEq]
  induction v using Json.induct with
  | null | bool b | number n | string s =>
    intro w _ hne place kind
    exact hscalar hne (by cases w <;> rfl)
  | array xs ih =>
    intro w hw hne place kind
    cases w with
    | array ys =>
      have hxs := Json.wf_array.1 hv
      have hys := Json.wf_array.1 hw
      rw [changes, mem_itemChanges]
      simp only [Nat.zero_add, mem_itemChange, mem_under, Change.mk.injEq]
      constructor
      · rintro ⟨i, ⟨⟨x, hx⟩, hy, rfl, rfl⟩ | ⟨y, hx, hy, rfl, rfl⟩ |
          ⟨x, y, hx, hy, hxy, rest, rfl, hrest⟩⟩
        · exact .removedItem hx hy
        · exact .addedItem hx hy
        · have hxmem := List.mem_of_getElem? hx
          exact .underItem hx hy ((ih x hxmem (hxs x hxmem)
            (hys y (List.mem_of_getElem? hy)) (Or.inl hxy)).1 hrest)
      · intro h
        cases h with
        | changed _ hsame => cases hsame
        | @removedItem _ _ i x hx hy => exact ⟨i, Or.inl ⟨⟨x, hx⟩, hy, rfl, rfl⟩⟩
        | @addedItem _ _ i y hx hy => exact ⟨i, Or.inr (Or.inl ⟨y, hx, hy, rfl, rfl⟩)⟩
        | @underItem _ _ i x y rest _ hx hy hrest =>
          have hxmem := List.mem_of_getElem? hx
          have hywf := hys y (List.mem_of_getElem? hy)
          have hxy := valueEq_of_differs hrest (hxs x hxmem) hywf
          exact ⟨i, Or.inr (Or.inr ⟨x, y, hx, hy, hxy, rest, rfl,
            (ih x hxmem (hxs x hxmem) hywf (Or.inl hxy)).2 hrest⟩)⟩
    | _ => exact hscalar hne rfl
  | object es ih =>
    intro w hw hne place kind
    cases w with
    | object fs =>
      obtain ⟨hkeys, hes⟩ := Json.wf_object.1 hv
      obtain ⟨hkeys', hfs⟩ := Json.wf_object.1 hw
      rw [changes, List.mem_append, mem_keyChanges hkeys hkeys', mem_sharedChanges hkeys]
      simp only [mem_under, Change.mk.injEq]
      constructor
      · rintro ((⟨name, v, hv, hw, rfl, rfl⟩ | ⟨name, w, hv, hw, rfl, rfl⟩) |
          ⟨name, v, w, hv, hw, hvw, rest, rfl, hrest⟩)
        · exact .removedKey hv hw
        · exact .addedKey hv hw
        · have hmem := Json.mem_of_lookup hv
          exact .underKey hv hw ((ih _ hmem (hes _ hmem) (hfs _ (Json.mem_of_lookup hw))
            (Or.inl hvw)).1 hrest)
      · intro h
        cases h with
        | changed _ hsame => cases hsame
        | @removedKey _ _ name v hv hw => exact Or.inl (Or.inl ⟨name, v, hv, hw, rfl, rfl⟩)
        | @addedKey _ _ name w hv hw => exact Or.inl (Or.inr ⟨name, w, hv, hw, rfl, rfl⟩)
        | @underKey _ _ name v w rest _ hv hw hrest =>
          have hmem := Json.mem_of_lookup hv
          have hwf := hfs _ (Json.mem_of_lookup hw)
          have hvw := valueEq_of_differs hrest (hes _ hmem) hwf
          exact Or.inr ⟨name, v, w, hv, hw, hvw, rest, rfl,
            (ih _ hmem (hes _ hmem) hwf (Or.inl hvw)).2 hrest⟩
    | _ => exact hscalar hne rfl

/-- There is no change exactly if the values are equal. -/
theorem changes_eq_nil_iff {v w : Json} (hv : v.Wf) (hw : w.Wf) (hsame : sameContainer v w = true) :
    changes v w = [] ↔ v.valueEq w = true := by
  rw [List.eq_nil_iff_forall_not_mem]
  constructor
  · intro h
    by_contra hne
    rw [Bool.not_eq_true] at hne
    obtain ⟨place, kind, hd⟩ := exists_differs hv hw hne
    exact h _ ((mem_changes hv hw (Or.inr hsame)).2 hd)
  · rintro heq ⟨place, kind⟩ hmem
    rw [valueEq_of_differs ((mem_changes hv hw (Or.inr hsame)).1 hmem) hv hw] at heq
    cases heq

/-! ### One change for each place -/

theorem nodup_under {step : Step} {cs : List Change} (h : (cs.map Change.place).Nodup) :
    ((cs.map (Change.under step)).map Change.place).Nodup := by
  have hmap : (cs.map (Change.under step)).map Change.place =
      (cs.map Change.place).map (step :: ·) := by
    rw [List.map_map, List.map_map]
    rfl
  rw [hmap]
  exact h.map (List.cons_injective)

theorem nodup_byKey {es : List (String × Json)} (h : (es.map Prod.fst).Nodup) :
    ((byKey es).map Prod.fst).Nodup :=
  ((List.perm_insertionSort _ es).map Prod.fst).nodup_iff.2 h

/-- The entries under keys that the other side does not have, each at its key. -/
theorem map_place_filterMap {es fs : List (String × Json)} {f : String × Json → Change}
    (hf : ∀ e, (f e).place = [.key e.1]) :
    (es.filterMap fun e => if (Json.lookup e.1 fs).isSome then none else some (f e)).map
        Change.place =
      ((es.map Prod.fst).filter fun name => (Json.lookup name fs).isNone).map
        fun name => [Step.key name] := by
  induction es with
  | nil => rfl
  | cons e es ih =>
    rw [List.filterMap_cons, List.map_cons]
    cases hlookup : Json.lookup e.1 fs with
    | none => simp [hlookup, hf, ih]
    | some w => simp [hlookup, ih]

theorem nodup_keyChanges {es fs : List (String × Json)} (hes : (es.map Prod.fst).Nodup)
    (hfs : (fs.map Prod.fst).Nodup) : ((keyChanges es fs).map Change.place).Nodup := by
  have hkey : Function.Injective fun name => [Step.key name] := fun a b h => by simpa using h
  rw [keyChanges, List.map_append, map_place_filterMap fun _ => rfl,
    map_place_filterMap fun _ => rfl]
  refine (((nodup_byKey hes).filter _).map hkey).append (((nodup_byKey hfs).filter _).map hkey) ?_
  intro place hleft hright
  obtain ⟨name, hname, rfl⟩ := List.mem_map.1 hleft
  obtain ⟨other, hother, heq⟩ := List.mem_map.1 hright
  obtain rfl := hkey heq
  obtain ⟨e, he, rfl⟩ := List.mem_map.1 (List.mem_filter.1 hname).1
  have hnone := (List.mem_filter.1 hother).2
  rw [(lookup_eq_some_iff hes).2 (mem_byKey.1 he)] at hnone
  cases hnone

/-- The changes below a key are at places that start with it. -/
theorem place_of_mem_sharedChanges {es fs : List (String × Json)} {c : String × List Change}
    (hc : c ∈ sharedChanges es fs) : ∀ change ∈ c.2, change.place.head? = some (.key c.1) := by
  rw [sharedChanges_eq] at hc
  obtain ⟨e, -, hmap⟩ := List.mem_filterMap.1 hc
  obtain ⟨w, -, rfl⟩ := Option.map_eq_some_iff.1 hmap
  intro change hchange
  simp only at hchange
  split_ifs at hchange
  · cases hchange
  · obtain ⟨change, -, rfl⟩ := List.mem_map.1 hchange
    rfl

theorem map_fst_sharedChanges (es fs : List (String × Json)) :
    ((sharedChanges es fs).map Prod.fst).Sublist (es.map Prod.fst) := by
  induction es with
  | nil => exact List.Sublist.refl _
  | cons e es ih =>
    obtain ⟨key, v⟩ := e
    rw [sharedChanges]
    cases Json.lookup key fs with
    | none => exact ih.cons _
    | some w => exact ih.cons_cons key

/-- The changes of one item are at its index. -/
theorem head_of_mem_itemChange {i : ℕ} {x y : Option Json} :
    ∀ place ∈ (itemChange i x y).map Change.place, place.head? = some (.index i) := by
  intro place hplace
  obtain ⟨⟨_, kind⟩, hmem, rfl⟩ := List.mem_map.1 hplace
  simp only [mem_itemChange, mem_under, Change.mk.injEq] at hmem
  rcases hmem with ⟨-, -, rfl, -⟩ | ⟨_, -, -, rfl, -⟩ | ⟨_, _, -, -, -, _, rfl, -⟩ <;> rfl

/-- Changes of items are at different places if those of each item are. -/
theorem nodup_itemChanges {xs ys : List Json}
    (h : ∀ (i : ℕ) x y, xs[i]? = some x → ys[i]? = some y →
      ((changes x y).map Change.place).Nodup) :
    ((itemChanges xs ys 0).map Change.place).Nodup := by
  rw [itemChanges_eq, List.map_flatMap, List.nodup_flatMap]
  constructor
  · intro i _
    cases hx : xs[i]? with
    | none => cases hy : ys[i]? <;> simp [itemChange]
    | some x =>
      cases hy : ys[i]? with
      | none => simp [itemChange]
      | some y =>
        simp only [itemChange]
        split_ifs
        · exact List.nodup_nil
        · exact nodup_under (h i x y hx hy)
  · refine List.nodup_range.imp fun {i j} hij place hi hj => hij ?_
    have heq := (head_of_mem_itemChange place hi).symm.trans (head_of_mem_itemChange place hj)
    simpa using heq

/-- Changes below shared keys are at different places if those below each key are. -/
theorem nodup_sharedChanges {es fs : List (String × Json)} (hkeys : (es.map Prod.fst).Nodup)
    (h : ∀ e ∈ es, ∀ w, Json.lookup e.1 fs = some w → ((changes e.2 w).map Change.place).Nodup) :
    ((sortByKey (sharedChanges es fs)).map Change.place).Nodup := by
  rw [sortByKey, List.map_flatMap, List.nodup_flatMap]
  constructor
  · intro c hc
    rw [List.mem_insertionSort, sharedChanges_eq] at hc
    obtain ⟨e, he, hmap⟩ := List.mem_filterMap.1 hc
    obtain ⟨w, hw, rfl⟩ := Option.map_eq_some_iff.1 hmap
    simp only
    split_ifs
    · exact List.nodup_nil
    · exact nodup_under (h e he w hw)
  · have hnames : (((sharedChanges es fs).insertionSort fun a b => a.1 ≤ b.1).map
        Prod.fst).Nodup :=
      ((List.perm_insertionSort _ _).map Prod.fst).nodup_iff.2
        (hkeys.sublist (map_fst_sharedChanges es fs))
    refine (List.pairwise_map.1 hnames).imp_of_mem fun {c d} hc hd hne place hpc hpd => hne ?_
    rw [List.mem_insertionSort] at hc hd
    obtain ⟨change, hchange, rfl⟩ := List.mem_map.1 hpc
    obtain ⟨change', hchange', heq⟩ := List.mem_map.1 hpd
    have hhead := place_of_mem_sharedChanges hc change hchange
    rw [← heq, place_of_mem_sharedChanges hd change' hchange'] at hhead
    simpa using hhead.symm

/-- A key on one side only is not on both. -/
theorem disjoint_keyChanges {es fs : List (String × Json)} (hkeys : (es.map Prod.fst).Nodup)
    (hkeys' : (fs.map Prod.fst).Nodup) :
    ((keyChanges es fs).map Change.place).Disjoint
      ((sortByKey (sharedChanges es fs)).map Change.place) := by
  intro place hleft hright
  obtain ⟨⟨_, kind⟩, hkey, rfl⟩ := List.mem_map.1 hleft
  obtain ⟨⟨_, kind'⟩, hshared, hplace⟩ := List.mem_map.1 hright
  simp only at hplace
  subst hplace
  rw [mem_keyChanges hkeys hkeys'] at hkey
  rw [mem_sharedChanges hkeys] at hshared
  simp only [mem_under, Change.mk.injEq] at hkey hshared
  obtain ⟨name, v, w, hv, hw, -, rest, rfl, -⟩ := hshared
  rcases hkey with ⟨other, _, -, hnone, hplace, -⟩ | ⟨other, _, hnone, -, hplace, -⟩
  · obtain ⟨rfl, -⟩ : name = other ∧ rest = [] := by simpa using hplace
    rw [hw] at hnone
    cases hnone
  · obtain ⟨rfl, -⟩ : name = other ∧ rest = [] := by simpa using hplace
    rw [hv] at hnone
    cases hnone

/-- No two changes are at the same place. -/
theorem nodup_changes {v : Json} (hv : v.Wf) :
    ∀ {w : Json}, w.Wf → ((changes v w).map Change.place).Nodup := by
  induction v using Json.induct with
  | null | bool b | number n | string s =>
    intro w _
    rw [changes_of_ne (by cases w <;> rfl)]
    exact List.nodup_singleton _
  | array xs ih =>
    intro w hw
    cases w with
    | array ys =>
      refine nodup_itemChanges fun i x y hx hy => ?_
      have hxmem := List.mem_of_getElem? hx
      exact ih x hxmem (Json.wf_array.1 hv x hxmem)
        (Json.wf_array.1 hw y (List.mem_of_getElem? hy))
    | _ => exact List.nodup_singleton _
  | object es ih =>
    intro w hw
    cases w with
    | object fs =>
      obtain ⟨hkeys, hes⟩ := Json.wf_object.1 hv
      obtain ⟨hkeys', hfs⟩ := Json.wf_object.1 hw
      rw [changes, List.map_append]
      refine (nodup_keyChanges hkeys hkeys').append ?_ (disjoint_keyChanges hkeys hkeys')
      exact nodup_sharedChanges hkeys fun e he w hlookup =>
        ih e he (hes e he) (hfs _ (Json.mem_of_lookup hlookup))
    | _ => exact List.nodup_singleton _

/-! ### The order of keys -/

theorem compactValueString_sort (v : Json) :
    compactValueString (sortJsonValue v) = compactValueString v := by
  cases v <;> rfl

/-- The entries of a sorted object. -/
def sortedEntries (es : List (String × Json)) : List (String × Json) :=
  (es.map fun e => (e.1, sortJsonValue e.2)).insertionSort EntryLe

theorem lookup_sortedEntries {fs : List (String × Json)} (hfs : (Json.object fs).Wf)
    (name : String) :
    Json.lookup name (sortedEntries fs) = (Json.lookup name fs).map sortJsonValue := by
  have h := get_sortJsonValue hfs name
  rw [sortJsonValue_object] at h
  exact h

theorem byKey_sortedEntries (es : List (String × Json)) :
    byKey (sortedEntries es) = (byKey es).map fun e => (e.1, sortJsonValue e.2) := by
  rw [byKey, sortedEntries, (List.pairwise_insertionSort EntryLe _).insertionSort_eq, byKey,
    List.map_insertionSort EntryLe EntryLe (fun e => (e.1, sortJsonValue e.2)) _
      fun _ _ _ _ => Iff.rfl]

theorem diffKeys_sort {es fs : List (String × Json)} (hes : (Json.object es).Wf)
    (hfs : (Json.object fs).Wf) (path : String) :
    diffKeys (sortedEntries es) (sortedEntries fs) path = diffKeys es fs path := by
  rw [diffKeys, diffKeys, byKey_sortedEntries, byKey_sortedEntries, List.filterMap_map,
    List.filterMap_map]
  simp only [Function.comp_def, lookup_sortedEntries hes, lookup_sortedEntries hfs,
    Option.isSome_map, added, compactValueString_sort]

theorem diffShared_eq (es fs : List (String × Json)) (path : String) : diffShared es fs path =
    es.filterMap fun e => (Json.lookup e.1 fs).map fun w =>
      (e.1, if e.2.valueEq w then [] else diffRecursive e.2 w (formatPath path e.1)) := by
  induction es with
  | nil => rfl
  | cons e es ih =>
    obtain ⟨key, v⟩ := e
    rw [diffShared, ih]
    cases hlookup : Json.lookup key fs <;> simp [hlookup]

theorem map_fst_diffShared (es fs : List (String × Json)) (path : String) :
    ((diffShared es fs path).map Prod.fst).Sublist (es.map Prod.fst) := by
  induction es with
  | nil => exact List.Sublist.refl _
  | cons e es ih =>
    obtain ⟨key, v⟩ := e
    rw [diffShared]
    cases Json.lookup key fs with
    | none => exact ih.cons _
    | some w => exact ih.cons_cons key

/-- Items that differ in the same lines once their keys are sorted make arrays that do. -/
theorem diffArrays_sort {xs : List Json} (hxs : ∀ x ∈ xs, x.Wf ∧ ∀ {w : Json}, w.Wf → ∀ path,
    diffRecursive (sortJsonValue x) (sortJsonValue w) path = diffRecursive x w path) :
    ∀ {ys : List Json}, (∀ y ∈ ys, Json.Wf y) → ∀ path i,
      diffArrays (xs.map sortJsonValue) (ys.map sortJsonValue) path i =
        diffArrays xs ys path i := by
  induction xs with
  | nil =>
    intro ys _ path i
    rw [List.map_nil, diffArrays, diffArrays, List.zipIdx_map, List.map_map]
    refine List.map_congr_left fun y _ => ?_
    show added _ (sortJsonValue y.1) = added _ y.1
    rw [added, added, compactValueString_sort]
    rfl
  | cons x xs ih =>
    intro ys hys path i
    rw [List.forall_mem_cons] at hxs
    cases ys with
    | nil =>
      have hrest := @ih hxs.2 [] (by simp) path (i + 1)
      rw [List.map_cons, List.map_nil, diffArrays, diffArrays]
      exact congrArg _ hrest
    | cons y ys =>
      rw [List.forall_mem_cons] at hys
      rw [List.map_cons, List.map_cons, diffArrays, diffArrays,
        Json.valueEq_sort hxs.1.1 hys.1, hxs.1.2 hys.1, ih hxs.2 hys.2 path (i + 1)]

/-- Entries that differ in the same lines once their keys are sorted make objects that do, in
another order of the keys. -/
theorem diffShared_sort {es fs : List (String × Json)} (hes : ∀ e ∈ es, e.2.Wf ∧
    ∀ {w : Json}, w.Wf → ∀ path,
      diffRecursive (sortJsonValue e.2) (sortJsonValue w) path = diffRecursive e.2 w path)
    (hw : (Json.object fs).Wf) (path : String) :
    (diffShared (sortedEntries es) (sortedEntries fs) path).Perm (diffShared es fs path) := by
  have hperm := List.perm_insertionSort EntryLe (es.map fun e => (e.1, sortJsonValue e.2))
  have hshared : diffShared (es.map fun e => (e.1, sortJsonValue e.2)) (sortedEntries fs) path =
      diffShared es fs path := by
    rw [diffShared_eq, diffShared_eq, List.filterMap_map]
    refine List.filterMap_congr fun e he => ?_
    simp only [Function.comp_apply, lookup_sortedEntries hw]
    cases hlookup : Json.lookup e.1 fs with
    | none => rfl
    | some w =>
      have hwf := (Json.wf_object.1 hw).2 (e.1, w) (Json.mem_of_lookup hlookup)
      simp only [Option.map_some, Json.valueEq_sort (hes e he).1 hwf, (hes e he).2 hwf]
  rw [← hshared, diffShared_eq, diffShared_eq]
  exact hperm.filterMap _

/-- Sorting the keys of two values does not change how they differ. -/
theorem diffRecursive_sort {v : Json} (hv : v.Wf) : ∀ {w : Json}, w.Wf → ∀ path,
    diffRecursive (sortJsonValue v) (sortJsonValue w) path = diffRecursive v w path := by
  induction v using Json.induct with
  | null | bool b | number n | string s =>
    intro w _ path
    cases w <;> rfl
  | array xs ih =>
    intro w hw path
    cases w with
    | array ys =>
      have hxs := Json.wf_array.1 hv
      rw [sortJsonValue_array, sortJsonValue_array, diffRecursive, diffRecursive,
        diffArrays_sort (fun x hx => ⟨hxs x hx, ih x hx (hxs x hx)⟩) (Json.wf_array.1 hw)]
    | _ => rfl
  | object es ih =>
    intro w hw path
    cases w with
    | object fs =>
      obtain ⟨hkeys, hes⟩ := Json.wf_object.1 hv
      have hsorted := diffShared_sort (fun e he => ⟨hes e he, ih e he (hes e he)⟩) hw path
      have hnames : ((diffShared es fs path).map Prod.fst).Nodup :=
        hkeys.sublist (map_fst_diffShared es fs path)
      rw [sortJsonValue_object, sortJsonValue_object, diffRecursive, diffRecursive]
      show diffKeys (sortedEntries es) (sortedEntries fs) path ++
        concatByKey (diffShared (sortedEntries es) (sortedEntries fs) path) = _
      rw [diffKeys_sort hv hw path, concatByKey, concatByKey,
        insertionSort_fst_eq_of_perm hsorted ((hsorted.map Prod.fst).nodup_iff.2 hnames)]
    | _ => rfl

/-- The same values with their keys in another order differ in the same lines. -/
theorem diffRecursive_of_keyEquiv {v v' w w' : Json} (hv : v.Wf) (hv' : v'.Wf) (hw : w.Wf)
    (hw' : w'.Wf) (hvv' : v.KeyEquiv v') (hww' : w.KeyEquiv w') (path : String) :
    diffRecursive v w path = diffRecursive v' w' path := by
  rw [← diffRecursive_sort hv hw, ← diffRecursive_sort hv' hw',
    sortJsonValue_eq_of_keyEquiv hv _ hvv', sortJsonValue_eq_of_keyEquiv hw _ hww']

/-! ### Both directions -/

/-- What a change looks like from the other side: what is added there is removed here. -/
def Kind.Swapped : Kind → Kind → Prop
  | .removed, .added _ => True
  | .added _, .removed => True
  | .changed v w, .changed v' w' => v' = w ∧ w' = v
  | _, _ => False

theorem sameContainer_comm (v w : Json) : sameContainer v w = sameContainer w v := by
  cases v <;> cases w <;> rfl

/-- Seen from the other side, the differences are at the same places. -/
theorem differs_swap {v w : Json} {place : List Step} {kind : Kind} (h : Differs v w place kind)
    (hv : v.Wf) (hw : w.Wf) : ∃ kind', Differs w v place kind' ∧ kind.Swapped kind' := by
  induction h with
  | changed hne hsame =>
    exact ⟨_, .changed ((Json.valueEq_comm hw hv).trans hne) ((sameContainer_comm _ _).trans hsame),
      rfl, rfl⟩
  | removedKey hlv hlw => exact ⟨_, .addedKey hlw hlv, trivial⟩
  | addedKey hlv hlw => exact ⟨_, .removedKey hlw hlv, trivial⟩
  | removedItem hlv hlw => exact ⟨_, .addedItem hlw hlv, trivial⟩
  | addedItem hlv hlw => exact ⟨_, .removedItem hlw hlv, trivial⟩
  | underKey hlv hlw _ ih =>
    obtain ⟨kind', hd, hkind⟩ := ih ((Json.wf_object.1 hv).2 _ (Json.mem_of_lookup hlv))
      ((Json.wf_object.1 hw).2 _ (Json.mem_of_lookup hlw))
    exact ⟨kind', .underKey hlw hlv hd, hkind⟩
  | underItem hlv hlw _ ih =>
    obtain ⟨kind', hd, hkind⟩ := ih (Json.wf_array.1 hv _ (List.mem_of_getElem? hlv))
      (Json.wf_array.1 hw _ (List.mem_of_getElem? hlw))
    exact ⟨kind', .underItem hlw hlv hd, hkind⟩

/-- What was removed here was added there. -/
theorem differs_removed_iff {v w : Json} (hv : v.Wf) (hw : w.Wf) {place : List Step} :
    Differs v w place .removed ↔ ∃ x, Differs w v place (.added x) := by
  constructor
  · intro h
    obtain ⟨kind, hd, hkind⟩ := differs_swap h hv hw
    cases kind with
    | added x => exact ⟨x, hd⟩
    | _ => cases hkind
  · rintro ⟨x, h⟩
    obtain ⟨kind, hd, hkind⟩ := differs_swap h hw hv
    cases kind with
    | removed => exact hd
    | _ => cases hkind

/-- The values of a change are flipped. -/
theorem Differs.flip {v w x y : Json} {place : List Step} (h : Differs v w place (.changed x y))
    (hv : v.Wf) (hw : w.Wf) : Differs w v place (.changed y x) := by
  obtain ⟨kind, hd, hkind⟩ := differs_swap h hv hw
  cases kind with
  | changed x' y' => obtain ⟨rfl, rfl⟩ := hkind; exact hd
  | _ => cases hkind

/-- **The change list is sound and complete.**  The lines of two objects are those of a list of
changes.  It is empty exactly if the objects are equal, has the places where they differ and no
other, each once and with what happened there, does not depend on the order of keys, and seen from
the other side has the same places, where what was added is removed and the values of a change are
flipped. -/
theorem changes_sound_complete {es fs : List (String × Json)} (he : (Json.object es).Wf)
    (ho : (Json.object fs).Wf) :
    diffRecursive (.object es) (.object fs) "" =
        (changes (.object es) (.object fs)).map (render "") ∧
      (changes (.object es) (.object fs) = [] ↔
        (Json.object es).valueEq (.object fs) = true) ∧
      ((changes (.object es) (.object fs)).map Change.place).Nodup ∧
      (∀ place kind, ⟨place, kind⟩ ∈ changes (.object es) (.object fs) ↔
        Differs (.object es) (.object fs) place kind) ∧
      (∀ v w : Json, v.Wf → w.Wf → (Json.object es).KeyEquiv v → (Json.object fs).KeyEquiv w →
        diffRecursive v w "" = diffRecursive (.object es) (.object fs) "") ∧
      (∀ place, (⟨place, .removed⟩ ∈ changes (.object fs) (.object es) ↔
          ∃ v, ⟨place, .added v⟩ ∈ changes (.object es) (.object fs)) ∧
        ((∃ v, ⟨place, .added v⟩ ∈ changes (.object fs) (.object es)) ↔
          ⟨place, .removed⟩ ∈ changes (.object es) (.object fs)) ∧
        ∀ v w, ⟨place, .changed v w⟩ ∈ changes (.object fs) (.object es) ↔
          ⟨place, .changed w v⟩ ∈ changes (.object es) (.object fs)) := by
  have hmem : ∀ place kind, ⟨place, kind⟩ ∈ changes (.object es) (.object fs) ↔
      Differs (.object es) (.object fs) place kind := fun _ _ => mem_changes he ho (Or.inr rfl)
  have hmem' : ∀ place kind, ⟨place, kind⟩ ∈ changes (.object fs) (.object es) ↔
      Differs (.object fs) (.object es) place kind := fun _ _ => mem_changes ho he (Or.inr rfl)
  refine ⟨diffRecursive_eq _ _ _, changes_eq_nil_iff he ho rfl, nodup_changes he ho, hmem,
    fun v w hv hw hev how => (diffRecursive_of_keyEquiv he hv ho hw hev how "").symm,
    fun place => ⟨?_, ?_, fun v w => ?_⟩⟩
  · simp only [hmem, hmem']
    exact differs_removed_iff ho he
  · simp only [hmem, hmem']
    exact (differs_removed_iff he ho).symm
  · simp only [hmem, hmem']
    exact ⟨fun h => h.flip ho he, fun h => h.flip he ho⟩

/-- Two objects with a key that is removed, a key that is added, a value that is changed and an
item that is added; with its keys in another order, the first has the same changes. -/
theorem changes_sound_complete_reordered :
    let es : List (String × Json) := [("b", .array [.null]), ("a", .bool true), ("gone", .null)]
    let es' : List (String × Json) := [("a", .bool true), ("gone", .null), ("b", .array [.null])]
    let fs : List (String × Json) :=
      [("new", .string "x"), ("a", .bool false), ("b", .array [.null, .bool true])]
    changes (.object es) (.object fs) ≠ [] ∧
      ⟨[.key "gone"], .removed⟩ ∈ changes (.object es) (.object fs) ∧
      ⟨[.key "new"], .added (.string "x")⟩ ∈ changes (.object es) (.object fs) ∧
      ⟨[.key "a"], .changed (.bool true) (.bool false)⟩ ∈ changes (.object es) (.object fs) ∧
      ⟨[.key "b", .index 1], .added (.bool true)⟩ ∈ changes (.object es) (.object fs) ∧
      diffRecursive (.object es') (.object fs) "" = diffRecursive (.object es) (.object fs) "" ∧
      ⟨[.key "new"], .removed⟩ ∈ changes (.object fs) (.object es) ∧
      ⟨[.key "a"], .changed (.bool false) (.bool true)⟩ ∈ changes (.object fs) (.object es) := by
  intro es es' fs
  have he : (Json.object es).Wf := by decide
  have ho : (Json.object fs).Wf := by decide
  obtain ⟨-, hempty, -, hmem, hreorder, hother⟩ := changes_sound_complete he ho
  have hadded : ⟨[.key "new"], .added (.string "x")⟩ ∈ changes (.object es) (.object fs) :=
    (hmem _ _).2 (.addedKey rfl rfl)
  have hchanged : ⟨[.key "a"], .changed (.bool true) (.bool false)⟩ ∈
      changes (.object es) (.object fs) :=
    (hmem _ _).2 (.underKey rfl rfl (.changed rfl rfl))
  refine ⟨fun h => ?_, (hmem _ _).2 (.removedKey rfl rfl), hadded, hchanged,
    (hmem _ _).2 (.underKey rfl rfl (.addedItem rfl rfl)), ?_, (hother _).1.2 ⟨_, hadded⟩,
    ((hother _).2.2 _ _).2 hchanged⟩
  · exact absurd (hempty.1 h) (by decide)
  · have hes : (Json.object es).KeyEquiv (.object es') :=
      .object (by decide)
        (.cons (.bool true) (.cons .null (.cons (.array (.cons .null .nil)) .nil)))
    have hfs : (Json.object fs).KeyEquiv (.object fs) :=
      .object (.refl fs) (.cons (.string "x") (.cons (.bool false)
        (.cons (.array (.cons .null (.cons (.bool true) .nil))) .nil)))
    exact hreorder (.object es') (.object fs) (by decide) ho hes hfs

end Diff

end SpycatcherHarness
