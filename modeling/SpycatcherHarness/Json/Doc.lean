import SpycatcherHarness.Json.Value

/-!
# Documents

A JSON text as a tree, before it is known what it is read as.  The crate does not build this tree;
it is what its deserializer walks through, and what is accepted of a document depends on what the
deserializer is asked for.  Read as a value, a document may be nested only so deep, and all of its
numbers and strings must have values; what is skipped only has to be well formed.

* `Doc.value` : the value that a document is read as.
* `Doc.ofJson` : the document that is written for a value.
* `Doc.within_of_value` : a value that is read has distinct keys and respects the bound.
* `Doc.value_ofJson` : a written value is read back, unless it is nested too deep.
-/

namespace SpycatcherHarness

/-- A well-formed text.  A number or a string without a value can only be skipped: a number that is
out of range, a string with a lone surrogate. -/
inductive Doc where
  | null
  | bool (flag : Bool)
  | number (n : Option Number)
  | string (text : Option String)
  | array (items : List Doc)
  /-- Entries in the order of the text, where a key may come again. -/
  | object (entries : List (Option String × Doc))

namespace Json

/-- A value with distinct keys, nested at most `d` deep. -/
def Within (d : ℕ) (v : Json) : Prop := v.Wf ∧ v.depth ≤ d

/-- An entry in front of later ones.  Where the key comes again, the later value counts. -/
def consEntry (key : String) (v : Json) (es : List (String × Json)) : List (String × Json) :=
  match lookup key es with
  | none => (key, v) :: es
  | some w => (key, w) :: es.filter fun e => e.1 != key

theorem lookup_eq_none_iff {key : String} {es : List (String × Json)} :
    lookup key es = none ↔ key ∉ es.map Prod.fst := by
  induction es with
  | nil => simp [lookup]
  | cons e es ih =>
    obtain ⟨k, w⟩ := e
    simp only [lookup, List.map_cons, List.mem_cons, not_or]
    split_ifs with hk
    · simp [hk]
    · rw [ih]
      exact ⟨fun h => ⟨Ne.symm hk, h⟩, And.right⟩

theorem mem_of_lookup {key : String} {v : Json} {es : List (String × Json)}
    (h : lookup key es = some v) : (key, v) ∈ es := by
  induction es with
  | nil => cases h
  | cons e es ih =>
    obtain ⟨k, w⟩ := e
    simp only [lookup] at h
    split_ifs at h with hk
    · cases h; rw [hk]; exact List.mem_cons_self
    · exact List.mem_cons_of_mem _ (ih h)

theorem consEntry_of_not_mem {key : String} {v : Json} {es : List (String × Json)}
    (h : key ∉ es.map Prod.fst) : consEntry key v es = (key, v) :: es := by
  simp [consEntry, lookup_eq_none_iff.2 h]

/-- Adding an entry keeps keys distinct and brings in no other value. -/
theorem consEntry_within {d : ℕ} {s : String} {v : Json} {es : List (String × Json)}
    (hv : Within d v) (hkeys : (es.map Prod.fst).Nodup) (hes : ∀ e ∈ es, Within d e.2) :
    ((consEntry s v es).map Prod.fst).Nodup ∧ ∀ e ∈ consEntry s v es, Within d e.2 := by
  unfold consEntry
  cases hl : lookup s es with
  | none => exact ⟨List.nodup_cons.2 ⟨lookup_eq_none_iff.1 hl, hkeys⟩,
      List.forall_mem_cons.2 ⟨hv, hes⟩⟩
  -- the later value takes the place of this one
  | some w =>
    refine ⟨List.nodup_cons.2 ⟨by simp, ?_⟩, List.forall_mem_cons.2 ⟨?_, ?_⟩⟩
    · exact hkeys.sublist (List.filter_sublist.map Prod.fst)
    · exact hes _ (mem_of_lookup hl)
    · exact fun e he => hes e (List.mem_filter.1 he).1

theorem within_array {d : ℕ} {xs : List Json} (h : ∀ x ∈ xs, Within d x) :
    Within (d + 1) (array xs) :=
  ⟨wf_array.2 fun x hx => (h x hx).1, depth_array_le.2 fun x hx => (h x hx).2⟩

theorem within_object {d : ℕ} {es : List (String × Json)} (hkeys : (es.map Prod.fst).Nodup)
    (h : ∀ e ∈ es, Within d e.2) : Within (d + 1) (object es) :=
  ⟨wf_object.2 ⟨hkeys, fun e he => (h e he).1⟩, depth_object_le.2 fun e he => (h e he).2⟩

end Json

namespace Doc

/-! ### Reading a value -/

mutual

/-- The value that a document is read as, with so many levels of containers left. -/
def value : ℕ → Doc → Option Json
  | _, null => some .null
  | _, bool b => some (.bool b)
  | _, number n => n.map .number
  | _, string s => s.map .string
  -- the crate counts the levels that are left down, and refuses the next one at zero
  | 0, array _ => none
  | d + 1, array xs => (valueItems d xs).map .array
  | 0, object _ => none
  | d + 1, object es => (valueEntries d es).map .object
termination_by structural _ doc => doc

def valueItems (d : ℕ) : List Doc → Option (List Json)
  | [] => some []
  | x :: xs => do some ((← value d x) :: (← valueItems d xs))
termination_by structural xs => xs

def valueEntries (d : ℕ) : List (Option String × Doc) → Option (List (String × Json))
  | [] => some []
  | (key, x) :: es => do some (Json.consEntry (← key) (← value d x) (← valueEntries d es))
termination_by structural es => es

end

/-! ### Writing a value -/

mutual

/-- The document that is written for a value. -/
def ofJson : Json → Doc
  | .null => null
  | .bool b => bool b
  | .number n => number (some n)
  | .string s => string (some s)
  | .array xs => array (ofItems xs)
  | .object es => object (ofEntries es)

def ofItems : List Json → List Doc
  | [] => []
  | x :: xs => ofJson x :: ofItems xs

def ofEntries : List (String × Json) → List (Option String × Doc)
  | [] => []
  | (key, v) :: es => (some key, ofJson v) :: ofEntries es

end

theorem ofItems_eq (xs : List Json) : ofItems xs = xs.map ofJson := by
  induction xs with
  | nil => rfl
  | cons x xs ih => rw [ofItems, ih, List.map_cons]

theorem ofEntries_eq (es : List (String × Json)) :
    ofEntries es = es.map fun e => (some e.1, ofJson e.2) := by
  induction es with
  | nil => rfl
  | cons e es ih => rw [ofEntries, ih, List.map_cons]

/-! ### What is read -/

mutual

/-- A value that is read has distinct keys and is nested no deeper than allowed. -/
theorem within_of_value {d : ℕ} {v : Json} : ∀ doc : Doc, value d doc = some v → v.Within d
  | null, h => by
    cases h
    exact ⟨trivial, Nat.zero_le d⟩
  | bool b, h => by
    cases h
    exact ⟨trivial, Nat.zero_le d⟩
  | number n, h => by
    rw [value] at h
    obtain ⟨m, -, rfl⟩ := Option.map_eq_some_iff.1 h
    exact ⟨trivial, Nat.zero_le d⟩
  | string s, h => by
    rw [value] at h
    obtain ⟨m, -, rfl⟩ := Option.map_eq_some_iff.1 h
    exact ⟨trivial, Nat.zero_le d⟩
  | array xs, h => by
    cases d with
    | zero => cases h
    | succ d =>
      obtain ⟨vs, hvs, rfl⟩ := Option.map_eq_some_iff.1 h
      exact Json.within_array (within_of_valueItems xs hvs)
  | object es, h => by
    cases d with
    | zero => cases h
    | succ d =>
      obtain ⟨vs, hvs, rfl⟩ := Option.map_eq_some_iff.1 h
      obtain ⟨hkeys, hall⟩ := within_of_valueEntries es hvs
      exact Json.within_object hkeys hall

theorem within_of_valueItems {d : ℕ} {vs : List Json} :
    ∀ xs : List Doc, valueItems d xs = some vs → ∀ v ∈ vs, v.Within d
  | [], h => by
    cases h
    simp
  | x :: xs, h => by
    simp only [valueItems, Option.bind_eq_bind, Option.bind_eq_some_iff, Option.some.injEq] at h
    obtain ⟨v, hv, ws, hws, rfl⟩ := h
    exact List.forall_mem_cons.2 ⟨within_of_value x hv, within_of_valueItems xs hws⟩

theorem within_of_valueEntries {d : ℕ} {vs : List (String × Json)} :
    ∀ es : List (Option String × Doc), valueEntries d es = some vs →
      (vs.map Prod.fst).Nodup ∧ ∀ e ∈ vs, e.2.Within d
  | [], h => by
    cases h
    simp
  | (key, x) :: es, h => by
    simp only [valueEntries, Option.bind_eq_bind, Option.bind_eq_some_iff, Option.some.injEq] at h
    obtain ⟨key, -, v, hv, ws, hws, rfl⟩ := h
    obtain ⟨hkeys, hall⟩ := within_of_valueEntries es hws
    exact Json.consEntry_within (within_of_value x hv) hkeys hall

end

/-- A written value is read back, unless it is nested too deep. -/
theorem value_ofJson {v : Json} (hv : v.Wf) (d : ℕ) :
    value d (ofJson v) = if v.depth ≤ d then some v else none := by
  induction v using Json.induct generalizing d with
  | null => rfl
  | bool b => rfl
  | number n => rfl
  | string s => rfl
  | array xs ih =>
    cases d with
    | zero => simp [ofJson, value, Json.depth]
    | succ d =>
      have hitems : valueItems d (ofItems xs) =
          if Json.depthItems xs ≤ d then some xs else none := by
        have hwf := Json.wf_array.1 hv
        clear hv
        induction xs with
        | nil => rfl
        | cons x xs hxs =>
          rw [List.forall_mem_cons] at ih hwf
          simp only [ofItems, valueItems, ih.1 hwf.1, hxs ih.2 hwf.2, Json.depthItems, Nat.max_le]
          by_cases hx : x.depth ≤ d <;> by_cases hrest : Json.depthItems xs ≤ d <;>
            simp [hx, hrest]
      simp only [ofJson, value, hitems, Json.depth, Nat.add_le_add_iff_right]
      split_ifs <;> rfl
  | object es ih =>
    cases d with
    | zero => simp [ofJson, value, Json.depth]
    | succ d =>
      have hentries : valueEntries d (ofEntries es) =
          if Json.depthEntries es ≤ d then some es else none := by
        obtain ⟨hkeys, hwf⟩ := Json.wf_object.1 hv
        clear hv
        induction es with
        | nil => rfl
        | cons e es hes =>
          obtain ⟨key, x⟩ := e
          rw [List.forall_mem_cons] at ih hwf
          rw [List.map_cons, List.nodup_cons] at hkeys
          simp only [ofEntries, valueEntries, ih.1 hwf.1, hes ih.2 hkeys.2 hwf.2,
            Json.depthEntries, Nat.max_le]
          -- distinct keys are never overwritten, so no entry moves
          by_cases hx : x.depth ≤ d <;> by_cases hrest : Json.depthEntries es ≤ d <;>
            simp [hx, hrest, Json.consEntry_of_not_mem hkeys.1]
      simp only [ofJson, value, hentries, Json.depth, Nat.add_le_add_iff_right]
      split_ifs <;> rfl

end Doc

end SpycatcherHarness
