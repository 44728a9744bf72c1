import SpycatcherHarness.Cassette.Canonical.Body
import SpycatcherHarness.Text.Strings

/-!
# Summaries of what differs between two requests

A mismatch carries a summary of how the expected and the observed canonical request differ: one
line for each field that was added, removed or changed.  Values are compared as the JSON crate
compares them (`Json.valueEq`): objects by key, whatever the order, and floats as numbers, so that
the two zeros are equal.
-/

namespace SpycatcherHarness

/-! ### Equality of values -/

/-- `==` on floats. -/
def Float64.valueEq (x y : Float64) : Bool :=
  x.digits == y.digits && (x.negative == y.negative || x.digits == "0.0")

/-- `==` on numbers. -/
def Number.valueEq : Number → Number → Bool
  | .posInt m, .posInt n => m == n
  | .negInt m, .negInt n => m == n
  | .float x, .float y => x.valueEq y
  | _, _ => false

namespace Json

mutual

/-- `==` on values. -/
def valueEq : Json → Json → Bool
  | null, null => true
  | bool b, bool c => b == c
  | number m, number n => m.valueEq n
  | string s, string t => s == t
  | array xs, array ys => valueEqItems xs ys
  | object es, object fs => es.length == fs.length && valueEqEntries es fs
  | _, _ => false

def valueEqItems : List Json → List Json → Bool
  | [], [] => true
  | x :: xs, y :: ys => valueEq x y && valueEqItems xs ys
  | _, _ => false

/-- Every entry has its equal under the same key. -/
def valueEqEntries : List (String × Json) → List (String × Json) → Bool
  | [], _ => true
  | (k, v) :: es, fs =>
    (match lookup k fs with
      | some w => valueEq v w
      | none => false) && valueEqEntries es fs

end

end Json

namespace Diff

/-- `compact_value_string`. -/
def compactValueString : Json → String
  | .string s => String.ofList (Json.quote s)
  | .number n => n.toText
  | .bool b => toString b
  | .null => "null"
  | .array _ => "[...]"
  | .object _ => "\x7b...\x7d"

/-- `format_path`. -/
def formatPath (pre segment : String) : String :=
  if pre.isEmpty then segment
  else if (Str.stripPrefix '[' segment).isSome then pre ++ segment
  else pre ++ "." ++ segment

/-- The segment of an array index. -/
def indexSegment (i : ℕ) : String := "[" ++ toString i ++ "]"

/-- `diff_scalar_or_type_mismatch`. -/
def diffScalarOrTypeMismatch (expected observed : Json) (path : String) : String :=
  let displayPath := if path.isEmpty then "(root)" else path
  "changed: " ++ displayPath ++ ": " ++ compactValueString expected ++ " -> " ++
    compactValueString observed

def removed (path : String) : String := "removed: " ++ path

def added (path : String) (value : Json) : String :=
  "added: " ++ path ++ ": " ++ compactValueString value

/-- Entries in the order of their keys. -/
def byKey (es : List (String × Json)) : List (String × Json) := es.insertionSort Canonical.EntryLe

/-- The first two loops of `diff_objects`: keys on one side only. -/
def diffKeys (expected observed : List (String × Json)) (path : String) : List String :=
  ((byKey expected).filterMap fun e =>
      if (Json.lookup e.1 observed).isSome then none else some (removed (formatPath path e.1))) ++
    (byKey observed).filterMap fun e =>
      if (Json.lookup e.1 expected).isSome then none
      else some (added (formatPath path e.1) e.2)

/-- Changes under a key, sorted by it. -/
def concatByKey (changes : List (String × List String)) : List String :=
  (changes.insertionSort fun a b => a.1 ≤ b.1).flatMap Prod.snd

mutual

/-- `diff_recursive`.  The third loop of `diff_objects`, over the keys on both sides, sorts its
changes afterwards. -/
def diffRecursive : Json → Json → String → List String
  | .object expected, .object observed, path =>
    diffKeys expected observed path ++ concatByKey (diffShared expected observed path)
  | .array expected, .array observed, path => diffArrays expected observed path 0
  | expected, observed, path => [diffScalarOrTypeMismatch expected observed path]

/-- The changes under each key that both sides have. -/
def diffShared : List (String × Json) → List (String × Json) → String →
    List (String × List String)
  | [], _, _ => []
  | (key, v) :: expected, observed, path =>
    match Json.lookup key observed with
    | some w =>
      (key, if v.valueEq w then [] else diffRecursive v w (formatPath path key)) ::
        diffShared expected observed path
    | none => diffShared expected observed path

/-- `diff_arrays`, from an index on. -/
def diffArrays : List Json → List Json → String → ℕ → List String
  | [], observed, path, i =>
    (observed.zipIdx i).map fun (w, j) => added (formatPath path (indexSegment j)) w
  | _ :: expected, [], path, i =>
    removed (formatPath path (indexSegment i)) :: diffArrays expected [] path (i + 1)
  | v :: expected, w :: observed, path, i =>
    (if v.valueEq w then [] else diffRecursive v w (formatPath path (indexSegment i))) ++
      diffArrays expected observed path (i + 1)

end

/-- `canonical_diff_summary`. -/
def canonicalDiffSummary (expected observed : Json) : String :=
  "\n".intercalate (diffRecursive expected observed "")

example : canonicalDiffSummary (.object [("method", .string "POST"), ("n", .null)])
    (.object [("n", .array []), ("id", .bool true), ("method", .string "POST")]) =
      "added: id: true\nchanged: n: null -> [...]" := by decide +kernel

/-! ### What a summary looks like -/

/-- The line says what kind of change it is about. -/
def Labelled (line : String) : Prop :=
  ∃ label ∈ ["added: ", "removed: ", "changed: "], ∃ rest : String, line = label ++ rest

theorem labelled_added (path : String) (value : Json) : Labelled (added path value) :=
  ⟨"added: ", by simp, path ++ ": " ++ compactValueString value, by
    simp [added, String.append_assoc]⟩

theorem labelled_removed (path : String) : Labelled (removed path) :=
  ⟨"removed: ", by simp, path, rfl⟩

theorem labelled_diffScalarOrTypeMismatch (expected observed : Json) (path : String) :
    Labelled (diffScalarOrTypeMismatch expected observed path) :=
  ⟨"changed: ", by simp, _, by
    simp only [diffScalarOrTypeMismatch, String.append_assoc]; rfl⟩

theorem labelled_diffKeys {expected observed : List (String × Json)} {path line : String}
    (h : line ∈ diffKeys expected observed path) : Labelled line := by
  simp only [diffKeys, List.mem_append, List.mem_filterMap] at h
  rcases h with ⟨e, -, he⟩ | ⟨e, -, he⟩
  · split_ifs at he
    cases he
    exact labelled_removed _
  · split_ifs at he
    cases he
    exact labelled_added _ _

theorem mem_concatByKey {changes : List (String × List String)} {line : String}
    (h : line ∈ concatByKey changes) : ∃ change ∈ changes, line ∈ change.2 := by
  obtain ⟨change, hmem, hline⟩ := List.mem_flatMap.1 h
  exact ⟨change, (List.mem_insertionSort _).1 hmem, hline⟩

mutual

/-- Every line of a summary is labelled. -/
theorem labelled_diffRecursive (expected observed : Json) (path : String) :
    ∀ line ∈ diffRecursive expected observed path, Labelled line := by
  unfold diffRecursive
  split
  · rename_i es fs
    intro line h
    rcases List.mem_append.1 h with h | h
    · exact labelled_diffKeys h
    · obtain ⟨change, hchange, hline⟩ := mem_concatByKey h
      exact labelled_diffShared es fs path change hchange line hline
  · exact labelled_diffArrays _ _ path 0
  · rintro line h
    rw [List.mem_singleton.1 h]
    exact labelled_diffScalarOrTypeMismatch _ _ _

theorem labelled_diffShared (expected observed : List (String × Json)) (path : String) :
    ∀ change ∈ diffShared expected observed path, ∀ line ∈ change.2, Labelled line := by
  match expected with
  | [] => simp [diffShared]
  | (key, v) :: expected =>
    unfold diffShared
    split
    · rename_i w _
      rw [List.forall_mem_cons]
      refine ⟨?_, labelled_diffShared expected observed path⟩
      intro line h
      dsimp only at h
      split_ifs at h
      · simp at h
      · exact labelled_diffRecursive v w _ line h
    · exact labelled_diffShared expected observed path

theorem labelled_diffArrays (expected observed : List Json) (path : String) (i : ℕ) :
    ∀ line ∈ diffArrays expected observed path i, Labelled line := by
  match expected, observed with
  | [], observed =>
    intro line h
    obtain ⟨⟨w, j⟩, -, rfl⟩ := List.mem_map.1 (by simpa only [diffArrays] using h)
    exact labelled_added _ _
  | _ :: expected, [] =>
    simp only [diffArrays, List.forall_mem_cons]
    exact ⟨labelled_removed _, labelled_diffArrays expected [] path (i + 1)⟩
  | v :: expected, w :: observed =>
    intro line h
    rw [diffArrays, List.mem_append] at h
    rcases h with h | h
    · split_ifs at h
      · simp at h
      · exact labelled_diffRecursive v w _ line h
    · exact labelled_diffArrays expected observed path (i + 1) line h

end

/-- A summary is empty or starts with a label. -/
theorem labelled_canonicalDiffSummary (expected observed : Json) :
    canonicalDiffSummary expected observed = "" ∨
      Labelled (canonicalDiffSummary expected observed) := by
  have hlines := labelled_diffRecursive expected observed ""
  unfold canonicalDiffSummary
  cases hdiff : diffRecursive expected observed "" with
  | nil => exact .inl rfl
  | cons line lines =>
    rw [hdiff, List.forall_mem_cons] at hlines
    obtain ⟨label, hlabel, rest, rfl⟩ := hlines.1
    refine .inr ⟨label, hlabel, ?_⟩
    cases lines with
    | nil => exact ⟨rest, by simp⟩
    | cons next lines => exact ⟨rest ++ "\n" ++ "\n".intercalate (next :: lines), by
        simp [String.append_assoc]⟩

end Diff

end SpycatcherHarness
