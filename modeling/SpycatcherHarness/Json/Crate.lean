import SpycatcherHarness.Json.Parse
import SpycatcherHarness.Text.Strings

/-!
# The JSON crate as a parameter

The source reads and writes JSON through `serde_json`.  `SerdeJson` stands for its two directions
on byte strings: a text is read as a document, of which the source asks for a value or for one of
its own types, and a value is written.  `SerdeJson.Lawful` says what is relied on: the document of a
value is read back from its text, except that a float may come back as another float.  That values
have distinct keys and containers nested at most 127 deep follows.

`SerdeJson.exact` is one such crate, made of `Json.write` and `Json.parseDoc`; it never rounds, and
skips nothing that it cannot read.
-/

namespace SpycatcherHarness

/-- How deep the crate lets containers be nested. -/
def maxDepth : ℕ := 127

namespace Json

/-- A value as it is read back: only floats may change. -/
inductive ReadBack : Json → Json → Prop
  | null : ReadBack null null
  | bool (b : Bool) : ReadBack (bool b) (bool b)
  | posInt (n : UInt64) : ReadBack (number (.posInt n)) (number (.posInt n))
  | negInt (m : Fin (2 ^ 63)) : ReadBack (number (.negInt m)) (number (.negInt m))
  | float (x y : Float64) : ReadBack (number (.float x)) (number (.float y))
  | string (s : String) : ReadBack (string s) (string s)
  | array {xs ys : List Json} : List.Forall₂ ReadBack xs ys → ReadBack (array xs) (array ys)
  | object {es fs : List (String × Json)} : es.map Prod.fst = fs.map Prod.fst →
      List.Forall₂ ReadBack (es.map Prod.snd) (fs.map Prod.snd) → ReadBack (object es) (object fs)

theorem ReadBack.refl (v : Json) : ReadBack v v := by
  have hall : ∀ xs : List Json, (∀ x ∈ xs, ReadBack x x) → List.Forall₂ ReadBack xs xs :=
    fun xs h => List.forall₂_same.2 h
  induction v using induct with
  | null => exact .null
  | bool b => exact .bool b
  | number n => cases n <;> constructor
  | string s => exact .string s
  | array xs ih => exact .array (hall xs ih)
  | object es ih => exact .object rfl (hall _ (by simpa using fun v k h => ih (k, v) h))

/-- Reading back keeps keys distinct, and keeps the nesting. -/
theorem ReadBack.wf_depth {v : Json} : ∀ {w : Json}, ReadBack v w →
    (w.Wf ↔ v.Wf) ∧ w.depth = v.depth := by
  induction v using induct with
  | null => rintro w ⟨⟩; exact ⟨.rfl, rfl⟩
  | bool b => rintro w ⟨⟩; exact ⟨.rfl, rfl⟩
  | number n => intro w h; cases h <;> exact ⟨.rfl, rfl⟩
  | string s => rintro w ⟨⟩; exact ⟨.rfl, rfl⟩
  | array xs ih =>
    rintro w ⟨⟩
    rename_i ys hall
    have hitems : (WfItems ys ↔ WfItems xs) ∧ depthItems ys = depthItems xs := by
      induction hall with
      | nil => exact ⟨.rfl, rfl⟩
      | cons hxy hall hrest =>
        rw [List.forall_mem_cons] at ih
        obtain ⟨hwf, hdepth⟩ := ih.1 hxy
        obtain ⟨hwf', hdepth'⟩ := hrest ih.2
        exact ⟨and_congr hwf hwf', by rw [depthItems, depthItems, hdepth, hdepth']⟩
    exact ⟨hitems.1, congrArg (· + 1) hitems.2⟩
  | object es ih =>
    rintro w ⟨⟩
    rename_i fs hkeys hall
    have hentries : (WfEntries fs ↔ WfEntries es) ∧ depthEntries fs = depthEntries es := by
      clear hkeys
      induction es generalizing fs with
      | nil =>
        obtain rfl : fs = [] := by simpa using hall
        exact ⟨.rfl, rfl⟩
      | cons e es hrest =>
        cases fs with
        | nil => simp at hall
        | cons f fs =>
          obtain ⟨key, x⟩ := e
          obtain ⟨key', y⟩ := f
          rw [List.forall_mem_cons] at ih
          obtain ⟨hxy, hall⟩ := List.forall₂_cons.1 hall
          obtain ⟨hwf, hdepth⟩ := ih.1 hxy
          obtain ⟨hwf', hdepth'⟩ := hrest ih.2 hall
          exact ⟨and_congr hwf hwf', by rw [depthEntries, depthEntries, hdepth, hdepth']⟩
    refine ⟨?_, congrArg (· + 1) hentries.2⟩
    rw [Wf, Wf, hkeys, hentries.1]

end Json

/-- `serde_json`, on byte strings. -/
structure SerdeJson where
  /-- The document that a text is, if it is well formed. -/
  read : Bytes → Option Doc
  /-- `to_writer_pretty`. -/
  toWriterPretty : Json → Bytes

namespace SerdeJson

/-- `from_slice`, for a value. -/
def fromSlice (S : SerdeJson) (bytes : Bytes) : Option Json :=
  (S.read bytes).bind (Doc.value maxDepth)

/-- `from_str`, for a value. -/
def fromStr (S : SerdeJson) (s : String) : Option Json := S.fromSlice (Str.asBytes s)

/-- A value that is read has distinct keys, and containers nested at most 127 deep. -/
theorem within_of_fromSlice {S : SerdeJson} {bytes : Bytes} {v : Json}
    (h : S.fromSlice bytes = some v) : v.Within maxDepth := by
  obtain ⟨doc, -, hvalue⟩ := Option.bind_eq_some_iff.1 h
  exact Doc.within_of_value doc hvalue

/-- What is relied on: the document of a value is read back from the text that is written. -/
structure Lawful (S : SerdeJson) : Prop where
  readBack : ∀ v : Json, v.Wf →
    ∃ w, S.read (S.toWriterPretty v) = some (.ofJson w) ∧ Json.ReadBack v w

/-- The crate that reads and writes exactly. -/
def exact : SerdeJson where
  read bs := (Utf8.decode bs).bind Json.parseDoc
  toWriterPretty v := Utf8.encode (Json.write Json.pretty 0 v)

theorem exact_read_toWriterPretty (v : Json) :
    exact.read (exact.toWriterPretty v) = some (.ofJson v) := by
  simp [exact, Json.parseDoc_write]

/-- The exact crate reads back what it writes. -/
theorem exact_reads {v : Json} (hv : v.Wf) (hd : v.depth ≤ maxDepth) :
    exact.fromSlice (exact.toWriterPretty v) = some v := by
  rw [fromSlice, exact_read_toWriterPretty, Option.bind_some, Doc.value_ofJson hv, if_pos hd]

theorem exact_lawful : exact.Lawful where
  readBack v _ := ⟨v, exact_read_toWriterPretty v, .refl v⟩

end SerdeJson

end SpycatcherHarness
