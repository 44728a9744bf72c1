import SpycatcherHarness.Json.Doc
import SpycatcherHarness.Json.Text

/-!
# Parsing JSON texts

`Json.parseDoc` reads a text as a document, by recursive descent, and `Json.parse` reads the
document as a value, with a bound on how deep containers may be nested.

* `Json.parseDoc_write` : each text of a value is read as the document of the value.
* `Json.parse_write` : a value that is not nested too deep is read back from each of its texts.
* `Json.write_injective` : the text of a value determines it.
-/

namespace SpycatcherHarness

open NumberText

namespace Json

/-! ### Parsing -/

/-- Skip white space. -/
def skipSpace (cs : List Char) : List Char := cs.dropWhile isSpace

/-- Read a number: all the characters that numbers are made of. -/
def readNumber (cs : List Char) : Option (Number × List Char) :=
  (Number.ofText (cs.takeWhile isNumberChar)).map fun n => (n, cs.dropWhile isNumberChar)

mutual

/-- Read a document. -/
def readValue : ℕ → List Char → Option (Doc × List Char)
  | 0, _ => none
  | n + 1, cs =>
    match skipSpace cs with
    | 'n' :: 'u' :: 'l' :: 'l' :: rest => some (.null, rest)
    | 't' :: 'r' :: 'u' :: 'e' :: rest => some (.bool true, rest)
    | 'f' :: 'a' :: 'l' :: 's' :: 'e' :: rest => some (.bool false, rest)
    | '"' :: rest => (readString rest).map fun r => (.string (some (String.ofList r.1)), r.2)
    | '[' :: rest =>
      match skipSpace rest with
      | ']' :: rest' => some (.array [], rest')
      | rest' =>
        match readValue n rest' with
        | none => none
        | some (x, more) => (readItems n more).map fun r => (.array (x :: r.1), r.2)
    | '{' :: rest =>
      match skipSpace rest with
      | '}' :: rest' => some (.object [], rest')
      | rest' =>
        match readEntry n rest' with
        | none => none
        | some (e, more) => (readEntries n more).map fun r => (.object (e :: r.1), r.2)
    | rest => (readNumber rest).map fun r => (.number (some r.1), r.2)
termination_by structural n => n

/-- Read the items behind the first one, and the closing bracket. -/
def readItems : ℕ → List Char → Option (List Doc × List Char)
  | 0, _ => none
  | n + 1, cs =>
    match skipSpace cs with
    | ']' :: rest => some ([], rest)
    | ',' :: rest =>
      match readValue n rest with
      | none => none
      | some (x, more) => (readItems n more).map fun r => (x :: r.1, r.2)
    | _ => none

/-- Read a key, a colon and a document. -/
def readEntry : ℕ → List Char → Option ((Option String × Doc) × List Char)
  | 0, _ => none
  | n + 1, cs =>
    match skipSpace cs with
    | '"' :: rest =>
      match readString rest with
      | none => none
      | some (key, more) =>
        match skipSpace more with
        | ':' :: more' => (readValue n more').map fun r => ((some (String.ofList key), r.1), r.2)
        | _ => none
    | _ => none

/-- Read the entries behind the first one, and the closing bracket. -/
def readEntries : ℕ → List Char → Option (List (Option String × Doc) × List Char)
  | 0, _ => none
  | n + 1, cs =>
    match skipSpace cs with
    | '}' :: rest => some ([], rest)
    | ',' :: rest =>
      match readEntry n rest with
      | none => none
      | some (e, more) => (readEntries n more).map fun r => (e :: r.1, r.2)
    | _ => none

end

/-- Read a text that is one document. -/
def parseDoc (cs : List Char) : Option Doc :=
  match readValue (2 * cs.length + 2) cs with
  | some (doc, rest) => if skipSpace rest = [] then some doc else none
  | none => none

/-- Read a text that is one value, with containers nested at most `d` deep. -/
def parse (d : ℕ) (cs : List Char) : Option Json := (parseDoc cs).bind (Doc.value d)

/-! ### Reading back what was written -/

theorem skipSpace_append {ws : List Char} (h : ∀ c ∈ ws, isSpace c = true) (cs : List Char) :
    skipSpace (ws ++ cs) = skipSpace cs := List.dropWhile_append_of_pos h

theorem skipSpace_cons {c : Char} (h : isSpace c = false) (cs : List Char) :
    skipSpace (c :: cs) = c :: cs := List.dropWhile_cons_of_neg (by simp [h])

theorem isSpace_of_head_toText {c : Char} (h : c.isDigit = true ∨ c = '-') :
    isSpace c = false := by
  refine Bool.eq_false_iff.2 fun hs => ?_
  simp only [isSpace, Bool.or_eq_true, beq_iff_eq] at hs
  rcases hs with ((rfl | rfl) | rfl) | rfl <;> revert h <;> decide

/-- What may follow a number. -/
def Ends (rest : List Char) : Prop := ∀ c ∈ rest.head?, isNumberChar c = false

theorem ends_cons {c : Char} (h : isNumberChar c = false) (cs : List Char) : Ends (c :: cs) := by
  simpa [Ends] using h

theorem ends_append {ws rest : List Char} (h : ∀ c ∈ ws, isSpace c = true) (hr : Ends rest) :
    Ends (ws ++ rest) := by
  cases ws with
  | nil => exact hr
  | cons c ws =>
    refine ends_cons ?_ _
    have hc := h c List.mem_cons_self
    simp only [isSpace, Bool.or_eq_true, beq_iff_eq] at hc
    rcases hc with ((rfl | rfl) | rfl) | rfl <;> decide

theorem readNumber_toText (n : Number) {rest : List Char} (h : Ends rest) :
    readNumber (n.toText.toList ++ rest) = some (n, rest) := by
  have hall := n.isNumberChar_toText
  have htake : (n.toText.toList ++ rest).takeWhile isNumberChar = n.toText.toList := by
    rw [List.takeWhile_append_of_pos hall]
    cases rest with
    | nil => simp
    | cons c cs => rw [List.takeWhile_cons_of_neg (by simpa [Ends] using h)]; simp
  have hdrop : (n.toText.toList ++ rest).dropWhile isNumberChar = rest := by
    rw [List.dropWhile_append_of_pos hall]
    cases rest with
    | nil => rfl
    | cons c cs => exact List.dropWhile_cons_of_neg (by simpa [Ends] using h)
  simp [readNumber, htake, hdrop, Number.ofText_toText]

variable (L : Layout)

/-- No text of a value starts with white space or a closing bracket. -/
theorem exists_head_write (k : ℕ) (v : Json) :
    ∃ c cs, write L k v = c :: cs ∧ isSpace c = false ∧ c ≠ ']' ∧ c ≠ '}' := by
  cases v with
  | null => exact ⟨_, _, rfl, by decide⟩
  | bool b => cases b <;> exact ⟨_, _, rfl, by decide⟩
  | number n =>
    obtain ⟨c, cs, hc, hh⟩ := n.exists_head_toText
    refine ⟨c, cs, hc, isSpace_of_head_toText hh, ?_, ?_⟩ <;>
      (rintro rfl; revert hh; decide)
  | string s => exact ⟨_, _, rfl, by decide⟩
  | array xs => cases xs <;> exact ⟨_, _, rfl, by decide⟩
  | object es => rcases es with _ | ⟨⟨k, v⟩, es⟩ <;> exact ⟨_, _, rfl, by decide⟩

/-- Reading the text of a value gives its document. -/
def Reads (v : Json) : Prop :=
  ∀ (n k : ℕ) (ws rest : List Char), 2 * (write L k v).length + 1 ≤ n →
    (∀ c ∈ ws, isSpace c = true) → Ends rest →
      readValue n (ws ++ (write L k v ++ rest)) = some (.ofJson v, rest)

theorem skipSpace_write (k : ℕ) (v : Json) {ws : List Char} (hws : ∀ c ∈ ws, isSpace c = true)
    (rest : List Char) : skipSpace (ws ++ (write L k v ++ rest)) = write L k v ++ rest := by
  obtain ⟨c, cs, hc, hspace, -⟩ := exists_head_write L k v
  rw [skipSpace_append hws, hc, List.cons_append, skipSpace_cons hspace]

/-- A digit or a minus sign starts a number. -/
theorem readValue_number {n : ℕ} {cs more : List Char} {c : Char}
    (h : skipSpace cs = c :: more) (hc : c.isDigit = true ∨ c = '-') :
    readValue (n + 1) cs = (readNumber (c :: more)).map fun r => (.number (some r.1), r.2) := by
  simp only [readValue, h]
  split
  all_goals first
    | rfl
    | (rename_i heq
       injection heq with hhead _
       subst hhead
       exact absurd hc (by decide))

theorem readValue_array {n : ℕ} {cs rest more : List Char} {c : Char}
    (h : skipSpace cs = '[' :: rest) (hr : skipSpace rest = c :: more) (hc : c ≠ ']') :
    readValue (n + 1) cs =
      match readValue n (c :: more) with
      | none => none
      | some (x, more) => (readItems n more).map fun r => (.array (x :: r.1), r.2) := by
  simp only [readValue, h, hr]
  split
  · rename_i heq; injection heq with hhead _; exact absurd hhead hc
  · rfl

theorem readValue_object {n : ℕ} {cs rest more : List Char} {c : Char}
    (h : skipSpace cs = '{' :: rest) (hr : skipSpace rest = c :: more) (hc : c ≠ '}') :
    readValue (n + 1) cs =
      match readEntry n (c :: more) with
      | none => none
      | some (e, more) => (readEntries n more).map fun r => (.object (e :: r.1), r.2) := by
  simp only [readValue, h, hr]
  split
  · rename_i heq; injection heq with hhead _; exact absurd hhead hc
  · rfl

theorem reads_number (m : Number) : Reads L (number m) := by
  intro n k ws rest hn hws hends
  obtain ⟨n, rfl⟩ : ∃ i, n = i + 1 := ⟨n - 1, by omega⟩
  obtain ⟨c, cs, hc, hh⟩ := m.exists_head_toText
  have hskip := skipSpace_write L k (number m) hws rest
  have hread := readNumber_toText m hends
  simp only [write, hc, List.cons_append] at hskip hread
  simp only [write, hc, List.cons_append]
  rw [readValue_number hskip hh, hread]
  rfl

theorem reads_string (s : String) : Reads L (string s) := by
  intro n k ws rest hn hws hends
  obtain ⟨n, rfl⟩ : ∃ i, n = i + 1 := ⟨n - 1, by omega⟩
  have hskip := skipSpace_write L k (string s) hws rest
  simp only [write, quote, List.cons_append, List.append_assoc, List.nil_append] at hskip ⊢
  simp [readValue, hskip, readString_escape, Doc.ofJson]

/-- What follows a list of items or entries cannot go on with a number. -/
theorem ends_closing {ws : List Char} (hws : ∀ c ∈ ws, isSpace c = true) {c : Char}
    (hc : isNumberChar c = false) (rest : List Char) : Ends (ws ++ c :: rest) :=
  ends_append hws (ends_cons hc rest)

theorem ends_writeItems (k : ℕ) (xs : List Json) {rest : List Char} (h : Ends rest) :
    Ends (writeItems L k xs ++ rest) := by
  cases xs with
  | nil => exact h
  | cons x xs => exact ends_cons (by decide) _

theorem ends_writeEntries (k : ℕ) (es : List (String × Json)) {rest : List Char} (h : Ends rest) :
    Ends (writeEntries L k es ++ rest) := by
  rcases es with _ | ⟨⟨key, v⟩, es⟩
  · exact h
  · exact ends_cons (by decide) _

/-- The items behind the first one are read back, up to the closing bracket. -/
theorem readItems_writeItems {xs : List Json} (hxs : ∀ x ∈ xs, Reads L x) :
    ∀ (n k : ℕ) (ws rest : List Char), 2 * (writeItems L k xs).length + 1 ≤ n →
      (∀ c ∈ ws, isSpace c = true) →
        readItems n (writeItems L k xs ++ (ws ++ ']' :: rest)) = some (Doc.ofItems xs, rest) := by
  induction xs with
  | nil =>
    intro n k ws rest hn hws
    obtain ⟨n, rfl⟩ : ∃ i, n = i + 1 := ⟨n - 1, by omega⟩
    have hskip : skipSpace (ws ++ ']' :: rest) = ']' :: rest := by
      rw [skipSpace_append hws, skipSpace_cons (by decide)]
    simp [writeItems, readItems, hskip, Doc.ofItems]
  | cons x xs ih =>
    intro n k ws rest hn hws
    obtain ⟨n, rfl⟩ : ∃ i, n = i + 1 := ⟨n - 1, by omega⟩
    simp only [writeItems, List.length_cons, List.length_append] at hn
    have hskip : ∀ cs, skipSpace (',' :: cs) = ',' :: cs := skipSpace_cons (by decide)
    have hends := ends_writeItems L k xs (ends_closing hws (c := ']') (by decide) rest)
    have hx := hxs x List.mem_cons_self n k (L.lineBreak k)
      (writeItems L k xs ++ (ws ++ ']' :: rest)) (by omega) (L.lineBreak_space k) hends
    have htail := ih (fun y hy => hxs y (List.mem_cons_of_mem _ hy)) n k ws rest (by omega) hws
    simp only [writeItems, List.cons_append, List.append_assoc, readItems, hskip] at hx ⊢
    simp only [hx, htail, Option.map_some, Doc.ofItems]

theorem reads_array {xs : List Json} (hxs : ∀ x ∈ xs, Reads L x) : Reads L (array xs) := by
  intro n k ws rest hn hws hends
  obtain ⟨n, rfl⟩ : ∃ i, n = i + 1 := ⟨n - 1, by omega⟩
  have hskip := skipSpace_write L k (array xs) hws rest
  cases xs with
  | nil =>
    simp only [write, List.cons_append, List.nil_append] at hskip ⊢
    have hclose : skipSpace (']' :: rest) = ']' :: rest := skipSpace_cons (by decide) rest
    simp [readValue, hskip, hclose, Doc.ofJson, Doc.ofItems]
  | cons x xs =>
    simp only [write, List.length_cons, List.length_append] at hn
    have hends' := ends_writeItems L (k + 1) xs
      (ends_closing (L.lineBreak_space k) (c := ']') (by decide) rest)
    -- the first item is not mistaken for the closing bracket
    obtain ⟨c, cs, hc, -, hbracket, -⟩ := exists_head_write L (k + 1) x
    have hopen : ∀ tail, skipSpace (L.lineBreak (k + 1) ++ (write L (k + 1) x ++ tail)) =
        c :: (cs ++ tail) := by
      intro tail
      rw [skipSpace_write L (k + 1) x (L.lineBreak_space (k + 1)), hc, List.cons_append]
    simp only [write, List.cons_append, List.append_assoc, List.nil_append] at hskip ⊢
    -- the first item is read by itself, the items behind it by `readItems`
    have hx := hxs x List.mem_cons_self n (k + 1) [] _ (by omega) (by simp) hends'
    have htail := readItems_writeItems L (fun y hy => hxs y (List.mem_cons_of_mem _ hy)) n
      (k + 1) (L.lineBreak k) rest (by omega) (L.lineBreak_space k)
    rw [List.nil_append, hc, List.cons_append] at hx
    rw [readValue_array hskip (hopen _) hbracket, hx]
    simp only [htail, Option.map_some, Doc.ofJson, Doc.ofItems]

/-- An entry is read back. -/
theorem readEntry_write {s : String} {v : Json} (hv : Reads L v) {n k : ℕ}
    {ws rest : List Char} (hn : 2 * (write L k v).length + 2 ≤ n)
    (hws : ∀ c ∈ ws, isSpace c = true) (hends : Ends rest) :
    readEntry n (ws ++ (quote s ++ ':' :: (L.afterColon ++ (write L k v ++ rest)))) =
      some ((some s, .ofJson v), rest) := by
  obtain ⟨n, rfl⟩ : ∃ i, n = i + 1 := ⟨n - 1, by omega⟩
  have hskip : ∀ cs, skipSpace (ws ++ '"' :: cs) = '"' :: cs := fun cs => by
    rw [skipSpace_append hws, skipSpace_cons (by decide)]
  have hcolon : ∀ cs, skipSpace (':' :: cs) = ':' :: cs := skipSpace_cons (by decide)
  have hvalue := hv n k L.afterColon rest (by omega) L.afterColon_space hends
  simp only [quote, List.cons_append, List.append_assoc, List.nil_append, readEntry, hskip,
    readString_escape, hcolon, hvalue, Option.map_some, String.ofList_toList]

/-- The entries behind the first one are read back, up to the closing bracket. -/
theorem readEntries_writeEntries {es : List (String × Json)} (hes : ∀ e ∈ es, Reads L e.2) :
    ∀ (n k : ℕ) (ws rest : List Char), 2 * (writeEntries L k es).length + 1 ≤ n →
      (∀ c ∈ ws, isSpace c = true) →
        readEntries n (writeEntries L k es ++ (ws ++ '}' :: rest)) =
          some (Doc.ofEntries es, rest) := by
  induction es with
  | nil =>
    intro n k ws rest hn hws
    obtain ⟨n, rfl⟩ : ∃ i, n = i + 1 := ⟨n - 1, by omega⟩
    have hskip : skipSpace (ws ++ '}' :: rest) = '}' :: rest := by
      rw [skipSpace_append hws, skipSpace_cons (by decide)]
    simp [writeEntries, readEntries, hskip, Doc.ofEntries]
  | cons e es ih =>
    obtain ⟨key, v⟩ := e
    intro n k ws rest hn hws
    obtain ⟨n, rfl⟩ : ∃ i, n = i + 1 := ⟨n - 1, by omega⟩
    simp only [writeEntries, quote, List.length_cons, List.length_append] at hn
    have hskip : ∀ cs, skipSpace (',' :: cs) = ',' :: cs := skipSpace_cons (by decide)
    have hends := ends_writeEntries L k es (ends_closing hws (c := '}') (by decide) rest)
    have hentry := readEntry_write L (s := key) (v := v) (hes (key, v) List.mem_cons_self)
      (n := n) (k := k) (by omega) (L.lineBreak_space k) hends
    have htail := ih (fun e he => hes e (List.mem_cons_of_mem _ he)) n k ws rest (by omega) hws
    simp only [writeEntries, List.cons_append, List.append_assoc, readEntries, hskip] at hentry ⊢
    simp only [hentry, htail, Option.map_some, Doc.ofEntries]

theorem reads_object {es : List (String × Json)} (hes : ∀ e ∈ es, Reads L e.2) :
    Reads L (object es) := by
  intro n k ws rest hn hws hends
  obtain ⟨n, rfl⟩ : ∃ i, n = i + 1 := ⟨n - 1, by omega⟩
  have hskip := skipSpace_write L k (object es) hws rest
  rcases es with _ | ⟨⟨key, v⟩, es⟩
  · simp only [write, List.cons_append, List.nil_append] at hskip ⊢
    have hclose : skipSpace ('}' :: rest) = '}' :: rest := skipSpace_cons (by decide) rest
    simp [readValue, hskip, hclose, Doc.ofJson, Doc.ofEntries]
  · simp only [write, quote, List.length_cons, List.length_append] at hn
    have hends' := ends_writeEntries L (k + 1) es
      (ends_closing (L.lineBreak_space k) (c := '}') (by decide) rest)
    have hopen : ∀ tail, skipSpace (L.lineBreak (k + 1) ++ (quote key ++ tail)) =
        '"' :: (key.toList.flatMap escapeChar ++ ['"'] ++ tail) := by
      intro tail
      rw [skipSpace_append (L.lineBreak_space (k + 1)), quote, List.cons_append,
        skipSpace_cons (by decide)]
    simp only [write, List.cons_append, List.append_assoc, List.nil_append] at hskip ⊢
    have hentry := readEntry_write L (s := key) (v := v) (hes (key, v) List.mem_cons_self)
      (n := n) (k := k + 1) (by omega) (List.forall_mem_nil (isSpace · = true)) hends'
    have htail := readEntries_writeEntries L (fun e he => hes e (List.mem_cons_of_mem _ he))
      n (k + 1) (L.lineBreak k) rest (by omega) (L.lineBreak_space k)
    rw [readValue_object hskip (hopen _) (by decide)]
    simp only [List.nil_append, quote, List.cons_append, List.append_assoc] at hentry ⊢
    simp only [hentry, htail, Option.map_some, Doc.ofJson, Doc.ofEntries]

theorem reads_null : Reads L null := by
  intro n k ws rest hn hws hends
  obtain ⟨n, rfl⟩ : ∃ i, n = i + 1 := ⟨n - 1, by omega⟩
  have hskip := skipSpace_write L k null hws rest
  simp only [write, List.cons_append, List.nil_append] at hskip ⊢
  simp [readValue, hskip, Doc.ofJson]

theorem reads_bool (b : Bool) : Reads L (bool b) := by
  intro n k ws rest hn hws hends
  obtain ⟨n, rfl⟩ : ∃ i, n = i + 1 := ⟨n - 1, by omega⟩
  have hskip := skipSpace_write L k (bool b) hws rest
  cases b <;>
    (simp only [write, List.cons_append, List.nil_append] at hskip ⊢
     simp [readValue, hskip, Doc.ofJson])

/-- The document of every value is read back from the value's text. -/
theorem reads (v : Json) : Reads L v := by
  induction v using induct with
  | null => exact reads_null L
  | bool b => exact reads_bool L b
  | number n => exact reads_number L n
  | string s => exact reads_string L s
  | array xs ih => exact reads_array L ih
  | object es ih => exact reads_object L ih

/-- Each text of a value is read as the document of the value. -/
theorem parseDoc_write (v : Json) (k : ℕ) : parseDoc (write L k v) = some (.ofJson v) := by
  have hread := reads L v (2 * (write L k v).length + 2) k [] [] (by omega) (by simp)
    (by simp [Ends])
  simp only [List.nil_append, List.append_nil] at hread
  rw [parseDoc, hread]
  simp [skipSpace]

/-- Parsing the text of a value gives the value, unless it is nested too deep. -/
theorem parse_write_eq {v : Json} (hv : v.Wf) (d k : ℕ) :
    parse d (write L k v) = if v.depth ≤ d then some v else none := by
  rw [parse, parseDoc_write, Option.bind_some, Doc.value_ofJson hv]

/-- A value that is not nested too deep is read back from each of its texts. -/
theorem parse_write {v : Json} {d : ℕ} (hv : v.Wf) (hd : v.depth ≤ d) (k : ℕ) :
    parse d (write L k v) = some v := by
  rw [parse_write_eq L hv, if_pos hd]

/-- The text of a value determines it. -/
theorem write_injective {v w : Json} (hv : v.Wf) (hw : w.Wf) {k : ℕ}
    (h : write L k v = write L k w) : v = w := by
  have hread := parse_write L hv (Nat.le_max_left v.depth w.depth) k
  rw [h, parse_write L hw (Nat.le_max_right v.depth w.depth)] at hread
  exact (Option.some.inj hread).symm

example : (parse 2 "\x7b\"a\": [1, -2.50], \"a\": \"\\u00e9\"\x7d".toList) =
    some (object [("a", string "é")]) := by decide +kernel

end Json

end SpycatcherHarness
