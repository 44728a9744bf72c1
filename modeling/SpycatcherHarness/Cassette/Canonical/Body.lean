import Mathlib.Data.List.Perm.Basic
import SpycatcherHarness.Cassette.Canonical.Query
import SpycatcherHarness.Json.Parse

/-!
# Canonical bodies

A request body is made canonical by removing the ignored paths and sorting the keys of every
object.  What is hashed is the text of the result, written by the source's own serializer.

* `Canonical.writeJsonCanonical_eq` : the serializer writes the compact text of `Json.write`.
* `Canonical.keyEquiv_of_sortJsonValue` : bodies with the same sorted form are the same up to the
  order of object keys.
-/

namespace SpycatcherHarness

open Hex

/-- Errors raised while canonicalizing recorded requests. -/
inductive CanonicalError where
  /-- A configured ignore path is not a valid JSON Pointer. -/
  | invalidPointerPath (path : String)
  deriving DecidableEq

namespace Canonical

/-! ### Ignored paths -/

/-- A decoded segment of a JSON Pointer. -/
abbrev PointerToken := String

/-- `unescape_pointer_token`. -/
def unescapePointerToken : List Char → Option (List Char)
  | [] => some []
  | '~' :: '0' :: rest => (unescapePointerToken rest).map ('~' :: ·)
  | '~' :: '1' :: rest => (unescapePointerToken rest).map ('/' :: ·)
  | c :: rest => if c = '~' then none else (unescapePointerToken rest).map (c :: ·)

/-- `parse_json_pointer`. -/
def parseJsonPointer (path : String) : Option (List PointerToken) :=
  if (Str.stripPrefix '/' path).isNone then none
  else ((Str.split '/' path).drop 1).mapM fun token =>
    (unescapePointerToken token.toList).map String.ofList

/-- `u8::is_ascii_digit`. -/
def isAsciiDigit (byte : UInt8) : Bool := 0x30 ≤ byte && byte ≤ 0x39

/-- `looks_like_invalid_array_index`: a decimal token with a leading zero. -/
def looksLikeInvalidArrayIndex (token : PointerToken) : Bool :=
  let bytes := Str.asBytes token
  bytes.length > 1 && bytes.head? == some 0x30 && bytes.all isAsciiDigit

/-- `is_valid_json_pointer`. -/
def isValidJsonPointer (path : String) : Bool :=
  match parseJsonPointer path with
  | none => false
  | some tokens => !tokens.any looksLikeInvalidArrayIndex

/-- `parse_array_index_token`: a canonical decimal index that fits `usize`. -/
def parseArrayIndexToken (token : PointerToken) : Option ℕ :=
  if token = "0" then some 0
  else
    match Str.asBytes token with
    | [] => none
    | first :: digits =>
      if !isAsciiDigit first || first == 0x30 then none
      else if !digits.all isAsciiDigit then none
      else
        let index := Nat.ofDigitChars 10 token.toList 0
        if index < 2 ^ 64 then some index else none

/-- `array_entry_index`: the last token as an index. -/
def arrayEntryIndex (tokens : List PointerToken) : Option ℕ :=
  tokens.getLast?.bind parseArrayIndexToken

/-- A pointer, with its parent where it names a whole array entry. -/
structure PointerRemoval where
  tokens : List PointerToken
  parentArray : Option (List PointerToken)
  deriving DecidableEq

/-- `PointerRemoval::new`. -/
def PointerRemoval.new (tokens : List PointerToken) : PointerRemoval :=
  ⟨tokens, (arrayEntryIndex tokens).map fun _ => tokens.dropLast⟩

/-- `deduplicate_removals`: the first occurrence of each. -/
def deduplicateRemovals (removals : List PointerRemoval) : List PointerRemoval :=
  removals.foldl (fun kept r => if kept.any (·.tokens = r.tokens) then kept else kept ++ [r]) []

/-- The grouped removals of one parent: its array entries, with the highest index first. -/
def groupedRemovals (removals : List PointerRemoval) (parent : List PointerToken) :
    List (List PointerToken) :=
  ((removals.filter (·.parentArray = some parent)).map (·.tokens)).insertionSort
    fun a b => (arrayEntryIndex b).getD 0 ≤ (arrayEntryIndex a).getD 0

/-- `emit_removal`, over all removals: an array's entries are emitted together, at the first of
them. -/
def emitRemovals (removals : List PointerRemoval) :
    List (List PointerToken) → List PointerRemoval → List (List PointerToken)
  | _, [] => []
  | emitted, r :: rest =>
    match r.parentArray with
    | none => r.tokens :: emitRemovals removals emitted rest
    | some parent =>
      if parent ∈ emitted then emitRemovals removals emitted rest
      else groupedRemovals removals parent ++ emitRemovals removals (parent :: emitted) rest

/-- `ordered_pointer_removals`: the deepest paths first. -/
def orderedPointerRemovals (ignoredBodyPaths : List String) :
    Except CanonicalError (List (List PointerToken)) := do
  let removals ← ignoredBodyPaths.mapM fun path =>
    match parseJsonPointer path with
    | none => .error (.invalidPointerPath path)
    | some tokens => .ok (PointerRemoval.new tokens)
  let deduplicated := deduplicateRemovals removals
  pure ((emitRemovals deduplicated [] deduplicated).insertionSort fun a b => b.length ≤ a.length)

/-- `pointer_tokens_to_path`. -/
def pointerTokensToPath (tokens : List PointerToken) : String :=
  String.ofList (tokens.flatMap fun token => '/' :: token.toList.flatMap fun c =>
    if c = '~' then ['~', '0'] else if c = '/' then ['~', '1'] else [c])

/-- `Map::remove`: the last entry takes the place of the removed one. -/
def swapRemove (key : String) (es : List (String × Json)) : List (String × Json) :=
  match es.findIdx? (·.1 = key), es.getLast? with
  | some i, some last => (es.set i last).dropLast
  | _, _ => es

/-- Write through `Map::get_mut`. -/
def setEntry (key : String) (v : Json) (es : List (String × Json)) : List (String × Json) :=
  es.map fun e => if e.1 = key then (key, v) else e

/-- `remove_pointer`. -/
def removePointer (pointerPath : String) : List PointerToken → Json → Except CanonicalError Json
  | [], v => .ok v
  | head :: tail, .object es =>
    if tail = [] then .ok (.object (swapRemove head es))
    else
      match Json.lookup head es with
      | none => .ok (.object es)
      | some next => (removePointer pointerPath tail next).map fun v => .object (setEntry head v es)
  | head :: tail, .array items =>
    match parseArrayIndexToken head with
    | none => .error (.invalidPointerPath pointerPath)
    | some index =>
      if tail = [] then .ok (.array (items.eraseIdx index))
      else
        match items[index]? with
        | none => .ok (.array items)
        | some next => (removePointer pointerPath tail next).map fun v => .array (items.set index v)
  | _ :: _, v => .ok v

/-! ### Sorted keys -/

/-- The order of entries: by key. -/
def EntryLe (a b : String × Json) : Prop := a.1 ≤ b.1

instance : DecidableRel EntryLe := fun a b => inferInstanceAs (Decidable (a.1 ≤ b.1))

mutual

/-- `sort_json_value`.  Sorting looks at the keys only, so the values can be sorted first. -/
def sortJsonValue : Json → Json
  | .array items => .array (sortItems items)
  | .object es => .object ((sortEntries es).insertionSort EntryLe)
  | v => v

def sortItems : List Json → List Json
  | [] => []
  | x :: xs => sortJsonValue x :: sortItems xs

def sortEntries : List (String × Json) → List (String × Json)
  | [] => []
  | (key, v) :: es => (key, sortJsonValue v) :: sortEntries es

end

/-- `canonicalize_body`. -/
def canonicalizeBody (body : Json) (ignoredBodyPaths : List String) :
    Except CanonicalError Json := do
  let removals ← orderedPointerRemovals ignoredBodyPaths
  let canonical ← removals.foldlM
    (fun v tokens => removePointer (pointerTokensToPath tokens) tokens v) body
  pure (sortJsonValue canonical)

/-! ### Serialization -/

/-- `push_hex_u32`, in lower case. -/
def hexU32 (value : ℕ) : List Char :=
  [12, 8, 4, 0].map fun shift => hexNibble (UInt8.ofNat ((value >>> shift) &&& 0x0f)) .lower

/-- `write_json_string`, between the quotes. -/
def writeJsonChar (c : Char) : List Char :=
  if c = '"' then ['\\', '"']
  else if c = '\\' then ['\\', '\\']
  else if c = '\x08' then ['\\', 'b']
  else if c = '\x0c' then ['\\', 'f']
  else if c = '\n' then ['\\', 'n']
  else if c = '\r' then ['\\', 'r']
  else if c = '\t' then ['\\', 't']
  else if c ≤ '\x1f' then '\\' :: 'u' :: hexU32 c.toNat
  else [c]

/-- `write_json_string`. -/
def writeJsonString (text : String) : List Char :=
  '"' :: (text.toList.flatMap writeJsonChar ++ ['"'])

mutual

/-- `write_json_canonical`. -/
def writeJsonCanonical : Json → List Char
  | .null => "null".toList
  | .bool flag => (if flag then "true" else "false").toList
  | .number n => n.toText.toList
  | .string text => writeJsonString text
  | .array items => '[' :: (writeJsonArray items ++ [']'])
  | .object es => '{' :: (writeJsonObject es ++ ['}'])

/-- `write_json_array`, between the brackets. -/
def writeJsonArray : List Json → List Char
  | [] => []
  | first :: items => writeJsonCanonical first ++ writeJsonItems items

/-- The items behind the first one. -/
def writeJsonItems : List Json → List Char
  | [] => []
  | item :: items => ',' :: (writeJsonCanonical item ++ writeJsonItems items)

/-- `write_json_object`, between the brackets. -/
def writeJsonObject : List (String × Json) → List Char
  | [] => []
  | (key, v) :: es => writeJsonString key ++ ':' :: (writeJsonCanonical v ++ writeJsonEntries es)

/-- The entries behind the first one. -/
def writeJsonEntries : List (String × Json) → List Char
  | [] => []
  | (key, v) :: es =>
    ',' :: (writeJsonString key ++ ':' :: (writeJsonCanonical v ++ writeJsonEntries es))

end

/-- `serialize_json_canonical`. -/
def serializeJsonCanonical (v : Json) : String := String.ofList (writeJsonCanonical v)

/-! ### The serializer writes compact texts -/

theorem hexU32_control : ∀ n < 32,
    hexU32 n = ['0', '0', Json.hexDigit (n / 16), Json.hexDigit n] := by decide +kernel

theorem writeJsonChar_eq (c : Char) : writeJsonChar c = Json.escapeChar c := by
  unfold writeJsonChar Json.escapeChar
  split_ifs with h1 h2 h3 h4 h5 h6 h7 h8
  all_goals try rfl
  have hlt : c.toNat < 32 := Nat.lt_succ_of_le h8
  rw [hexU32_control _ hlt]

theorem writeJsonString_eq (text : String) : writeJsonString text = Json.quote text := by
  simp only [writeJsonString, Json.quote, funext writeJsonChar_eq]

/-- The serializer writes the compact text. -/
theorem writeJsonCanonical_eq (v : Json) :
    ∀ k, writeJsonCanonical v = Json.write Json.compact k v := by
  induction v using Json.induct with
  | null => intro k; rfl
  | bool b => intro k; cases b <;> rfl
  | number n => intro k; rfl
  | string s => intro k; exact writeJsonString_eq s
  | array xs ih =>
    -- an inner induction on the items, each of which is covered by the outer one
    have hitems : ∀ ys : List Json, (∀ y ∈ ys, y ∈ xs) → ∀ k,
        writeJsonItems ys = Json.writeItems Json.compact k ys := by
      intro ys hys k
      induction ys with
      | nil => rfl
      | cons y ys ihys =>
        simp only [writeJsonItems, Json.writeItems, Json.compact, List.nil_append]
        rw [ih y (hys y List.mem_cons_self) k, ihys fun z hz => hys z (List.mem_cons_of_mem _ hz)]
        rfl
    intro k
    cases xs with
    | nil => rfl
    | cons x xs =>
      simp only [writeJsonCanonical, writeJsonArray, Json.write]
      rw [ih x List.mem_cons_self (k + 1),
        hitems xs (fun y hy => List.mem_cons_of_mem _ hy) (k + 1)]
      simp [Json.compact]
  | object es ih =>
    have hentries : ∀ fs : List (String × Json), (∀ f ∈ fs, f ∈ es) → ∀ k,
        writeJsonEntries fs = Json.writeEntries Json.compact k fs := by
      intro fs hfs k
      induction fs with
      | nil => rfl
      | cons f fs ihfs =>
        obtain ⟨key, v⟩ := f
        simp only [writeJsonEntries, Json.writeEntries, Json.compact, List.nil_append]
        rw [ih (key, v) (hfs _ List.mem_cons_self) k,
          ihfs fun z hz => hfs z (List.mem_cons_of_mem _ hz), writeJsonString_eq]
        simp [Json.compact]
    intro k
    rcases es with _ | ⟨⟨key, v⟩, es⟩
    · rfl
    · simp only [writeJsonCanonical, writeJsonObject, Json.write]
      rw [ih (key, v) List.mem_cons_self (k + 1),
        hentries es (fun f hf => List.mem_cons_of_mem _ hf) (k + 1), writeJsonString_eq]
      simp [Json.compact]

/-- The serialized text determines a value. -/
theorem serializeJsonCanonical_injective {v w : Json} (hv : v.Wf) (hw : w.Wf)
    (h : serializeJsonCanonical v = serializeJsonCanonical w) : v = w := by
  have h : writeJsonCanonical v = writeJsonCanonical w := String.ofList_injective h
  rw [writeJsonCanonical_eq v 0, writeJsonCanonical_eq w 0] at h
  exact Json.write_injective Json.compact hv hw h

/-! ### Sorting keeps the entries -/

theorem sortItems_eq_map (xs : List Json) : sortItems xs = xs.map sortJsonValue := by
  induction xs with
  | nil => rfl
  | cons x xs ih => simp [sortItems, ih]

theorem sortEntries_eq_map (es : List (String × Json)) :
    sortEntries es = es.map fun e => (e.1, sortJsonValue e.2) := by
  induction es with
  | nil => rfl
  | cons e es ih => simp [sortEntries, ih]

theorem sortJsonValue_array (xs : List Json) :
    sortJsonValue (.array xs) = .array (xs.map sortJsonValue) := by
  rw [sortJsonValue, sortItems_eq_map]

theorem sortJsonValue_object (es : List (String × Json)) : sortJsonValue (.object es) =
    .object ((es.map fun e => (e.1, sortJsonValue e.2)).insertionSort EntryLe) := by
  rw [sortJsonValue, sortEntries_eq_map]

theorem sortJsonValue_wf {v : Json} (hv : v.Wf) : (sortJsonValue v).Wf := by
  induction v using Json.induct with
  | null => trivial
  | bool b => trivial
  | number n => trivial
  | string s => trivial
  | array xs ih =>
    rw [sortJsonValue_array, Json.wf_array]
    intro x hx
    obtain ⟨y, hy, rfl⟩ := List.mem_map.1 hx
    exact ih y hy (Json.wf_array.1 hv y hy)
  | object es ih =>
    obtain ⟨hkeys, hes⟩ := Json.wf_object.1 hv
    rw [sortJsonValue_object, Json.wf_object]
    have hperm := List.perm_insertionSort EntryLe (es.map fun e => (e.1, sortJsonValue e.2))
    constructor
    · rw [(hperm.map Prod.fst).nodup_iff, List.map_map]
      exact hkeys
    · intro e he
      obtain ⟨f, hf, rfl⟩ := List.mem_map.1 (hperm.mem_iff.1 he)
      exact ih f hf (hes f hf)

/-- Sorting does not change how deep a value is nested. -/
theorem depth_sortJsonValue (v : Json) (n : ℕ) :
    (sortJsonValue v).depth ≤ n ↔ v.depth ≤ n := by
  induction v using Json.induct generalizing n with
  | null => rfl
  | bool b => rfl
  | number m => rfl
  | string s => rfl
  | array xs ih =>
    cases n with
    | zero => simp [sortJsonValue_array, Json.depth]
    | succ n =>
      rw [sortJsonValue_array, Json.depth_array_le, Json.depth_array_le, List.forall_mem_map]
      exact forall₂_congr fun x hx => ih x hx n
  | object es ih =>
    cases n with
    | zero => simp [sortJsonValue_object, Json.depth]
    | succ n =>
      have hperm := List.perm_insertionSort EntryLe (es.map fun e => (e.1, sortJsonValue e.2))
      rw [sortJsonValue_object, Json.depth_object_le, Json.depth_object_le]
      simp only [hperm.mem_iff, List.forall_mem_map]
      exact forall₂_congr fun e he => ih e he n

theorem sortJsonValue_eq_array {xs : List Json} {v : Json}
    (h : sortJsonValue v = .array xs) : ∃ ys, v = .array ys ∧ ys.map sortJsonValue = xs := by
  cases v with
  | array ys => rw [sortJsonValue_array] at h; exact ⟨ys, rfl, by injection h⟩
  | _ => simp [sortJsonValue] at h

theorem sortJsonValue_eq_object {es : List (String × Json)} {v : Json}
    (h : sortJsonValue v = .object es) : ∃ fs, v = .object fs ∧
      es.Perm (fs.map fun e => (e.1, sortJsonValue e.2)) := by
  cases v with
  | object fs =>
    rw [sortJsonValue_object] at h
    refine ⟨fs, rfl, ?_⟩
    injection h with h
    rw [← h]
    exact List.perm_insertionSort EntryLe _
  | _ => simp [sortJsonValue] at h

theorem keyEquivItems_of_map {xs : List Json}
    (ih : ∀ x ∈ xs, ∀ y, sortJsonValue x = sortJsonValue y → Json.KeyEquiv x y) :
    ∀ ys, xs.map sortJsonValue = ys.map sortJsonValue → Json.KeyEquivItems xs ys := by
  induction xs with
  | nil =>
    intro ys h
    cases ys with
    | nil => exact .nil
    | cons y ys => cases h
  | cons x xs ihxs =>
    intro ys h
    cases ys with
    | nil => cases h
    | cons y ys =>
      obtain ⟨hhead, htail⟩ := List.cons.inj h
      exact .cons (ih x List.mem_cons_self y hhead)
        (ihxs (fun z hz => ih z (List.mem_cons_of_mem _ hz)) ys htail)

theorem keyEquivEntries_of_map {es : List (String × Json)}
    (ih : ∀ e ∈ es, ∀ y, sortJsonValue e.2 = sortJsonValue y → Json.KeyEquiv e.2 y) :
    ∀ fs : List (String × Json), (es.map fun e => (e.1, sortJsonValue e.2)) =
      (fs.map fun e => (e.1, sortJsonValue e.2)) → Json.KeyEquivEntries es fs := by
  induction es with
  | nil =>
    intro fs h
    cases fs with
    | nil => exact .nil
    | cons f fs => cases h
  | cons e es ihes =>
    intro fs h
    cases fs with
    | nil => cases h
    | cons f fs =>
      obtain ⟨k, v⟩ := e
      obtain ⟨l, w⟩ := f
      obtain ⟨hhead, htail⟩ := List.cons.inj h
      obtain ⟨rfl, hvalue⟩ := Prod.mk.inj hhead
      exact .cons (ih _ List.mem_cons_self w hvalue)
        (ihes (fun z hz => ih z (List.mem_cons_of_mem _ hz)) fs htail)

/-- Values with the same sorted form are the same up to the order of object keys. -/
theorem keyEquiv_of_sortJsonValue {v : Json} :
    ∀ w, sortJsonValue v = sortJsonValue w → Json.KeyEquiv v w := by
  induction v using Json.induct with
  | null => intro w h; cases w <;> simp [sortJsonValue] at h; exact .null
  | bool b => intro w h; cases w <;> simp [sortJsonValue] at h; subst h; exact .bool b
  | number n => intro w h; cases w <;> simp [sortJsonValue] at h; subst h; exact .number n
  | string s => intro w h; cases w <;> simp [sortJsonValue] at h; subst h; exact .string s
  | array xs ih =>
    intro w h
    rw [sortJsonValue_array] at h
    obtain ⟨ys, rfl, hys⟩ := sortJsonValue_eq_array h.symm
    exact .array (keyEquivItems_of_map ih ys hys.symm)
  | object es ih =>
    intro w h
    rw [sortJsonValue_object] at h
    obtain ⟨fs, rfl, hfs⟩ := sortJsonValue_eq_object h.symm
    -- some arrangement of the entries has the other side's sorted values, entry by entry
    have hperm := ((List.perm_insertionSort EntryLe _).symm.trans hfs).symm
    have hcomp : Relation.Comp (· = List.map (fun e : String × Json => (e.1, sortJsonValue e.2)) ·)
        List.Perm (fs.map fun e => (e.1, sortJsonValue e.2)) es := by
      rw [List.eq_map_comp_perm]
      exact hperm
    obtain ⟨ds, hmap, hds⟩ := hcomp
    exact .object hds.symm
      (keyEquivEntries_of_map (fun d hd => ih d (hds.mem_iff.1 hd)) fs hmap.symm)

/-! ### Sorted forms are equal up to key order -/

/-- With distinct keys, an entry is found exactly if it is there. -/
theorem lookup_eq_some_iff {key : String} {v : Json} {es : List (String × Json)}
    (hkeys : (es.map Prod.fst).Nodup) : Json.lookup key es = some v ↔ (key, v) ∈ es := by
  refine ⟨Json.mem_of_lookup, fun hmem => ?_⟩
  cases hfound : Json.lookup key es with
  | none => exact absurd (List.mem_map_of_mem hmem) (Json.lookup_eq_none_iff.1 hfound)
  | some w =>
    have heq : (key, w) = (key, v) :=
      List.inj_on_of_nodup_map hkeys (Json.mem_of_lookup hfound) hmem rfl
    rw [(Prod.mk.inj heq).2]

instance : Std.Total EntryLe := ⟨fun a b => le_total a.1 b.1⟩

instance : IsTrans (String × Json) EntryLe := ⟨fun a _ _ => le_trans (a := a.1)⟩

/-- With distinct keys, sorting by key does not depend on the order that the pairs came in. -/
theorem insertionSort_fst_eq_of_perm {α : Type*} {es fs : List (String × α)} (h : es.Perm fs)
    (hkeys : (es.map Prod.fst).Nodup) :
    (es.insertionSort fun a b => a.1 ≤ b.1) = fs.insertionSort fun a b => a.1 ≤ b.1 := by
  have : Std.Total fun a b : String × α => a.1 ≤ b.1 := ⟨fun a b => le_total a.1 b.1⟩
  have : IsTrans (String × α) fun a b => a.1 ≤ b.1 := ⟨fun a _ _ => le_trans (a := a.1)⟩
  refine List.Perm.eq_of_pairwise ?_ (List.pairwise_insertionSort _ _)
    (List.pairwise_insertionSort _ _) ?_
  · intro a b ha hb hab hba
    have ha' := (List.mem_insertionSort _).1 ha
    have hb' := h.mem_iff.2 ((List.mem_insertionSort _).1 hb)
    exact List.inj_on_of_nodup_map hkeys ha' hb' (le_antisymm hab hba)
  · exact (List.perm_insertionSort _ es).trans (h.trans (List.perm_insertionSort _ fs).symm)

theorem insertionSort_eq_of_perm {es fs : List (String × Json)} (h : es.Perm fs)
    (hkeys : (es.map Prod.fst).Nodup) : es.insertionSort EntryLe = fs.insertionSort EntryLe :=
  insertionSort_fst_eq_of_perm h hkeys

theorem map_sort_of_keyEquivItems {xs : List Json}
    (ih : ∀ x ∈ xs, ∀ y, x.KeyEquiv y → sortJsonValue x = sortJsonValue y) :
    ∀ ys, Json.KeyEquivItems xs ys → xs.map sortJsonValue = ys.map sortJsonValue := by
  induction xs with
  | nil =>
    intro ys h
    cases h
    rfl
  | cons x xs ihxs =>
    intro ys h
    cases h with
    | cons hhead htail =>
      rw [List.map_cons, List.map_cons, ih x List.mem_cons_self _ hhead,
        ihxs (fun z hz => ih z (List.mem_cons_of_mem _ hz)) _ htail]

theorem map_sort_of_keyEquivEntries {es : List (String × Json)}
    (ih : ∀ e ∈ es, ∀ y, e.2.KeyEquiv y → sortJsonValue e.2 = sortJsonValue y) :
    ∀ fs : List (String × Json), Json.KeyEquivEntries es fs →
      (es.map fun e => (e.1, sortJsonValue e.2)) = fs.map fun e => (e.1, sortJsonValue e.2) := by
  induction es with
  | nil =>
    intro fs h
    cases h
    rfl
  | cons e es ihes =>
    intro fs h
    cases h with
    | cons hhead htail =>
      rw [List.map_cons, List.map_cons, ih _ List.mem_cons_self _ hhead,
        ihes (fun z hz => ih z (List.mem_cons_of_mem _ hz)) _ htail]

/-- Values that are the same up to the order of object keys have the same sorted form. -/
theorem sortJsonValue_eq_of_keyEquiv {v : Json} (hv : v.Wf) :
    ∀ w, v.KeyEquiv w → sortJsonValue v = sortJsonValue w := by
  induction v using Json.induct with
  | null | bool b | number n | string s => intro w h; cases h; rfl
  | array xs ih =>
    intro w h
    cases h with
    | array hitems =>
      rw [sortJsonValue_array, sortJsonValue_array,
        map_sort_of_keyEquivItems (fun x hx => ih x hx (Json.wf_array.1 hv x hx)) _ hitems]
  | object es ih =>
    intro w h
    cases h with
    | object hperm hentries =>
      obtain ⟨hkeys, hes⟩ := Json.wf_object.1 hv
      have hmap := map_sort_of_keyEquivEntries (fun f hf =>
        ih f (hperm.mem_iff.2 hf) (hes f (hperm.mem_iff.2 hf))) _ hentries
      rw [sortJsonValue_object, sortJsonValue_object, ← hmap]
      congr 1
      refine insertionSort_eq_of_perm (hperm.map _) ?_
      rw [List.map_map]
      exact hkeys

/-- What stands under a key is sorted with the rest. -/
theorem get_sortJsonValue {v : Json} (hv : v.Wf) (key : String) :
    (sortJsonValue v).get key = (v.get key).map sortJsonValue := by
  cases v with
  | object es =>
    obtain ⟨hkeys, -⟩ := Json.wf_object.1 hv
    have hwf := sortJsonValue_wf hv
    rw [sortJsonValue_object] at hwf ⊢
    obtain ⟨hkeys', -⟩ := Json.wf_object.1 hwf
    have hperm := List.perm_insertionSort EntryLe (es.map fun e => (e.1, sortJsonValue e.2))
    simp only [Json.get]
    refine Option.ext fun w => ?_
    rw [lookup_eq_some_iff hkeys', hperm.mem_iff, Option.map_eq_some_iff]
    simp only [lookup_eq_some_iff hkeys, List.mem_map, Prod.exists, Prod.mk.injEq]
    constructor
    · rintro ⟨_, x, hx, rfl, rfl⟩
      exact ⟨x, hx, rfl⟩
    · rintro ⟨x, hx, rfl⟩
      exact ⟨key, x, hx, rfl, rfl⟩
  | _ => rfl

@[simp] theorem asBool_sortJsonValue (v : Json) : (sortJsonValue v).asBool = v.asBool := by
  cases v <;> rfl

/-- Without ignored paths a body is sorted. -/
theorem canonicalizeBody_nil (body : Json) :
    canonicalizeBody body [] = .ok (sortJsonValue body) := rfl

end Canonical

end SpycatcherHarness
