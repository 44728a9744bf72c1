import SpycatcherHarness.Json.Crate

/-!
# Derived types as documents

How values of derived types are written, and how they are read from a document.  A structure is an
object with one entry a field.  It is read from an object in which no field comes twice and other
entries are skipped, or from an array with one item a field.  An internally tagged enumeration is
read as a value first; its variant is a structure without the entry, or the item, of the tag.  An
absent value is `null`, and a missing entry is one as well.

* `Codec.Codes` : what is written and read back is decoded, unless it is nested too deep.
* `Codec.fields_of_rereads`, `Codec.tagged_of_rereads` : what is found in a written object.
-/

namespace SpycatcherHarness

/-- The document is one that the text of the value is read as. -/
def Rereads (v : Json) (doc : Doc) : Prop := v.Wf ∧ ∃ w, doc = .ofJson w ∧ Json.ReadBack v w

namespace Codec

/-! ### Writing -/

/-- An optional value. -/
def encodeOption {α : Type} (enc : α → Json) : Option α → Json
  | none => .null
  | some x => enc x

def encodeNat64 (n : UInt64) : Json := .number (.posInt n)

/-! ### Reading -/

/-- Reads a document, with so many levels of containers left. -/
abbrev Decoder (α : Type) := ℕ → Doc → Option α

def decodeValue : Decoder Json := Doc.value

/-- An optional value: `null` is an absent one. -/
def decodeOption {α : Type} (dec : Decoder α) : Decoder (Option α)
  | _, .null => some none
  | d, doc => (dec d doc).map some

def decodeString : Decoder String
  | _, .string s => s
  | _, _ => none

/-- A number below `bound`. -/
def decodeBelow (bound : ℕ) : Decoder ℕ
  | _, .number (some (.posInt n)) => if n.toNat < bound then some n.toNat else none
  | _, _ => none

def decodeList {α : Type} (dec : Decoder α) : Decoder (List α)
  | d + 1, .array xs => xs.mapM (dec d)
  | _, _ => none

def decodeNat64 : Decoder UInt64 := fun d doc => (decodeBelow (2 ^ 64) d doc).map UInt64.ofNat
def decodeNat32 : Decoder UInt32 := fun d doc => (decodeBelow (2 ^ 32) d doc).map UInt32.ofNat
def decodeNat16 : Decoder UInt16 := fun d doc => (decodeBelow (2 ^ 16) d doc).map UInt16.ofNat
def decodeNat8 : Decoder UInt8 := fun d doc => (decodeBelow (2 ^ 8) d doc).map UInt8.ofNat

/-- The fields that are found, and the levels that are left for them. -/
structure Fields where
  depth : ℕ
  entries : List (String × Doc)

/-- The fields of a structure. -/
def fields (names : List String) : Decoder Fields
  | d + 1, .object es => do
    let entries ← es.mapM fun e => e.1.map fun key => (key, e.2)
    let known := entries.filter fun e => e.1 ∈ names
    if (known.map Prod.fst).Nodup then some ⟨d, known⟩ else none
  | d + 1, .array xs => if xs.length = names.length then some ⟨d, names.zip xs⟩ else none
  | _, _ => none

/-- A required field. -/
def field {α : Type} (key : String) (dec : Decoder α) (f : Fields) : Option α :=
  (f.entries.lookup key).bind (dec f.depth)

/-- A field that may be missing. -/
def optField {α : Type} (key : String) (dec : Decoder α) (f : Fields) : Option (Option α) :=
  match f.entries.lookup key with
  | none => some none
  | some doc => decodeOption dec f.depth doc

/-- The tag of an internally tagged enumeration, and the content that its variant is read from. -/
def tagged (tag : String) : Decoder (Doc × Doc) := fun d doc => do
  -- the variant is known only once all of the content has been read
  let _ ← doc.value d
  match doc with
  | .object es =>
    match es.filter fun e => e.1 = some tag with
    | [(_, name)] => some (name, .object (es.filter fun e => e.1 ≠ some tag))
    | _ => none
  | .array (name :: xs) => some (name, .array xs)
  | _ => none

/-- The variant of an enumeration that is itself part of a content: a number is its index. -/
def decodeVariant (names : List String) : Doc → Option String
  | .string s => s
  | .number (some (.posInt n)) => names[n.toNat]?
  | _ => none

end Codec

/-! ### What is read back -/

namespace Rereads

open Json (ReadBack)

theorem depth {v : Json} {doc : Doc} (h : Rereads v doc) :
    ∃ w, ReadBack v w ∧ ∀ d, doc.value d = if v.depth ≤ d then some w else none := by
  obtain ⟨hwf, w, rfl, hread⟩ := h
  obtain ⟨hwf', hdepth⟩ := hread.wf_depth
  exact ⟨w, hread, fun d => by rw [Doc.value_ofJson (hwf'.2 hwf), hdepth]⟩

theorem eq_null {doc : Doc} (h : Rereads .null doc) : doc = .null := by
  obtain ⟨-, w, rfl, ⟨⟩⟩ := h
  rfl

theorem eq_string {s : String} {doc : Doc} (h : Rereads (.string s) doc) :
    doc = .string (some s) := by
  obtain ⟨-, w, rfl, ⟨⟩⟩ := h
  rfl

theorem eq_nat64 {n : UInt64} {doc : Doc} (h : Rereads (.number (.posInt n)) doc) :
    doc = .number (some (.posInt n)) := by
  obtain ⟨-, w, rfl, ⟨⟩⟩ := h
  rfl

/-- Only `null` is read as `null`. -/
theorem ne_null {v : Json} {doc : Doc} (h : Rereads v doc) (hv : v ≠ .null) : doc ≠ .null := by
  obtain ⟨-, w, rfl, hread⟩ := h
  cases hread <;> simp_all [Doc.ofJson]

theorem array {xs : List Json} {doc : Doc} (h : Rereads (.array xs) doc) :
    ∃ docs, doc = .array docs ∧ List.Forall₂ Rereads xs docs := by
  obtain ⟨hwf, w, rfl, hread⟩ := h
  cases hread with
  | array hall =>
    rename_i ys
    refine ⟨ys.map Doc.ofJson, by rw [Doc.ofJson, Doc.ofItems_eq], ?_⟩
    rw [List.forall₂_map_right_iff]
    exact ((List.forall₂_and_left _ _).2 ⟨Json.wf_array.1 hwf, hall⟩).imp
      fun x y hxy => ⟨hxy.1, y, rfl, hxy.2⟩

/-- The entries of an object are read in their order. -/
theorem object {es : List (String × Json)} {doc : Doc} (h : Rereads (.object es) doc) :
    ∃ docs, doc = .object (docs.map fun e => (some e.1, e.2)) ∧
      List.Forall₂ (fun (e : String × Json) (e' : String × Doc) =>
        e'.1 = e.1 ∧ Rereads e.2 e'.2) es docs := by
  obtain ⟨hwf, w, rfl, hread⟩ := h
  cases hread with
  | object hkeys hall =>
    rename_i fs
    refine ⟨fs.map fun e => (e.1, Doc.ofJson e.2), by simp [Doc.ofJson, Doc.ofEntries_eq], ?_⟩
    rw [List.forall₂_map_right_iff]
    have hvalues := (Json.wf_object.1 hwf).2
    clear hwf
    -- induction on the entries, which stand in the same order on both sides
    induction es generalizing fs with
    | nil =>
      obtain rfl : fs = [] := by simpa using hall
      exact .nil
    | cons e es ih =>
      cases fs with
      | nil => simp at hall
      | cons f fs =>
        rw [List.map_cons, List.map_cons, List.cons.injEq] at hkeys
        rw [List.forall_mem_cons] at hvalues
        obtain ⟨hone, hrest⟩ := List.forall₂_cons.1 hall
        exact .cons ⟨hkeys.1.symm, hvalues.1, f.2, rfl, hone⟩ (ih hkeys.2 hrest hvalues.2)

end Rereads

namespace Codec

/-- What was encoded and is read back is decoded to a value that is related to the original, if it
is not nested too deep, and else it is not decoded. -/
structure Codes {α : Type} (enc : α → Json) (dec : Decoder α) (R : α → α → Prop) : Prop where
  decodes : ∀ x doc d, Rereads (enc x) doc → (enc x).depth ≤ d → ∃ y, dec d doc = some y ∧ R x y
  bounded : ∀ x doc d y, Rereads (enc x) doc → dec d doc = some y → (enc x).depth ≤ d

theorem codes_string : Codes .string decodeString Eq where
  decodes s doc d h _ := ⟨s, by rw [h.eq_string]; rfl, rfl⟩
  bounded s doc d y _ _ := Nat.zero_le d

theorem codes_below {α : Type} {bound : ℕ} {enc : α → UInt64} {dec : ℕ → α}
    (hlt : ∀ x, (enc x).toNat < bound) (hinv : ∀ x, dec (enc x).toNat = x) :
    Codes (fun x => encodeNat64 (enc x)) (fun d doc => (decodeBelow bound d doc).map dec) Eq where
  decodes x doc d h _ := ⟨x, by simp [h.eq_nat64, decodeBelow, hlt, hinv], rfl⟩
  bounded x doc d y _ _ := Nat.zero_le d

theorem codes_nat64 : Codes encodeNat64 decodeNat64 Eq :=
  codes_below (fun x => x.toNat_lt) (by simp)

theorem codes_nat32 : Codes (fun x => encodeNat64 x.toUInt64) decodeNat32 Eq :=
  codes_below (fun x => x.toNat_lt) (by simp)

theorem codes_nat16 : Codes (fun x => encodeNat64 x.toUInt64) decodeNat16 Eq :=
  codes_below (fun x => x.toNat_lt) (by simp)

theorem codes_nat8 : Codes (fun x => encodeNat64 x.toUInt64) decodeNat8 Eq :=
  codes_below (fun x => x.toNat_lt) (by simp)

theorem mapM_eq_some_iff {α β : Type} {f : α → Option β} {xs : List α} {ys : List β} :
    xs.mapM f = some ys ↔ List.Forall₂ (fun x y => f x = some y) xs ys := by
  induction xs generalizing ys with
  | nil => cases ys <;> simp
  | cons x xs ih =>
    cases ys with
    | nil => simp [List.mapM_cons, Option.bind_eq_some_iff]
    | cons y ys => simp [List.mapM_cons, Option.bind_eq_some_iff, ih]

theorem codes_list {α : Type} {enc : α → Json} {dec : Decoder α} {R : α → α → Prop}
    (h : Codes enc dec R) :
    Codes (fun xs => .array (xs.map enc)) (decodeList dec) (List.Forall₂ R) where
  decodes xs doc d hdoc hd := by
    obtain ⟨docs, rfl, hall⟩ := hdoc.array
    cases d with
    | zero => simp [Json.depth] at hd
    | succ d =>
      rw [Json.depth_array_le, List.forall_mem_map] at hd
      rw [List.forall₂_map_left_iff] at hall
      simp only [decodeList, mapM_eq_some_iff]
      clear hdoc
      induction hall with
      | nil => exact ⟨[], .nil, .nil⟩
      | cons hone _ ih =>
        rw [List.forall_mem_cons] at hd
        obtain ⟨y, hy, hR⟩ := h.decodes _ _ d hone hd.1
        obtain ⟨ys, hys, hRs⟩ := ih hd.2
        exact ⟨y :: ys, .cons hy hys, .cons hR hRs⟩
  bounded xs doc d ys hdoc hdec := by
    obtain ⟨docs, rfl, hall⟩ := hdoc.array
    cases d with
    | zero => cases hdec
    | succ d =>
      rw [Json.depth_array_le, List.forall_mem_map]
      rw [List.forall₂_map_left_iff] at hall
      simp only [decodeList, mapM_eq_some_iff] at hdec
      clear hdoc
      induction hall generalizing ys with
      | nil => simp
      | cons hone _ ih =>
        cases hdec with
        | cons hy hys => exact List.forall_mem_cons.2 ⟨h.bounded _ _ d _ hone hy, ih _ hys⟩

theorem codes_list_eq {α : Type} {enc : α → Json} {dec : Decoder α} (h : Codes enc dec Eq) :
    Codes (fun xs => .array (xs.map enc)) (decodeList dec) Eq := by
  have hlist := codes_list h
  rwa [List.forall₂_eq_eq_eq] at hlist

theorem decodeOption_of_ne {α : Type} {dec : Decoder α} {d : ℕ} {doc : Doc} (h : doc ≠ .null) :
    decodeOption dec d doc = (dec d doc).map some := by
  cases doc <;> simp_all [decodeOption]

/-- An optional value whose encoding is never `null`. -/
theorem codes_option {α : Type} {enc : α → Json} {dec : Decoder α} (h : Codes enc dec Eq)
    (hnull : ∀ x, enc x ≠ .null) : Codes (encodeOption enc) (decodeOption dec) Eq where
  decodes o doc d hdoc hd := by
    cases o with
    | none => exact ⟨none, by rw [Rereads.eq_null hdoc, decodeOption], rfl⟩
    | some x =>
      obtain ⟨y, hy, rfl⟩ := h.decodes x doc d hdoc hd
      exact ⟨some x, by rw [decodeOption_of_ne (Rereads.ne_null hdoc (hnull x)), hy]; rfl, rfl⟩
  bounded o doc d y hdoc hdec := by
    cases o with
    | none => exact Nat.zero_le d
    | some x =>
      rw [decodeOption_of_ne (Rereads.ne_null hdoc (hnull x))] at hdec
      obtain ⟨y, hy, -⟩ := Option.map_eq_some_iff.1 hdec
      exact h.bounded x doc d y hdoc hy

/-! ### Structures -/

/-- The fields that are found in a written object. -/
structure Written (es : List (String × Json)) (d : ℕ) (f : Fields) : Prop where
  depth : f.depth = d
  entry : ∀ key v, Json.lookup key es = some v →
    ∃ doc, f.entries.lookup key = some doc ∧ Rereads v doc

theorem fields_of_rereads {es : List (String × Json)} {doc : Doc} {names : List String}
    (h : Rereads (.object es) doc) (hkeys : es.map Prod.fst = names) (d : ℕ) :
    ∃ f, fields names (d + 1) doc = some f ∧ Written es d f := by
  have hnodup := (Json.wf_object.1 h.1).1
  obtain ⟨docs, rfl, hall⟩ := h.object
  have hnames : docs.map Prod.fst = names := by
    rw [← hkeys]
    clear hkeys hnodup h
    induction hall with
    | nil => rfl
    | cons hone _ ih => rw [List.map_cons, List.map_cons, hone.1, ih]
  have hentries : (docs.map fun e => (some e.1, e.2)).mapM
      (fun e : Option String × Doc => e.1.map fun key => (key, e.2)) = some docs := by
    rw [mapM_eq_some_iff, List.forall₂_map_left_iff]
    exact List.forall₂_same.2 fun e _ => rfl
  have hknown : docs.filter (fun e => e.1 ∈ names) = docs := by
    rw [List.filter_eq_self]
    intro e he
    simpa [← hnames] using ⟨e.2, he⟩
  refine ⟨⟨d, docs⟩, ?_, rfl, ?_⟩
  · simp only [fields, hentries, Option.bind_eq_bind, Option.bind_some, hknown]
    rw [if_pos (by rw [hnames, ← hkeys]; exact hnodup)]
  · intro key v hv
    clear hkeys hnodup h hnames hentries hknown
    induction hall with
    | nil => cases hv
    | @cons e e' es docs hone _ ih =>
      obtain ⟨k, x⟩ := e
      obtain ⟨k', x'⟩ := e'
      obtain ⟨rfl, hx⟩ := hone
      simp only [Json.lookup] at hv
      split_ifs at hv with hk
      · cases hv
        exact ⟨x', by simp [hk], hx⟩
      · obtain ⟨doc, hdoc, hread⟩ := ih hv
        have hne : (key == k') = false := beq_eq_false_iff_ne.2 (Ne.symm hk)
        exact ⟨doc, by rw [List.lookup_cons, hne]; exact hdoc, hread⟩

/-- The entries of an object that is not nested too deep are not either, one level further down. -/
theorem depth_entries {es : List (String × Json)} {d : ℕ} (h : (Json.object es).depth ≤ d) :
    ∃ n, d = n + 1 ∧ ∀ e ∈ es, e.2.depth ≤ n := by
  cases d with
  | zero => simp [Json.depth] at h
  | succ n => exact ⟨n, rfl, Json.depth_object_le.1 h⟩

/-- The fields of a written structure that is not nested too deep. -/
theorem fields_of_depth {es : List (String × Json)} {doc : Doc} {names : List String} {d : ℕ}
    (h : Rereads (.object es) doc) (hkeys : es.map Prod.fst = names)
    (hd : (Json.object es).depth ≤ d) :
    ∃ n f, fields names d doc = some f ∧ Written es n f ∧ ∀ e ∈ es, e.2.depth ≤ n := by
  obtain ⟨n, rfl, hn⟩ := depth_entries hd
  obtain ⟨f, hf, hw⟩ := fields_of_rereads h hkeys n
  exact ⟨n, f, hf, hw, hn⟩

namespace Written

variable {α : Type} {es : List (String × Json)} {d : ℕ} {f : Fields} {k : String}

theorem field {enc : α → Json} {dec : Decoder α} {R : α → α → Prop} (h : Written es d f)
    (hcodes : Codes enc dec R) {x : α} (hx : Json.lookup k es = some (enc x)) :
    ((enc x).depth ≤ d → ∃ y, Codec.field k dec f = some y ∧ R x y) ∧
      ∀ y, Codec.field k dec f = some y → (enc x).depth ≤ d := by
  obtain ⟨doc, hdoc, hread⟩ := h.entry k _ hx
  simp only [Codec.field, hdoc, h.depth, Option.bind_some]
  exact ⟨hcodes.decodes x doc d hread, fun y => hcodes.bounded x doc d y hread⟩

theorem field_eq {enc : α → Json} {dec : Decoder α} (h : Written es d f)
    (hcodes : Codes enc dec Eq) {x : α} (hx : Json.lookup k es = some (enc x))
    (hd : (enc x).depth ≤ d) : Codec.field k dec f = some x := by
  obtain ⟨y, hy, rfl⟩ := (h.field hcodes hx).1 hd
  exact hy

theorem optField {enc : α → Json} {dec : Decoder α} {R : Option α → Option α → Prop}
    (h : Written es d f) (hcodes : Codes (encodeOption enc) (decodeOption dec) R) {x : Option α}
    (hx : Json.lookup k es = some (encodeOption enc x)) :
    ((encodeOption enc x).depth ≤ d → ∃ y, Codec.optField k dec f = some y ∧ R x y) ∧
      ∀ y, Codec.optField k dec f = some y → (encodeOption enc x).depth ≤ d := by
  obtain ⟨doc, hdoc, hread⟩ := h.entry k _ hx
  simp only [Codec.optField, hdoc, h.depth]
  exact ⟨hcodes.decodes x doc d hread, fun y => hcodes.bounded x doc d y hread⟩

theorem optField_eq {enc : α → Json} {dec : Decoder α} (h : Written es d f)
    (hcodes : Codes (encodeOption enc) (decodeOption dec) Eq) {x : Option α}
    (hx : Json.lookup k es = some (encodeOption enc x))
    (hd : (encodeOption enc x).depth ≤ d) : Codec.optField k dec f = some x := by
  obtain ⟨y, hy, rfl⟩ := (h.optField hcodes hx).1 hd
  exact hy

end Written

/-! ### Enumerations -/

/-- The tag and the content of a written object. -/
theorem tagged_of_rereads {tag name : String} {es : List (String × Json)} {doc : Doc} {d : ℕ}
    (h : Rereads (.object ((tag, .string name) :: es)) doc)
    (hd : (Json.object ((tag, .string name) :: es)).depth ≤ d) :
    ∃ content, tagged tag d doc = some (.string (some name), content) ∧
      Rereads (.object es) content ∧ (Json.object es).depth ≤ d := by
  obtain ⟨w, -, hvalue⟩ := h.depth
  obtain ⟨hkeys, hvalues⟩ := Json.wf_object.1 h.1
  rw [List.map_cons, List.nodup_cons] at hkeys
  rw [List.forall_mem_cons] at hvalues
  have hwf : (Json.object es).Wf := Json.wf_object.2 ⟨hkeys.2, hvalues.2⟩
  have hshallow : (Json.object es).depth ≤ d := by
    obtain ⟨n, rfl, hn⟩ := depth_entries hd
    exact Json.depth_object_le.2 (List.forall_mem_cons.1 hn).2
  replace hvalue := (hvalue d).trans (if_pos hd)
  obtain ⟨-, u, rfl, hread⟩ := h
  cases hread with
  | object hfst hall =>
    rename_i fs
    cases fs with
    | nil => cases hfst
    | cons f fs =>
      obtain ⟨key, x⟩ := f
      simp only [List.map_cons, List.cons.injEq] at hfst hall
      obtain ⟨rfl, hfst⟩ := hfst
      obtain ⟨hx, hrest⟩ := List.forall₂_cons.1 hall
      cases hx
      -- no other entry has the key of the tag
      have hother : ∀ e ∈ Doc.ofEntries fs, e.1 ≠ some tag := by
        rw [Doc.ofEntries_eq, List.forall_mem_map]
        intro e he heq
        exact hkeys.1 (hfst ▸ List.mem_map.2 ⟨e, he, Option.some.inj heq⟩)
      have hnone : (Doc.ofEntries fs).filter (fun e => e.1 = some tag) = [] :=
        List.filter_eq_nil_iff.2 fun e he => by simpa using hother e he
      have hsome : (Doc.ofEntries fs).filter (fun e => e.1 ≠ some tag) = Doc.ofEntries fs :=
        List.filter_eq_self.2 fun e he => by simpa using hother e he
      refine ⟨.object (Doc.ofEntries fs), ?_, ⟨hwf, .object fs, rfl, .object hfst hrest⟩,
        hshallow⟩
      simp only [Doc.ofJson, Doc.ofEntries] at hvalue ⊢
      simp only [tagged, hvalue, Option.bind_eq_bind, Option.bind_some, List.filter_cons, hnone,
        hsome]
      simp

/-- The content of an enumeration is read before its variant is known. -/
theorem depth_of_tagged {tag : String} {v : Json} {doc : Doc} {d : ℕ} {p : Doc × Doc}
    (h : Rereads v doc) (htagged : tagged tag d doc = some p) : v.depth ≤ d := by
  obtain ⟨w, -, hvalue⟩ := h.depth
  by_contra hd
  simp [tagged, hvalue, hd] at htagged

/-! ### What is decoded -/

theorem depth_of_fields {names : List String} {d : ℕ} {doc : Doc} {f : Fields}
    (h : fields names d doc = some f) : d = f.depth + 1 := by
  cases d with
  | zero => cases doc <;> cases h
  | succ d =>
    cases doc with
    | object es =>
      simp only [fields, Option.bind_eq_bind, Option.bind_eq_some_iff] at h
      obtain ⟨entries, -, h⟩ := h
      split_ifs at h
      cases h
      rfl
    | array xs =>
      simp only [fields] at h
      split_ifs at h
      cases h
      rfl
    | _ => cases h

theorem exists_of_decodeList {α : Type} {dec : Decoder α} {d : ℕ} {doc : Doc} {as : List α}
    (h : decodeList dec d doc = some as) : ∃ n, d = n + 1 ∧ ∀ a ∈ as, ∃ x, dec n x = some a := by
  cases d with
  | zero => cases doc <;> cases h
  | succ d =>
    cases doc with
    | array xs =>
      simp only [decodeList, mapM_eq_some_iff] at h
      refine ⟨d, rfl, ?_⟩
      induction h with
      | nil => simp
      | cons hone _ ih => exact List.forall_mem_cons.2 ⟨⟨_, hone⟩, ih⟩
    | _ => cases h

end Codec

end SpycatcherHarness
