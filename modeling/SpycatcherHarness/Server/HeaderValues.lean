import SpycatcherHarness.Server.Headers

/-!
# Header values as texts

A header value is recorded as it is if it is text, and percent-encoded if it is not.  Each of the
two is one to one, but both give plain texts: a value that spells out the escapes of another is
recorded as the same text.

* `unescape_eq_some_iff` : undoing the escapes is the inverse of `percentEncode`.
* `headerValueString_eq_iff` : when two values are recorded as one text.
* `header_values_recoverable_iff` : which values can be told from every other value once recorded.
-/

namespace SpycatcherHarness

/-! ### Values -/

/-- A byte that `HeaderValue` can hold. -/
def isHeaderValueByte (byte : UInt8) : Bool := 0x20 ≤ byte && byte != 0x7F || byte == 0x09

/-- `HeaderValue`. -/
structure HeaderValue where
  bytes : Bytes
  valid : bytes.all isHeaderValueByte = true
  deriving DecidableEq

/-- The character of a byte of text. -/
def byteChar (byte : UInt8) : Char := Char.ofNat byte.toNat

theorem toNat_byteChar : ∀ byte : UInt8, (byteChar byte).toNat = byte.toNat :=
  Hex.forall_uint8 (by decide +kernel)

theorem byteChar_injective : Function.Injective byteChar := by
  intro b c h
  rw [← UInt8.toNat_inj, ← toNat_byteChar b, ← toNat_byteChar c, h]

/-- Text is one to one. -/
theorem headerToStr_injective {a b : Bytes} {s : String} (ha : headerToStr a = some s)
    (hb : headerToStr b = some s) : a = b := by
  unfold headerToStr at ha hb
  split_ifs at ha hb
  have hmap : a.map byteChar = b.map byteChar :=
    String.ofList_injective (Option.some.inj (ha.trans hb.symm))
  exact List.map_injective_iff.2 byteChar_injective hmap

/-! ### Escapes -/

/-- How `percentEncode` writes a byte. -/
def escapeByte (byte : UInt8) : List Char :=
  if (byteChar byte).isAlphanum then [byteChar byte]
  else ['%', upperHexDigit (byte.toNat / 16), upperHexDigit (byte.toNat % 16)]

theorem percentEncode_eq (value : Bytes) :
    percentEncode value = String.ofList (value.flatMap escapeByte) := rfl

/-- The value of an upper-case hexadecimal digit. -/
def upperHexValue (c : Char) : Option ℕ := "0123456789ABCDEF".toList.idxOf? c

/-- The byte that two digits stand for, if it is one of those that are escaped. -/
def escapedByte (high low : Char) : Option UInt8 :=
  match upperHexValue high, upperHexValue low with
  | some h, some l =>
    if (byteChar (UInt8.ofNat (16 * h + l))).isAlphanum then none
    else some (UInt8.ofNat (16 * h + l))
  | _, _ => none

/-- The bytes that a text spells, if it has nothing but letters, digits and upper-case escapes of
other bytes. -/
def unescape : List Char → Option Bytes
  | [] => some []
  | '%' :: high :: low :: rest =>
    (escapedByte high low).bind fun byte => (unescape rest).map (byte :: ·)
  | c :: rest => if c.isAlphanum then (unescape rest).map (UInt8.ofNat c.toNat :: ·) else none

theorem upperHexValue_eq_some_iff {c : Char} {n : ℕ} :
    upperHexValue c = some n ↔ n < 16 ∧ c = upperHexDigit n := by
  constructor
  · intro h
    rw [upperHexValue, List.idxOf?, List.findIdx?_eq_some_iff_getElem] at h
    obtain ⟨hn, hc, -⟩ := h
    refine ⟨hn, ?_⟩
    rw [upperHexDigit, List.getD_eq_getElem?_getD, List.getElem?_eq_getElem hn, Option.getD_some]
    exact (beq_iff_eq.1 hc).symm
  · rintro ⟨hn, rfl⟩
    have hdigits : ∀ k : Fin 16, upperHexValue (upperHexDigit k) = some k.val := by decide
    exact hdigits ⟨n, hn⟩

/-- Two digits are read as the byte that is written with them. -/
theorem escapedByte_eq_some_iff {high low : Char} {byte : UInt8} :
    escapedByte high low = some byte ↔ (byteChar byte).isAlphanum = false ∧
      high = upperHexDigit (byte.toNat / 16) ∧ low = upperHexDigit (byte.toNat % 16) := by
  constructor
  · intro h
    unfold escapedByte at h
    cases hhigh : upperHexValue high with
    | none => simp [hhigh] at h
    | some m =>
      cases hlow : upperHexValue low with
      | none => simp [hhigh, hlow] at h
      | some n =>
        simp only [hhigh, hlow] at h
        split_ifs at h with halpha
        obtain rfl := Option.some.inj h
        obtain ⟨hm, rfl⟩ := upperHexValue_eq_some_iff.1 hhigh
        obtain ⟨hn, rfl⟩ := upperHexValue_eq_some_iff.1 hlow
        have hvalue : (UInt8.ofNat (16 * m + n)).toNat = 16 * m + n := by
          rw [UInt8.toNat_ofNat']
          omega
        have hdiv : (16 * m + n) / 16 = m := by omega
        have hmod : (16 * m + n) % 16 = n := by omega
        rw [hvalue, hdiv, hmod]
        exact ⟨by simpa using halpha, rfl, rfl⟩
  · rintro ⟨halpha, rfl, rfl⟩
    have hbyte := byte.toNat_lt
    have hhigh : byte.toNat / 16 < 16 := by omega
    have hlow : byte.toNat % 16 < 16 := by omega
    have hvalue : 16 * (byte.toNat / 16) + byte.toNat % 16 = byte.toNat := by omega
    simp only [escapedByte, upperHexValue_eq_some_iff.2 ⟨hhigh, rfl⟩,
      upperHexValue_eq_some_iff.2 ⟨hlow, rfl⟩, hvalue, UInt8.ofNat_toNat, halpha]
    rfl

/-- A letter or digit is a byte. -/
theorem byteChar_ofNat {c : Char} (h : c.isAlphanum = true) :
    byteChar (UInt8.ofNat c.toNat) = c := by
  have hupper : 'Z'.val.toNat < 256 := by decide
  have hlower : 'z'.val.toNat < 256 := by decide
  have hdigit : '9'.val.toNat < 256 := by decide
  have hlt : c.val.toNat < 256 := by
    have hcases : (c.isUpper || c.isLower || c.isDigit) = true := h
    simp only [Bool.or_eq_true, or_assoc] at hcases
    rcases hcases with hc | hc | hc
    · have hle : 'A'.val ≤ c.val ∧ c.val ≤ 'Z'.val := of_decide_eq_true hc
      exact lt_of_le_of_lt (UInt32.le_iff_toNat_le.1 hle.2) hupper
    · have hle : c.val ≤ 'z'.val := of_decide_eq_true (Bool.and_eq_true_iff.1 hc).2
      exact lt_of_le_of_lt (UInt32.le_iff_toNat_le.1 hle) hlower
    · have hle : c.val ≤ '9'.val := of_decide_eq_true (Bool.and_eq_true_iff.1 hc).2
      exact lt_of_le_of_lt (UInt32.le_iff_toNat_le.1 hle) hdigit
  have hback : (UInt8.ofNat c.toNat).toNat = c.toNat := by
    rw [UInt8.toNat_ofNat']
    exact Nat.mod_eq_of_lt hlt
  rw [byteChar, hback, Char.ofNat_toNat]

theorem unescape_alphanumeric {c : Char} (h : c.isAlphanum = true) (rest : List Char) :
    unescape (c :: rest) = (unescape rest).map (UInt8.ofNat c.toNat :: ·) := by
  have hpercent : c ≠ '%' := by
    rintro rfl
    exact absurd h (by decide)
  rw [unescape, if_pos h]
  exact fun _ _ _ hc => absurd hc hpercent

/-- An escaped byte is read back, whatever follows it. -/
theorem unescape_escapeByte_append (byte : UInt8) (rest : List Char) :
    unescape (escapeByte byte ++ rest) = (unescape rest).map (byte :: ·) := by
  unfold escapeByte
  split_ifs with halpha
  · rw [List.singleton_append, unescape_alphanumeric halpha, toNat_byteChar, UInt8.ofNat_toNat]
  · have hread : escapedByte (upperHexDigit (byte.toNat / 16))
        (upperHexDigit (byte.toNat % 16)) = some byte :=
      escapedByte_eq_some_iff.2 ⟨by simpa using halpha, rfl, rfl⟩
    simp only [List.cons_append, List.nil_append, unescape, hread, Option.bind_some]

/-- **Undoing the escapes** is the inverse of writing them. -/
theorem unescape_eq_some_iff {cs : List Char} {bytes : Bytes} :
    unescape cs = some bytes ↔ cs = bytes.flatMap escapeByte := by
  constructor
  · intro h
    induction cs using unescape.induct generalizing bytes with
    | case1 =>
      obtain rfl := Option.some.inj h
      rfl
    | case2 high low rest ih =>
      simp only [unescape, Option.bind_eq_some_iff, Option.map_eq_some_iff] at h
      obtain ⟨byte, hbyte, tail, htail, rfl⟩ := h
      obtain ⟨halpha, rfl, rfl⟩ := escapedByte_eq_some_iff.1 hbyte
      rw [List.flatMap_cons, ← ih htail, escapeByte, halpha]
      rfl
    | case3 c rest hc halpha ih =>
      rw [unescape_alphanumeric halpha, Option.map_eq_some_iff] at h
      obtain ⟨tail, htail, rfl⟩ := h
      rw [List.flatMap_cons, ← ih htail, escapeByte, byteChar_ofNat halpha, if_pos halpha]
      rfl
    | case4 c rest hc halpha =>
      rw [unescape, if_neg halpha] at h
      · cases h
      · exact hc
  · rintro rfl
    induction bytes with
    | nil => rfl
    | cons byte bytes ih => rw [List.flatMap_cons, unescape_escapeByte_append, ih]; rfl

theorem percentEncode_injective : Function.Injective percentEncode := by
  intro a b h
  have hescaped : a.flatMap escapeByte = b.flatMap escapeByte := String.ofList_injective h
  have hread := unescape_eq_some_iff.2 hescaped.symm
  rw [unescape_eq_some_iff.2 rfl] at hread
  exact (Option.some.inj hread).symm

/-- The byte of an ASCII character. -/
def charByte (c : Char) : UInt8 := UInt8.ofNat c.toNat

/-- The escapes of a byte are text. -/
theorem escapeByte_text : ∀ byte : UInt8, (escapeByte byte).all (fun c =>
    byteChar (charByte c) == c && isHeaderValueByte (charByte c) &&
      (0x20 ≤ charByte c && charByte c < 0x7F)) = true :=
  Hex.forall_uint8 (by decide +kernel)

theorem mem_escapes {bytes : Bytes} {c : Char} (h : c ∈ bytes.flatMap escapeByte) :
    byteChar (charByte c) = c ∧ isHeaderValueByte (charByte c) = true ∧
      0x20 ≤ charByte c ∧ charByte c < 0x7F := by
  obtain ⟨byte, -, hc⟩ := List.mem_flatMap.1 h
  have htext := List.all_eq_true.1 (escapeByte_text byte) c hc
  simp only [Bool.and_eq_true, beq_iff_eq, decide_eq_true_eq] at htext
  exact ⟨htext.1.1, htext.1.2, htext.2⟩

namespace HeaderValue

/-- `HeaderValue::to_str` succeeds. -/
def IsText (value : HeaderValue) : Prop := (headerToStr value.bytes).isSome = true

/-- A text that, with its escapes undone, is another value that is not text. -/
def Spells (value raw : HeaderValue) : Prop :=
  ¬ raw.IsText ∧ ((headerToStr value.bytes).bind fun s => unescape s.toList) = some raw.bytes

instance (value : HeaderValue) : Decidable value.IsText := inferInstanceAs (Decidable (_ = true))

instance (value raw : HeaderValue) : Decidable (value.Spells raw) :=
  inferInstanceAs (Decidable (_ ∧ _))

/-- A text spells what its characters are the escapes of. -/
theorem spells_iff {value raw : HeaderValue} :
    value.Spells raw ↔ ¬ raw.IsText ∧ headerToStr value.bytes = some (percentEncode raw.bytes) := by
  simp only [Spells, Option.bind_eq_some_iff, unescape_eq_some_iff, percentEncode_eq]
  refine and_congr_right fun _ => ⟨?_, fun h => ⟨_, h, String.toList_ofList⟩⟩
  rintro ⟨s, hs, hspells⟩
  rw [hs, ← hspells, String.ofList_toList]

theorem Spells.isText {value raw : HeaderValue} (h : value.Spells raw) : value.IsText := by
  rw [IsText, (spells_iff.1 h).2, Option.isSome_some]

theorem Spells.ne {value raw : HeaderValue} (h : value.Spells raw) : value ≠ raw := by
  rintro rfl
  exact h.1 h.isText

/-- The escapes of a value, as a value. -/
def spelling (raw : HeaderValue) : HeaderValue where
  bytes := (raw.bytes.flatMap escapeByte).map charByte
  valid := by
    rw [List.all_map, List.all_eq_true]
    exact fun c hc => (mem_escapes hc).2.1

/-- **Every value that is not text is spelled by one that is.** -/
theorem spelling_spells {raw : HeaderValue} (h : ¬ raw.IsText) : raw.spelling.Spells raw := by
  refine spells_iff.2 ⟨h, ?_⟩
  have htext : (raw.spelling.bytes.all fun byte =>
      0x20 ≤ byte && byte < 0x7F || byte == 0x09) = true := by
    simp only [spelling, List.all_map, List.all_eq_true]
    intro c hc
    obtain ⟨-, -, hlow, hhigh⟩ := mem_escapes hc
    simp [hlow, hhigh]
  have hchars : raw.spelling.bytes.map byteChar = raw.bytes.flatMap escapeByte := by
    rw [spelling, List.map_map]
    exact (List.map_congr_left fun c hc => (mem_escapes hc).1).trans (List.map_id' _)
  rw [headerToStr, if_pos htext, percentEncode_eq, ← hchars]
  rfl

theorem headerValueString_text {value : HeaderValue} (h : value.IsText) :
    headerToStr value.bytes = some (headerValueString value.bytes) := by
  obtain ⟨s, hs⟩ := Option.isSome_iff_exists.1 h
  rw [headerValueString, hs, Option.getD_some]

theorem headerValueString_raw {value : HeaderValue} (h : ¬ value.IsText) :
    headerValueString value.bytes = percentEncode value.bytes := by
  have hnone : headerToStr value.bytes = none := by simpa [IsText] using h
  rw [headerValueString, hnone, Option.getD_none]

theorem ext_bytes {a b : HeaderValue} (h : a.bytes = b.bytes) : a = b := by
  cases a
  cases b
  congr

/-- A text and a value that is not text are recorded as one text if the first spells the second. -/
theorem headerValueString_text_raw {a b : HeaderValue} (ha : a.IsText) (hb : ¬ b.IsText) :
    headerValueString a.bytes = headerValueString b.bytes ↔ a.Spells b := by
  rw [spells_iff, headerValueString_text ha, headerValueString_raw hb, Option.some.injEq]
  exact (and_iff_right hb).symm

/-- **When two values are recorded as one text**: one of them spells the other. -/
theorem headerValueString_eq_iff (a b : HeaderValue) :
    headerValueString a.bytes = headerValueString b.bytes ↔
      a = b ∨ a.Spells b ∨ b.Spells a := by
  by_cases ha : a.IsText <;> by_cases hb : b.IsText
  · have hno : ¬ (a.Spells b ∨ b.Spells a) := by
      rintro (h | h)
      · exact h.1 hb
      · exact h.1 ha
    rw [or_iff_left hno]
    refine ⟨fun h => ext_bytes ?_, fun h => h ▸ rfl⟩
    exact headerToStr_injective (headerValueString_text ha)
      (h ▸ headerValueString_text hb)
  · have hne : a ≠ b := fun h => hb (h ▸ ha)
    have hno : ¬ b.Spells a := fun h => h.1 ha
    rw [headerValueString_text_raw ha hb]
    simp only [hne, hno, false_or, or_false]
  · have hne : a ≠ b := fun h => ha (h ▸ hb)
    have hno : ¬ a.Spells b := fun h => h.1 hb
    rw [eq_comm, headerValueString_text_raw hb ha]
    simp only [hne, hno, false_or]
  · have hno : ¬ (a.Spells b ∨ b.Spells a) := by
      rintro (h | h)
      · exact ha h.isText
      · exact hb h.isText
    rw [or_iff_left hno, headerValueString_raw ha, headerValueString_raw hb]
    exact ⟨fun h => ext_bytes (percentEncode_injective h), fun h => h ▸ rfl⟩

end HeaderValue

/-! ### Values in a header map -/

/-- What is permitted does not depend on the value of a permitted header. -/
theorem permitted_replace {before after : HeaderMap} {name : HeaderName} {excluded : List String}
    (a b : Bytes) (h : name.asStr ∉ hopByHopHeaders) (other : HeaderName) :
    Permitted (before ++ (name, a) :: after) excluded other ↔
      Permitted (before ++ (name, b) :: after) excluded other := by
  have hname : (name.asStr == "connection") = false := by
    rw [beq_eq_false_iff_ne]
    intro hconnection
    exact h (hconnection ▸ by decide)
  have hall : HeaderMap.getAll (before ++ (name, a) :: after) "connection" =
      HeaderMap.getAll (before ++ (name, b) :: after) "connection" := by
    simp only [HeaderMap.getAll, List.filter_append, List.filter_cons, hname, Bool.false_eq_true,
      if_false]
  rw [permitted_iff, permitted_iff, NamedByConnection, NamedByConnection, hall]

/-- Header maps that differ in the value of a permitted header are recorded alike exactly if the
values are. -/
theorem selectedHeaders_eq_iff {before after : HeaderMap} {name : HeaderName}
    {excluded : List String} (hlower : excluded.map toAsciiLowercase = excluded) {a b : Bytes}
    (h : Permitted (before ++ (name, a) :: after) excluded name) :
    selectedHeaders (before ++ (name, a) :: after) excluded =
        selectedHeaders (before ++ (name, b) :: after) excluded ↔
      headerValueString a = headerValueString b := by
  have hpermitted : ∀ other, Permitted (before ++ (name, a) :: after) excluded other ↔
      Permitted (before ++ (name, b) :: after) excluded other :=
    permitted_replace a b h.hopByHop
  have hname := (hpermitted name).1 h
  simp only [selectedHeaders, selectHeadersUnified_eq _ hlower, hpermitted, List.filter_append,
    List.filter_cons, hname, decide_true, if_true, List.map_append, List.map_cons,
    List.append_cancel_left_eq, List.cons.injEq, Prod.mk.injEq, true_and, and_true]

/-- **Which values can be told from every other once they are recorded.**  In a request and in a
response, a permitted header with one of two different values is recorded differently unless one of
the values spells the other.  So a value can be recovered exactly if it is text and spells no value
that is not. -/
theorem header_values_recoverable_iff (value : HeaderValue) :
    (∀ other, other ≠ value → ∀ before name after,
      (Permitted (before ++ (name, value.bytes) :: after) requestOnlyExcludedHeaders name →
        (selectedRequestHeaders (before ++ (name, value.bytes) :: after) ≠
            selectedRequestHeaders (before ++ (name, other.bytes) :: after) ↔
          ¬ value.Spells other ∧ ¬ other.Spells value)) ∧
      (Permitted (before ++ (name, value.bytes) :: after) responseOnlyExcludedHeaders name →
        (selectedResponseHeaders (before ++ (name, value.bytes) :: after) ≠
            selectedResponseHeaders (before ++ (name, other.bytes) :: after) ↔
          ¬ value.Spells other ∧ ¬ other.Spells value))) ∧
    ((∀ other : HeaderValue, other ≠ value →
        headerValueString value.bytes ≠ headerValueString other.bytes) ↔
      value.IsText ∧ ∀ other, ¬ value.Spells other) := by
  refine ⟨fun other hne before name after => ⟨fun h => ?_, fun h => ?_⟩, fun h => ⟨?_, ?_⟩, ?_⟩
  · rw [ne_eq, selectedRequestHeaders, selectedRequestHeaders,
      selectedHeaders_eq_iff lower_requestOnly h, HeaderValue.headerValueString_eq_iff,
      or_iff_right (Ne.symm hne), not_or]
  · rw [ne_eq, selectedResponseHeaders, selectedResponseHeaders,
      selectedHeaders_eq_iff lower_responseOnly h, HeaderValue.headerValueString_eq_iff,
      or_iff_right (Ne.symm hne), not_or]
  -- a value that is not text is recorded like the text of its escapes
  · by_contra hraw
    have hspells := HeaderValue.spelling_spells hraw
    exact h _ hspells.ne ((HeaderValue.headerValueString_eq_iff _ _).2 (Or.inr (Or.inr hspells)))
  · intro other hspells
    exact h other hspells.ne.symm
      ((HeaderValue.headerValueString_eq_iff _ _).2 (Or.inr (Or.inl hspells)))
  · rintro ⟨htext, hspells⟩ other hne heq
    rcases (HeaderValue.headerValueString_eq_iff _ _).1 heq with h | h | h
    · exact hne h.symm
    · exact hspells other h
    · exact h.1 htext

/-- A byte that is no text, and the three characters that it is recorded as. -/
theorem header_values_collide :
    let raw : HeaderValue := ⟨[0xFF], by decide⟩
    let text : HeaderValue := ⟨Str.asBytes "%FF", by decide⟩
    let name : HeaderName := ⟨"x-raw", by decide, by decide⟩
    raw ≠ text ∧
      selectedRequestHeaders [(name, raw.bytes)] = [("x-raw", "%FF")] ∧
      selectedRequestHeaders [(name, text.bytes)] = [("x-raw", "%FF")] ∧
      selectedResponseHeaders [(name, raw.bytes)] =
        selectedResponseHeaders [(name, text.bytes)] := by
  decide +kernel

end SpycatcherHarness
