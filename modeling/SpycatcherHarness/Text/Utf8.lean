import Mathlib.Data.List.Basic

/-!
# UTF-8 on byte lists

A text is a list of characters, its encoding a list of bytes.  `Utf8.encode` and `Utf8.decode`
are inverse to each other:

* `Utf8.decode_encode` : every text is read back from its bytes;
* `Utf8.decode_eq_some_iff` : `decode` accepts exactly the encodings of texts, so a byte sequence
  that it rejects is the encoding of no text.

`Utf8.decodeLossy` reads every byte string, with replacements for what is malformed; a text without
replacements comes from its own encoding only (`Utf8.decodeLossy_eq_iff`).

Bytes below 128 only ever stand for themselves (`Utf8.mem_encode_ascii`), which is what lets a
byte scanner look for an ASCII terminator before anything has been decoded.
-/

namespace SpycatcherHarness

/-- A byte string. -/
abbrev Bytes := List UInt8

namespace Utf8

/-- The bytes of a text. -/
def encode (cs : List Char) : Bytes := cs.flatMap String.utf8EncodeChar

/-- The first character of a byte string, if a complete one stands there. -/
def decodeChar (bs : Bytes) : Option Char := ByteArray.utf8DecodeChar? bs.toByteArray 0

/-- Decode at most `n` characters; `none` on malformed bytes. -/
def decodeFuel : ℕ → Bytes → Option (List Char)
  | _, [] => some []
  | 0, _ :: _ => none
  | n + 1, b :: bs =>
    match decodeChar (b :: bs) with
    | none => none
    | some c => (decodeFuel n ((b :: bs).drop c.utf8Size)).map (c :: ·)

/-- Decode a whole byte string.  A character takes at least one byte, so the length of the
string is enough fuel. -/
def decode (bs : Bytes) : Option (List Char) := decodeFuel bs.length bs

/-- A byte that continues a character. -/
def isContinuation (b : UInt8) : Bool := 0x80 ≤ b && b ≤ 0xBF

/-- The second byte of a character of three or four bytes may follow its first. -/
def isSecondOf (lead second : UInt8) : Bool :=
  if lead = 0xE0 then 0xA0 ≤ second && second ≤ 0xBF
  else if lead = 0xED then 0x80 ≤ second && second ≤ 0x9F
  else if lead = 0xF0 then 0x90 ≤ second && second ≤ 0xBF
  else if lead = 0xF4 then 0x80 ≤ second && second ≤ 0x8F
  else 0xE1 ≤ lead && lead ≤ 0xF3 && isContinuation second

/-- How many bytes of a byte string that starts with no character are taken for one replacement:
those that a character could start with. -/
def malformedLength : Bytes → ℕ
  | [] | [_] => 1
  | lead :: second :: rest =>
    if isSecondOf lead second then
      if 0xF0 ≤ lead && (rest.head?.any isContinuation) then 3 else 2
    else 1

/-- The replacement for malformed bytes, U+FFFD. -/
def replacementCharacter : Char := '\uFFFD'

/-- Decode at most `n` characters, replacing what is malformed. -/
def decodeLossyFuel : ℕ → Bytes → List Char
  | _, [] => []
  | 0, _ :: _ => []
  | n + 1, b :: bs =>
    match decodeChar (b :: bs) with
    | none => replacementCharacter :: decodeLossyFuel n ((b :: bs).drop (malformedLength (b :: bs)))
    | some c => c :: decodeLossyFuel n ((b :: bs).drop c.utf8Size)

/-- Decode a whole byte string, replacing what is malformed. -/
def decodeLossy (bs : Bytes) : List Char := decodeLossyFuel bs.length bs

/-! ### Encoding -/

@[simp] theorem encode_nil : encode [] = [] := rfl

@[simp] theorem encode_cons (c : Char) (cs : List Char) :
    encode (c :: cs) = String.utf8EncodeChar c ++ encode cs := rfl

@[simp] theorem encode_append (cs ds : List Char) : encode (cs ++ ds) = encode cs ++ encode ds :=
  List.flatMap_append

theorem utf8EncodeChar_ascii {c : Char} (h : c.toNat ≤ 127) :
    String.utf8EncodeChar c = [UInt8.ofNat c.toNat] := by
  have hc : c.val.toNat ≤ 127 := h
  simp only [String.utf8EncodeChar, hc, ↓reduceIte]
  rfl

/-- A byte below 128 in the encoding of a character is that character. -/
theorem mem_utf8EncodeChar_ascii {c : Char} {b : UInt8} (hb : b ∈ String.utf8EncodeChar c)
    (hlt : b.toNat ≤ 127) : c.toNat = b.toNat := by
  change c.val.toNat = b.toNat
  have hlead : ∀ v k m : ℕ, 127 < v % k + m → v % k + m < 256 →
      ¬ (UInt8.ofNat (v % k + m)).toNat ≤ 127 := by
    intro v k m h1 h2 h3
    rw [UInt8.toNat_ofNat', Nat.mod_eq_of_lt h2] at h3
    omega
  unfold String.utf8EncodeChar at hb
  simp only at hb
  split_ifs at hb with h1 h2 h3
  · simp only [List.mem_singleton] at hb
    subst hb
    simp only [UInt8.toNat_ofNat']
    omega
  all_goals
    exfalso
    simp only [List.mem_cons, List.not_mem_nil, or_false] at hb
  · rcases hb with rfl | rfl <;> exact hlead _ _ _ (by omega) (by omega) hlt
  · rcases hb with rfl | rfl | rfl <;> exact hlead _ _ _ (by omega) (by omega) hlt
  · rcases hb with rfl | rfl | rfl | rfl <;> exact hlead _ _ _ (by omega) (by omega) hlt

/-- A byte below 128 occurs in an encoding only as the ASCII character it is. -/
theorem mem_encode_ascii {cs : List Char} {b : UInt8} (hb : b ∈ encode cs)
    (hlt : b.toNat ≤ 127) : ∃ c ∈ cs, c.toNat = b.toNat := by
  obtain ⟨c, hc, hbc⟩ := List.mem_flatMap.1 hb
  exact ⟨c, hc, mem_utf8EncodeChar_ascii hbc hlt⟩

/-! ### Decoding inverts encoding -/

@[simp] theorem decodeChar_append (c : Char) (bs : Bytes) :
    decodeChar (String.utf8EncodeChar c ++ bs) = some c := by
  rw [decodeChar, List.toByteArray_append, ByteArray.utf8DecodeChar?_utf8EncodeChar_append]

/-- A decoded character stands, encoded, at the front of the bytes. -/
theorem eq_of_decodeChar {bs : Bytes} {c : Char} (h : decodeChar bs = some c) :
    bs = String.utf8EncodeChar c ++ bs.drop c.utf8Size := by
  obtain ⟨l, hl⟩ := ByteArray.exists_of_utf8DecodeChar?_eq_some h
  have hbs : bs = String.utf8EncodeChar c ++ l.data.toList := by
    rw [← List.toByteArray_inj, List.toByteArray_append, hl]
    congr 1
    apply ByteArray.ext
    rw [List.data_toByteArray, Array.toArray_toList]
  have hdrop : bs.drop c.utf8Size = l.data.toList := by
    rw [hbs]; exact List.drop_left' (String.length_utf8EncodeChar c)
  rw [hdrop]
  exact hbs

theorem decodeFuel_encode (cs : List Char) :
    ∀ n, (encode cs).length ≤ n → decodeFuel n (encode cs) = some cs := by
  induction cs with
  | nil => intro n _; cases n <;> rfl
  | cons c cs ih =>
    intro n hn
    have hlen : (encode (c :: cs)).length = c.utf8Size + (encode cs).length := by simp
    have hpos := c.utf8Size_pos
    obtain ⟨m, rfl⟩ : ∃ m, n = m + 1 := ⟨n - 1, by omega⟩
    obtain ⟨b, bs, hb⟩ : ∃ b bs, encode (c :: cs) = b :: bs :=
      List.exists_cons_of_length_pos (by omega)
    have hdrop : (encode (c :: cs)).drop c.utf8Size = encode cs :=
      List.drop_left' (String.length_utf8EncodeChar c)
    have hchar : decodeChar (encode (c :: cs)) = some c := decodeChar_append c _
    rw [hb] at hdrop hchar
    rw [hb]
    simp only [decodeFuel, hchar, hdrop, ih m (by omega), Option.map_some]

/-- Every text is read back from its bytes. -/
@[simp] theorem decode_encode (cs : List Char) : decode (encode cs) = some cs :=
  decodeFuel_encode cs _ (Nat.le_refl _)

theorem encode_of_decodeFuel :
    ∀ (n : ℕ) (bs : Bytes) (cs : List Char), decodeFuel n bs = some cs → encode cs = bs := by
  intro n
  induction n with
  | zero =>
    intro bs cs h
    cases bs with
    | nil => simp only [decodeFuel, Option.some.injEq] at h; subst h; rfl
    | cons b bs => simp [decodeFuel] at h
  | succ n ih =>
    intro bs cs h
    cases bs with
    | nil => simp only [decodeFuel, Option.some.injEq] at h; subst h; rfl
    | cons b bs =>
      simp only [decodeFuel] at h
      cases hc : decodeChar (b :: bs) with
      | none => simp [hc] at h
      | some c =>
        simp only [hc, Option.map_eq_some_iff] at h
        obtain ⟨ds, hds, rfl⟩ := h
        rw [encode_cons, ih _ _ hds]
        exact (eq_of_decodeChar hc).symm

/-- Decoding accepts exactly the encodings of texts. -/
theorem decode_eq_some_iff {bs : Bytes} {cs : List Char} :
    decode bs = some cs ↔ encode cs = bs := by
  refine ⟨encode_of_decodeFuel _ bs cs, ?_⟩
  rintro rfl
  exact decode_encode cs

theorem encode_injective : Function.Injective encode := by
  intro cs ds h
  have := decode_encode cs
  rw [h, decode_encode] at this
  exact (Option.some.inj this).symm

/-! ### Lossy decoding -/

/-- A text comes out of lossy decoding either because its bytes were decoded or with a
replacement in it. -/
theorem encode_decodeLossyFuel :
    ∀ (n : ℕ) (bs : Bytes), bs.length ≤ n → replacementCharacter ∉ decodeLossyFuel n bs →
      encode (decodeLossyFuel n bs) = bs := by
  intro n
  induction n with
  | zero =>
    intro bs hlen _
    rw [List.length_eq_zero_iff.1 (Nat.le_zero.1 hlen)]
    rfl
  | succ n ih =>
    intro bs hlen hclean
    cases bs with
    | nil => rfl
    | cons b bs =>
      simp only [decodeLossyFuel] at hclean ⊢
      cases hc : decodeChar (b :: bs) with
      | none => simp [hc] at hclean
      | some c =>
        simp only [hc, List.mem_cons, not_or] at hclean ⊢
        have hpos := c.utf8Size_pos
        simp only [List.length_cons] at hlen
        have hrest : ((b :: bs).drop c.utf8Size).length ≤ n := by
          simp only [List.length_drop, List.length_cons]
          omega
        rw [encode_cons, ih _ hrest hclean.2]
        exact (eq_of_decodeChar hc).symm

theorem decodeLossyFuel_encode (cs : List Char) :
    ∀ n, (encode cs).length ≤ n → decodeLossyFuel n (encode cs) = cs := by
  induction cs with
  | nil => intro n _; cases n <;> rfl
  | cons c cs ih =>
    intro n hn
    have hlen : (encode (c :: cs)).length = c.utf8Size + (encode cs).length := by simp
    have hpos := c.utf8Size_pos
    obtain ⟨m, rfl⟩ : ∃ m, n = m + 1 := ⟨n - 1, by omega⟩
    obtain ⟨b, bs, hb⟩ : ∃ b bs, encode (c :: cs) = b :: bs :=
      List.exists_cons_of_length_pos (by omega)
    have hdrop : (encode (c :: cs)).drop c.utf8Size = encode cs :=
      List.drop_left' (String.length_utf8EncodeChar c)
    have hchar : decodeChar (encode (c :: cs)) = some c := decodeChar_append c _
    rw [hb] at hdrop hchar
    rw [hb]
    simp only [decodeLossyFuel, hchar, hdrop, ih m (by omega)]

/-- Lossy decoding gives a text without replacements exactly for the bytes of that text. -/
theorem decodeLossy_eq_iff {bs : Bytes} {cs : List Char} (h : replacementCharacter ∉ cs) :
    decodeLossy bs = cs ↔ bs = encode cs := by
  constructor
  · rintro rfl
    exact (encode_decodeLossyFuel _ bs (Nat.le_refl _) h).symm
  · rintro rfl
    exact decodeLossyFuel_encode cs _ (Nat.le_refl _)

end Utf8

end SpycatcherHarness
