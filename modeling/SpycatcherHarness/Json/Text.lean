import SpycatcherHarness.Json.Value

/-!
# JSON texts

`Json.write` renders a value with a choice of white space (`Layout`); the compact and the indented
texts of the `serde_json` crate are two layouts.  Strings are written between quotes with the
crate's escapes, and `Json.readString` reads any escape that the format knows
(`Json.readString_escape`).
-/

namespace SpycatcherHarness

open NumberText

namespace Json

/-! ### Strings -/

/-- One hexadecimal digit, in lower case. -/
def hexDigit (n : ℕ) : Char := Nat.digitChar (n % 16)

/-- The text of a character inside quotes. -/
def escapeChar (c : Char) : List Char :=
  if c = '"' then ['\\', '"']
  else if c = '\\' then ['\\', '\\']
  else if c = '\x08' then ['\\', 'b']
  else if c = '\x0c' then ['\\', 'f']
  else if c = '\n' then ['\\', 'n']
  else if c = '\r' then ['\\', 'r']
  else if c = '\t' then ['\\', 't']
  else if c ≤ '\x1f' then
    ['\\', 'u', '0', '0', hexDigit (c.toNat / 16), hexDigit c.toNat]
  else [c]

/-- A string between quotes. -/
def quote (s : String) : List Char := '"' :: (s.toList.flatMap escapeChar ++ ['"'])

/-- The value of a hexadecimal digit. -/
def hexValue (c : Char) : Option ℕ :=
  if '0' ≤ c ∧ c ≤ '9' then some (c.toNat - 48)
  else if 'a' ≤ c ∧ c ≤ 'f' then some (c.toNat - 87)
  else if 'A' ≤ c ∧ c ≤ 'F' then some (c.toNat - 55)
  else none

/-- Four hexadecimal digits. -/
def hex4 (a b c d : Char) : Option ℕ := do
  some (((← hexValue a) * 16 + (← hexValue b)) * 256 + (← hexValue c) * 16 + (← hexValue d))

/-- The character behind a one-letter escape. -/
def unescapeChar (c : Char) : Option Char :=
  if c = '"' then some '"'
  else if c = '\\' then some '\\'
  else if c = '/' then some '/'
  else if c = 'b' then some '\x08'
  else if c = 'f' then some '\x0c'
  else if c = 'n' then some '\n'
  else if c = 'r' then some '\r'
  else if c = 't' then some '\t'
  else none

/-- Read a string up to its closing quote.  An escaped surrogate must be the first of a pair. -/
def readString : List Char → Option (List Char × List Char)
  | [] => none
  | '"' :: rest => some ([], rest)
  | '\\' :: 'u' :: a :: b :: c :: d :: rest =>
    match hex4 a b c d with
    | none => none
    | some n =>
      if n < 0xD800 ∨ 0xE000 ≤ n then
        (readString rest).map fun r => (Char.ofNat n :: r.1, r.2)
      else if n < 0xDC00 then
        match rest with
        | '\\' :: 'u' :: a' :: b' :: c' :: d' :: rest' =>
          match hex4 a' b' c' d' with
          | none => none
          | some m =>
            if 0xDC00 ≤ m ∧ m < 0xE000 then
              (readString rest').map fun r =>
                (Char.ofNat (0x10000 + (n - 0xD800) * 0x400 + (m - 0xDC00)) :: r.1, r.2)
            else none
        | _ => none
      else none
  | '\\' :: c :: rest =>
    match unescapeChar c with
    | none => none
    | some e => (readString rest).map fun r => (e :: r.1, r.2)
  | c :: rest =>
    if c ≤ '\x1f' ∨ c = '\\' then none else (readString rest).map fun r => (c :: r.1, r.2)

theorem hex4_hexDigit : ∀ n < 32, hex4 '0' '0' (hexDigit (n / 16)) (hexDigit n) = some n := by
  decide

/-- One character of a string is read back. -/
theorem readString_escapeChar (c : Char) (tail : List Char) :
    readString (escapeChar c ++ tail) = (readString tail).map fun r => (c :: r.1, r.2) := by
  unfold escapeChar
  split_ifs with h1 h2 h3 h4 h5 h6 h7 h8
  · subst h1; rfl
  · subst h2; rfl
  · subst h3; rfl
  · subst h4; rfl
  · subst h5; rfl
  · subst h6; rfl
  · subst h7; rfl
  · have hlt : c.toNat < 32 := Nat.lt_succ_of_le h8
    have hc : Char.ofNat c.toNat = c := Char.ofNat_toNat c
    simp only [List.cons_append, List.nil_append, readString, hex4_hexDigit _ hlt, hc]
    rw [if_pos (Or.inl (by omega))]
  · simp [readString, h2, h8]

/-- A string is read back from its text. -/
theorem readString_escape (cs rest : List Char) :
    readString (cs.flatMap escapeChar ++ '"' :: rest) = some (cs, rest) := by
  induction cs with
  | nil => simp [readString]
  | cons c cs ih =>
    rw [List.flatMap_cons, List.append_assoc, readString_escapeChar, ih]
    rfl

/-- A quoted string has no line feed. -/
theorem not_mem_quote (s : String) : '\n' ∉ quote s := by
  have hdigit : ∀ n, hexDigit n ≠ '\n' := by
    have hsmall : ∀ n < 16, Nat.digitChar n ≠ '\n' := by decide
    exact fun n => hsmall _ (Nat.mod_lt _ (by decide))
  have hescape : ∀ c, '\n' ∉ escapeChar c := by
    intro c
    by_cases hc : c = '\n'
    · subst hc
      decide
    · unfold escapeChar
      split_ifs <;> simp [Ne.symm (hdigit _), Ne.symm hc]
  simp [quote, hescape]

/-! ### Writing -/

/-- White space of JSON. -/
def isSpace (c : Char) : Bool := c == ' ' || c == '\n' || c == '\t' || c == '\r'

/-- Where a text has white space. -/
structure Layout where
  /-- What stands in front of an item, and of a closing bracket, at a nesting level. -/
  lineBreak : ℕ → List Char
  /-- What stands behind the colon of an entry. -/
  afterColon : List Char
  lineBreak_space : ∀ k, ∀ c ∈ lineBreak k, isSpace c = true
  afterColon_space : ∀ c ∈ afterColon, isSpace c = true

/-- No white space. -/
def compact : Layout := ⟨fun _ => [], [], by simp, by simp⟩

/-- One item a line, indented by two spaces a level. -/
def pretty : Layout where
  lineBreak k := '\n' :: List.replicate (2 * k) ' '
  afterColon := [' ']
  lineBreak_space k c hc := by
    rcases List.mem_cons.1 hc with rfl | hc
    · rfl
    · rw [List.eq_of_mem_replicate hc]; rfl
  afterColon_space c hc := by rw [List.mem_singleton.1 hc]; rfl

section
variable (L : Layout)

mutual

/-- The text of a value at a nesting level. -/
def write (k : ℕ) : Json → List Char
  | null => ['n', 'u', 'l', 'l']
  | bool true => ['t', 'r', 'u', 'e']
  | bool false => ['f', 'a', 'l', 's', 'e']
  | number n => n.toText.toList
  | string s => quote s
  | array [] => ['[', ']']
  | array (x :: xs) =>
    '[' :: (L.lineBreak (k + 1) ++ write (k + 1) x ++ writeItems (k + 1) xs ++ L.lineBreak k ++
      [']'])
  | object [] => ['{', '}']
  | object ((key, v) :: es) =>
    '{' :: (L.lineBreak (k + 1) ++ quote key ++ ':' :: L.afterColon ++ write (k + 1) v ++
      writeEntries (k + 1) es ++ L.lineBreak k ++ ['}'])

/-- The items behind the first one. -/
def writeItems (k : ℕ) : List Json → List Char
  | [] => []
  | x :: xs => ',' :: (L.lineBreak k ++ write k x ++ writeItems k xs)

/-- The entries behind the first one. -/
def writeEntries (k : ℕ) : List (String × Json) → List Char
  | [] => []
  | (key, v) :: es =>
    ',' :: (L.lineBreak k ++ quote key ++ ':' :: L.afterColon ++ write k v ++ writeEntries k es)

end

end

end Json

end SpycatcherHarness
