import Mathlib.Data.Multiset.Basic
import SpycatcherHarness.Cassette.Canonical.Query

/-!
# What a query means

A query means a multiset of pairs of byte strings (`Query.meaning`): its nonempty segments, cut at
their first equals sign, with every escape read as one byte and every other byte kept.  The
canonical form is a normal form for that (`Query.canonicalizeQuery_normal`): queries with one
meaning have one canonical form, and the canonical form is its own.
-/

namespace SpycatcherHarness

namespace Query

open Hex

/-- The value of a hexadecimal digit, in either case. -/
def digitValue (b : UInt8) : Option ℕ :=
  let n := b.toNat
  if '0'.toNat ≤ n ∧ n ≤ '9'.toNat then some (n - '0'.toNat)
  else if 'a'.toNat ≤ n ∧ n ≤ 'f'.toNat then some (n - 'a'.toNat + 10)
  else if 'A'.toNat ≤ n ∧ n ≤ 'F'.toNat then some (n - 'A'.toNat + 10)
  else none

/-- Bytes with every escape, a percent sign before two digits, read as one byte.  Less than three
bytes hold no escape. -/
def unescape : Bytes → Bytes
  | [] => []
  | [p] => [p]
  | [p, h] => [p, h]
  | p :: h :: l :: rest =>
    if p = 0x25 then
      match digitValue h, digitValue l with
      | some high, some low => UInt8.ofNat (16 * high + low) :: unescape rest
      | _, _ => p :: unescape (h :: l :: rest)
    else p :: unescape (h :: l :: rest)

/-- The pair that a segment stands for.  Without an equals sign the value is empty. -/
def meaningOfSegment (segment : String) : Bytes × Bytes :=
  match Str.splitOnce '=' segment with
  | some (key, value) => (unescape (Str.asBytes key), unescape (Str.asBytes value))
  | none => (unescape (Str.asBytes segment), [])

/-- What a query means. -/
def meaning (query : String) : Multiset (Bytes × Bytes) :=
  (((Str.split '&' query).filter fun segment => segment ≠ "").map meaningOfSegment : List _)

/-! ### Decoding -/

theorem decodeHexDigit_eq : ∀ b : UInt8, decodeHexDigit b = (digitValue b).map UInt8.ofNat :=
  forall_uint8 (by decide +kernel)

theorem digitValue_lt {b : UInt8} {n : ℕ} (h : digitValue b = some n) : n < 16 := by
  unfold digitValue at h
  simp only [show '0'.toNat = 48 from rfl, show '9'.toNat = 57 from rfl,
    show 'a'.toNat = 97 from rfl, show 'f'.toNat = 102 from rfl, show 'A'.toNat = 65 from rfl,
    show 'F'.toNat = 70 from rfl] at h
  split_ifs at h <;> (obtain rfl := Option.some.inj h; omega)

/-- The two nibbles of a byte are its digits in base 16. -/
theorem shiftLeft_or_eq {high low : ℕ} (hhigh : high < 16) (hlow : low < 16) :
    UInt8.ofNat high <<< 4 ||| UInt8.ofNat low = UInt8.ofNat (16 * high + low) := by
  have hall : ∀ m < 16, ∀ n < 16, UInt8.ofNat m <<< 4 ||| UInt8.ofNat n =
      UInt8.ofNat (16 * m + n) := by decide +kernel
  exact hall high hhigh low hlow

/-- An escape is found where the digits have values. -/
theorem tryDecodePercentAt_eq (h l : UInt8) (rest : Bytes) :
    tryDecodePercentAt (0x25 :: h :: l :: rest) =
      match digitValue h, digitValue l with
      | some high, some low => some (UInt8.ofNat (16 * high + low))
      | _, _ => none := by
  simp only [tryDecodePercentAt, if_true, decodeHexDigit_eq]
  cases hhigh : digitValue h with
  | none => rfl
  | some high =>
    cases hlow : digitValue l with
    | none => rfl
    | some low =>
      simp only [Option.map_some]
      rw [shiftLeft_or_eq (digitValue_lt hhigh) (digitValue_lt hlow)]

/-- **The decoder reads every escape, and keeps the rest.** -/
theorem decodePercentFrom_eq (bs : Bytes) : decodePercentFrom 0 bs = unescape bs := by
  induction bs using unescape.induct with
  | case1 | case2 p | case3 p h => rfl
  | case4 h l rest high low hhigh hlow ih =>
    simp [unescape, decodePercentFrom, tryDecodePercentAt_eq, hhigh, hlow, ih]
  | case5 h l rest hvalues ih =>
    have hnone : tryDecodePercentAt (0x25 :: h :: l :: rest) = none := by
      rw [tryDecodePercentAt_eq]
      split
      · rename_i high low hhigh hlow
        exact absurd hlow (hvalues high low hhigh)
      · rfl
    have hkept : unescape (0x25 :: h :: l :: rest) = 0x25 :: unescape (h :: l :: rest) := by
      rw [unescape, if_pos rfl]
      split
      · rename_i high low hhigh hlow
        exact absurd hlow (hvalues high low hhigh)
      · rfl
    rw [decodePercentFrom, hnone, ih, hkept]
  | case6 p h l rest hp ih =>
    have hnone : tryDecodePercentAt (p :: h :: l :: rest) = none := by
      simp [tryDecodePercentAt, hp]
    rw [decodePercentFrom, hnone, ih, unescape, if_neg hp]

theorem decodedPairs_eq_meaning (query : String) :
    (decodedPairs query : Multiset (Bytes × Bytes)) = meaning query := by
  unfold decodedPairs meaning segments
  congr 1
  have hfilter : (fun s : String => s != "") = fun s => decide (s ≠ "") := by
    funext s
    simp [bne, beq_eq_decide]
  rw [hfilter]
  refine List.map_congr_left fun segment _ => ?_
  unfold meaningOfSegment splitSegment
  cases hsplit : Str.splitOnce '=' segment with
  | none => simp [decodePercentBytes, decodePercentFrom_eq]; rfl
  | some parts => simp [decodePercentBytes, decodePercentFrom_eq]

/-! ### The normal form -/

/-- A canonical form means what the query means. -/
theorem meaning_canonicalizeQuery (query : String) :
    meaning (canonicalizeQuery query) = meaning query := by
  obtain ⟨ps, hps, heq⟩ := exists_sorted_pairs query
  rw [← decodedPairs_eq_meaning, ← decodedPairs_eq_meaning, heq, decodedPairs_encodeQueryPairs]
  exact Multiset.coe_eq_coe.2 hps

/-- **The canonical form is a normal form.**  Two queries have the same one exactly if they mean the
same, and the canonical form of a canonical form is that form. -/
theorem canonicalizeQuery_normal :
    (∀ q r : String, canonicalizeQuery q = canonicalizeQuery r ↔ meaning q = meaning r) ∧
      ∀ q : String, canonicalizeQuery (canonicalizeQuery q) = canonicalizeQuery q := by
  have hiff : ∀ q r : String,
      canonicalizeQuery q = canonicalizeQuery r ↔ meaning q = meaning r := by
    intro q r
    rw [canonicalizeQuery_eq_iff, ← decodedPairs_eq_meaning, ← decodedPairs_eq_meaning,
      Multiset.coe_eq_coe]
  exact ⟨hiff, fun q => (hiff _ q).2 (meaning_canonicalizeQuery q)⟩

end Query

end SpycatcherHarness
