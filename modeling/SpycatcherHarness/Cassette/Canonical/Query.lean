import Mathlib.Data.List.Sort
import Mathlib.Data.Prod.Lex
import Mathlib.Data.String.Basic
import SpycatcherHarness.Text.Strings

/-!
# Canonical query strings

A query string is split into pairs, each side is percent-decoded and encoded again in one fixed
form, and the pairs are sorted.  `Query.decodedPairs` is what a query means, its pairs of byte
strings, and `Query.canonicalizeQuery_eq_iff` says that the canonical form keeps exactly that, up
to the order of the pairs.
-/

namespace SpycatcherHarness

/-! ### Hexadecimal digits -/

namespace Hex

/-- Letter case used when writing hex digits. -/
inductive HexCase where
  /-- Lowercase letters for stable hash output. -/
  | lower
  /-- Uppercase letters for percent escapes. -/
  | upper

/-- `push_hex_nibble`: the digit of the low four bits. -/
def hexNibble (nibble : UInt8) (case : HexCase) : Char :=
  match (nibble &&& 0x0f).toNat, case with
  | 0, _ => '0'
  | 1, _ => '1'
  | 2, _ => '2'
  | 3, _ => '3'
  | 4, _ => '4'
  | 5, _ => '5'
  | 6, _ => '6'
  | 7, _ => '7'
  | 8, _ => '8'
  | 9, _ => '9'
  | 10, .lower => 'a'
  | 11, .lower => 'b'
  | 12, .lower => 'c'
  | 13, .lower => 'd'
  | 14, .lower => 'e'
  | 15, .lower => 'f'
  | 10, .upper => 'A'
  | 11, .upper => 'B'
  | 12, .upper => 'C'
  | 13, .upper => 'D'
  | 14, .upper => 'E'
  | _, _ => 'F'

/-- `push_hex_byte`: both digits of a byte. -/
def hexByte (byte : UInt8) (case : HexCase) : List Char :=
  [hexNibble (byte >>> 4) case, hexNibble (byte &&& 0x0f) case]

/-- `encode_hex`. -/
def encodeHex (bytes : Bytes) : String :=
  String.ofList (bytes.flatMap fun b => hexByte b .lower)

/-- `decode_hex_digit`. -/
def decodeHexDigit (byte : UInt8) : Option UInt8 :=
  if 0x30 ≤ byte ∧ byte ≤ 0x39 then some (byte - 0x30)
  else if 0x61 ≤ byte ∧ byte ≤ 0x66 then some (byte - 0x61 + 10)
  else if 0x41 ≤ byte ∧ byte ≤ 0x46 then some (byte - 0x41 + 10)
  else none

/-- A fact about all bytes is a fact about 256 numbers. -/
theorem forall_uint8 {P : UInt8 → Prop} (h : ∀ n : Fin 256, P (UInt8.ofNat n.val)) (b : UInt8) :
    P b := by
  have := h ⟨b.toNat, b.toNat_lt⟩
  rwa [UInt8.ofNat_toNat] at this

theorem decodeHexDigit_hexNibble (case : HexCase) : ∀ b : UInt8,
    decodeHexDigit (UInt8.ofNat (hexNibble b case).toNat) = some (b &&& 0x0f) := by
  cases case <;> exact forall_uint8 (by decide +kernel)

/-- The two nibbles make up the byte. -/
theorem nibbles : ∀ b : UInt8, ((b >>> 4) &&& 0x0f) <<< 4 ||| ((b &&& 0x0f) &&& 0x0f) = b :=
  forall_uint8 (by decide +kernel)

theorem hexByte_injective (case : HexCase) {b c : UInt8} (h : hexByte b case = hexByte c case) :
    b = c := by
  obtain ⟨hhi, hlo⟩ := List.cons.inj h
  obtain ⟨hlo, -⟩ := List.cons.inj hlo
  have hhi' := decodeHexDigit_hexNibble case (b >>> 4)
  have hlo' := decodeHexDigit_hexNibble case (b &&& 0x0f)
  rw [hhi, decodeHexDigit_hexNibble, Option.some.injEq] at hhi'
  rw [hlo, decodeHexDigit_hexNibble, Option.some.injEq] at hlo'
  rw [← nibbles b, ← nibbles c, hhi', hlo']

theorem encodeHex_injective : Function.Injective encodeHex := by
  intro bs cs h
  have h : (bs.flatMap fun b => hexByte b .lower) = cs.flatMap fun b => hexByte b .lower :=
    String.ofList_injective h
  induction bs generalizing cs with
  | nil =>
    cases cs with
    | nil => rfl
    | cons c cs => simp [hexByte] at h
  | cons b bs ih =>
    cases cs with
    | nil => simp [hexByte] at h
    | cons c cs =>
      rw [List.flatMap_cons, List.flatMap_cons] at h
      obtain ⟨hbyte, hrest⟩ := List.append_inj h rfl
      rw [hexByte_injective .lower hbyte, ih (congrArg String.ofList hrest) hrest]

end Hex

/-! ### Query strings -/

namespace Query

open Hex

/-- `is_unreserved`: a byte that needs no percent escape. -/
def isUnreserved (byte : UInt8) : Bool :=
  (0x41 ≤ byte && byte ≤ 0x5a) || (0x61 ≤ byte && byte ≤ 0x7a) || (0x30 ≤ byte && byte ≤ 0x39) ||
    byte == 0x2d || byte == 0x2e || byte == 0x5f || byte == 0x7e

/-- `push_canonical_byte`. -/
def canonicalByte (byte : UInt8) : List Char :=
  if isUnreserved byte then [Char.ofNat byte.toNat] else '%' :: hexByte byte .upper

/-- `encode_canonical_bytes`. -/
def encodeCanonicalBytes (bytes : Bytes) : String := String.ofList (bytes.flatMap canonicalByte)

/-- `try_decode_percent_at`, on the bytes from the index on. -/
def tryDecodePercentAt : Bytes → Option UInt8
  | p :: h :: l :: _ =>
    if p = 0x25 then
      match decodeHexDigit h, decodeHexDigit l with
      | some high, some low => some (high <<< 4 ||| low)
      | _, _ => none
    else none
  | _ => none

/-- The loop of `decode_percent_bytes`, on the bytes from the index on; the number counts the
bytes that an escape has still to skip. -/
def decodePercentFrom : ℕ → Bytes → Bytes
  | _, [] => []
  | k + 1, _ :: rest => decodePercentFrom k rest
  | 0, b :: rest =>
    match tryDecodePercentAt (b :: rest) with
    | some byte => byte :: decodePercentFrom 2 rest
    | none => b :: decodePercentFrom 0 rest

/-- `decode_percent_bytes`. -/
def decodePercentBytes (input : String) : Bytes := decodePercentFrom 0 (Str.asBytes input)

/-- `percent_decode_canonical`. -/
def percentDecodeCanonical (input : String) : String :=
  encodeCanonicalBytes (decodePercentBytes input)

/-- The two sides of a segment, which has no value when it has no equals sign. -/
def splitSegment (segment : String) : String × String :=
  (Str.splitOnce '=' segment).getD (segment, "")

/-- The nonempty segments of a query. -/
def segments (query : String) : List String := (Str.split '&' query).filter fun s => s != ""

/-- `parse_query_pairs`. -/
def parseQueryPairs (query : String) : List (String × String) :=
  (segments query).map fun segment =>
    (percentDecodeCanonical (splitSegment segment).1,
      percentDecodeCanonical (splitSegment segment).2)

/-- `encode_query_pairs`. -/
def encodeQueryPairs (pairs : List (String × String)) : String :=
  Str.join '&' (pairs.map fun p => p.1 ++ "=" ++ p.2)

/-- The order of pairs: by key, then by value. -/
def PairLe (a b : String × String) : Prop := toLex a ≤ toLex b

instance : DecidableRel PairLe := fun a b => inferInstanceAs (Decidable (toLex a ≤ toLex b))

/-- `canonicalize_query`. -/
def canonicalizeQuery (query : String) : String :=
  if query = "" then ""
  else encodeQueryPairs ((parseQueryPairs query).insertionSort PairLe)

/-- What a query means: its pairs of percent-decoded byte strings. -/
def decodedPairs (query : String) : List (Bytes × Bytes) :=
  (segments query).map fun segment =>
    (decodePercentBytes (splitSegment segment).1, decodePercentBytes (splitSegment segment).2)

/-! ### Percent escapes -/

theorem canonicalByte_chars (b : UInt8) (c : Char) (hc : c ∈ canonicalByte b) :
    c ≠ '&' ∧ c ≠ '=' ∧ c.toNat ≤ 127 := by
  have hall : ∀ b : UInt8, (canonicalByte b).all
      (fun c => c != '&' && (c != '=' && decide (c.toNat ≤ 127))) = true :=
    forall_uint8 (by decide +kernel)
  simpa using List.all_eq_true.1 (hall b) c hc

theorem unreserved_byte : ∀ b : UInt8, isUnreserved b = true →
    UInt8.ofNat (Char.ofNat b.toNat).toNat = b ∧ b ≠ 0x25 := forall_uint8 (by decide +kernel)

/-- Decoding takes the canonical form of a byte back. -/
theorem decodePercentFrom_canonicalByte (b : UInt8) (rest : Bytes) :
    decodePercentFrom 0 ((canonicalByte b).map (fun c => UInt8.ofNat c.toNat) ++ rest) =
      b :: decodePercentFrom 0 rest := by
  unfold canonicalByte
  split_ifs with hb
  · obtain ⟨hbyte, hne⟩ := unreserved_byte b hb
    -- an unreserved byte is not a percent sign
    have hnone : tryDecodePercentAt (b :: rest) = none := by
      rcases rest with _ | ⟨h, _ | ⟨l, rest⟩⟩ <;> simp [tryDecodePercentAt, hne]
    simp [hbyte, decodePercentFrom, hnone]
  · have hsome : ∀ tail, tryDecodePercentAt
        (0x25 :: UInt8.ofNat (hexNibble (b >>> 4) .upper).toNat ::
        UInt8.ofNat (hexNibble (b &&& 0x0f) .upper).toNat :: tail) = some b := by
      intro tail
      simp [tryDecodePercentAt, decodeHexDigit_hexNibble, nibbles]
    have hpercent : UInt8.ofNat '%'.toNat = 0x25 := rfl
    simp only [hexByte, List.map_cons, List.map_nil, List.cons_append, List.nil_append, hpercent,
      decodePercentFrom, hsome]

/-- The bytes of a text of ASCII characters are the characters' numbers. -/
theorem encode_ascii {cs : List Char} (h : ∀ c ∈ cs, c.toNat ≤ 127) :
    Utf8.encode cs = cs.map fun c => UInt8.ofNat c.toNat := by
  induction cs with
  | nil => rfl
  | cons c cs ih =>
    rw [Utf8.encode_cons, Utf8.utf8EncodeChar_ascii (h c List.mem_cons_self),
      ih fun d hd => h d (List.mem_cons_of_mem _ hd)]
    rfl

theorem encodeCanonicalBytes_chars {bs : Bytes} {c : Char}
    (h : c ∈ (encodeCanonicalBytes bs).toList) : c ≠ '&' ∧ c ≠ '=' ∧ c.toNat ≤ 127 := by
  rw [encodeCanonicalBytes, String.toList_ofList, List.mem_flatMap] at h
  obtain ⟨b, -, hc⟩ := h
  exact canonicalByte_chars b c hc

/-- Decoding takes the canonical form of a byte string back. -/
theorem decodePercentBytes_encodeCanonicalBytes (bs : Bytes) :
    decodePercentBytes (encodeCanonicalBytes bs) = bs := by
  have hascii : Str.asBytes (encodeCanonicalBytes bs) =
      (bs.flatMap canonicalByte).map fun c => UInt8.ofNat c.toNat := by
    rw [encodeCanonicalBytes, Str.asBytes_ofList]
    refine encode_ascii fun c hc => ?_
    have hmem : c ∈ (encodeCanonicalBytes bs).toList := by
      rwa [encodeCanonicalBytes, String.toList_ofList]
    exact (encodeCanonicalBytes_chars hmem).2.2
  rw [decodePercentBytes, hascii]
  clear hascii
  induction bs with
  | nil => rfl
  | cons b bs ih => rw [List.flatMap_cons, List.map_append, decodePercentFrom_canonicalByte, ih]

/-! ### The canonical form -/

/-- Both sides of a pair in canonical form. -/
def encodePair (p : Bytes × Bytes) : String × String :=
  (encodeCanonicalBytes p.1, encodeCanonicalBytes p.2)

theorem parseQueryPairs_eq (query : String) :
    parseQueryPairs query = (decodedPairs query).map encodePair := by
  simp [parseQueryPairs, decodedPairs, encodePair, percentDecodeCanonical]

/-- The text of a pair, and where it is cut. -/
theorem splitOnce_encodePair (p : Bytes × Bytes) :
    Str.splitOnce '=' ((encodePair p).1 ++ "=" ++ (encodePair p).2) = some (encodePair p) := by
  have hlist : ((encodePair p).1 ++ "=" ++ (encodePair p).2).toList =
      (encodePair p).1.toList ++ '=' :: (encodePair p).2.toList := by simp
  rw [Str.splitOnce, hlist, Str.splitOnceList_append]
  · simp
  · exact fun hm => (encodeCanonicalBytes_chars hm).2.1 rfl

/-- The pairs of a canonical query are found again in its text. -/
theorem segments_encodeQueryPairs (ps : List (Bytes × Bytes)) :
    segments (encodeQueryPairs (ps.map encodePair)) =
      (ps.map encodePair).map fun p => p.1 ++ "=" ++ p.2 := by
  cases ps with
  | nil => decide
  | cons q qs =>
    rw [segments, encodeQueryPairs, Str.split_join (by simp), List.filter_eq_self]
    · intro t ht
      obtain ⟨r, -, rfl⟩ := List.mem_map.1 ht
      simp
    · intro t ht hmem
      simp only [List.map_map, List.mem_map, Function.comp_apply] at ht
      obtain ⟨r, -, rfl⟩ := ht
      simp only [encodePair, String.toList_append, List.mem_append] at hmem
      rcases hmem with (hmem | hmem) | hmem
      · exact (encodeCanonicalBytes_chars hmem).1 rfl
      · revert hmem; decide
      · exact (encodeCanonicalBytes_chars hmem).1 rfl

/-- A canonical text means the pairs it was made from. -/
theorem decodedPairs_encodeQueryPairs (ps : List (Bytes × Bytes)) :
    decodedPairs (encodeQueryPairs (ps.map encodePair)) = ps := by
  rw [decodedPairs, segments_encodeQueryPairs, List.map_map, List.map_map]
  refine List.map_id'' (fun p => ?_) ps
  simp only [Function.comp_apply, splitSegment, splitOnce_encodePair, Option.getD_some]
  simp only [encodePair, decodePercentBytes_encodeCanonicalBytes]

instance : Std.Total PairLe := ⟨fun a b => le_total (toLex a) (toLex b)⟩

instance : IsTrans (String × String) PairLe := ⟨fun a _ _ => le_trans (a := toLex a)⟩

/-- The canonical form, from the pairs that the query means. -/
theorem canonicalizeQuery_eq (query : String) : canonicalizeQuery query =
    encodeQueryPairs (((decodedPairs query).map encodePair).insertionSort PairLe) := by
  by_cases hq : query = ""
  · subst hq; decide
  · rw [canonicalizeQuery, if_neg hq, parseQueryPairs_eq]

/-- Sorting does not depend on the order that the pairs came in. -/
theorem insertionSort_eq_of_perm {ps qs : List (String × String)} (h : ps.Perm qs) :
    ps.insertionSort PairLe = qs.insertionSort PairLe := by
  refine List.Perm.eq_of_pairwise ?_ (List.pairwise_insertionSort _ _)
    (List.pairwise_insertionSort _ _) ?_
  · exact fun a b _ _ hab hba => toLex.injective (le_antisymm hab hba)
  · exact (List.perm_insertionSort _ ps).trans (h.trans (List.perm_insertionSort _ qs).symm)

/-- The pairs of a canonical text are those of the query, sorted. -/
theorem exists_sorted_pairs (query : String) : ∃ ps : List (Bytes × Bytes),
    ps.Perm (decodedPairs query) ∧
      canonicalizeQuery query = encodeQueryPairs (ps.map encodePair) := by
  refine ⟨(decodedPairs query).insertionSort fun p q => PairLe (encodePair p) (encodePair q),
    List.perm_insertionSort _ _, ?_⟩
  rw [canonicalizeQuery_eq, List.map_insertionSort _ PairLe encodePair _ fun _ _ _ _ => Iff.rfl]

/-- The canonical form of a query keeps its decoded pairs, up to their order, and nothing else. -/
theorem canonicalizeQuery_eq_iff {q r : String} :
    canonicalizeQuery q = canonicalizeQuery r ↔ (decodedPairs q).Perm (decodedPairs r) := by
  constructor
  · intro h
    obtain ⟨ps, hps, hq⟩ := exists_sorted_pairs q
    obtain ⟨qs, hqs, hr⟩ := exists_sorted_pairs r
    rw [hq, hr] at h
    -- a canonical text determines the sorted pairs, which decoding takes back
    have heq : ps = qs := by
      rw [← decodedPairs_encodeQueryPairs ps, h, decodedPairs_encodeQueryPairs]
    exact hps.symm.trans (heq ▸ hqs)
  · intro h
    rw [canonicalizeQuery_eq, canonicalizeQuery_eq, insertionSort_eq_of_perm (h.map encodePair)]

/-! ### The ways of writing pairs -/

/-- A way of writing bytes: each stands for itself, unless it is a percent sign, or is escaped with
digits in either case. -/
inductive Spells : Bytes → Bytes → Prop
  | nil : Spells [] []
  | plain {b : UInt8} {raw bs : Bytes} (hb : b ≠ 0x25) : Spells raw bs → Spells (b :: raw) (b :: bs)
  | escape {raw bs : Bytes} (b : UInt8) (high low : HexCase) : Spells raw bs →
      Spells (0x25 :: UInt8.ofNat (hexNibble (b >>> 4) high).toNat ::
        UInt8.ofNat (hexNibble (b &&& 0x0f) low).toNat :: raw) (b :: bs)

/-- A way of writing one pair, or none. -/
inductive SpellsSegment : String → List (Bytes × Bytes) → Prop
  | empty : SpellsSegment "" []
  | bare {key : String} {bs : Bytes} (hne : key ≠ "") (heq : '=' ∉ key.toList)
      (hkey : Spells (Str.asBytes key) bs) : SpellsSegment key [(bs, [])]
  | pair {key value : String} {bs cs : Bytes} (heq : '=' ∉ key.toList)
      (hkey : Spells (Str.asBytes key) bs) (hvalue : Spells (Str.asBytes value) cs) :
      SpellsSegment (key ++ "=" ++ value) [(bs, cs)]

/-- A way of writing a list of pairs. -/
def SpellsQuery (query : String) (pairs : List (Bytes × Bytes)) : Prop :=
  ∃ segs : List (String × List (Bytes × Bytes)), segs ≠ [] ∧
    query = Str.join '&' (segs.map Prod.fst) ∧ pairs = segs.flatMap Prod.snd ∧
    ∀ seg ∈ segs, '&' ∉ seg.1.toList ∧ SpellsSegment seg.1 seg.2

theorem Spells.decodePercentFrom {raw bs : Bytes} (h : Spells raw bs) :
    decodePercentFrom 0 raw = bs := by
  induction h with
  | nil => rfl
  | plain hb _ ih =>
    rename_i b raw bs _
    have hnone : tryDecodePercentAt (b :: raw) = none := by
      rcases raw with _ | ⟨h, _ | ⟨l, rest⟩⟩ <;> simp [tryDecodePercentAt, hb]
    simp [Query.decodePercentFrom, hnone, ih]
  | escape b high low _ ih =>
    rename_i raw bs _
    have hsome : tryDecodePercentAt (0x25 :: UInt8.ofNat (hexNibble (b >>> 4) high).toNat ::
        UInt8.ofNat (hexNibble (b &&& 0x0f) low).toNat :: raw) = some b := by
      simp [tryDecodePercentAt, decodeHexDigit_hexNibble, nibbles]
    simp only [Query.decodePercentFrom, hsome, ih]

/-- What a segment means. -/
def decodeSegment (segment : String) : Bytes × Bytes :=
  (decodePercentBytes (splitSegment segment).1, decodePercentBytes (splitSegment segment).2)

theorem SpellsSegment.decoded {segment : String} {pairs : List (Bytes × Bytes)}
    (h : SpellsSegment segment pairs) :
    ([segment].filter fun s => s != "").map decodeSegment = pairs := by
  cases h with
  | empty => rfl
  | bare hne heq hkey =>
    have hsplit : Str.splitOnce '=' segment = none := by
      rw [Str.splitOnce, Str.splitOnceList_eq_none heq]
      rfl
    have hempty : decodePercentBytes "" = [] := rfl
    have hdecoded : decodePercentBytes segment = _ := hkey.decodePercentFrom
    simp [hne, decodeSegment, splitSegment, hsplit, hempty, hdecoded]
  | pair heq hkey hvalue =>
    rename_i key value bs cs
    have hlist : (key ++ "=" ++ value).toList = key.toList ++ '=' :: value.toList := by simp
    have hsplit : Str.splitOnce '=' (key ++ "=" ++ value) = some (key, value) := by
      rw [Str.splitOnce, hlist, Str.splitOnceList_append heq]
      simp
    simp [decodeSegment, splitSegment, hsplit, decodePercentBytes, hkey.decodePercentFrom,
      hvalue.decodePercentFrom]

/-- **The pairs of a query are found again, however it is written.** -/
theorem decodedPairs_of_spells {query : String} {pairs : List (Bytes × Bytes)}
    (h : SpellsQuery query pairs) : decodedPairs query = pairs := by
  obtain ⟨segs, hne, rfl, rfl, hsegs⟩ := h
  rw [decodedPairs, segments, Str.split_join (by simpa using hne)]
  · clear hne
    induction segs with
    | nil => rfl
    | cons seg segs ih =>
      rw [List.forall_mem_cons] at hsegs
      have hhead := hsegs.1.2.decoded
      have htail := ih hsegs.2
      rw [List.map_cons, ← List.singleton_append, List.filter_append, List.map_append, htail,
        List.flatMap_cons]
      exact congrArg (· ++ segs.flatMap Prod.snd) hhead
  · intro part hpart
    obtain ⟨seg, hseg, rfl⟩ := List.mem_map.1 hpart
    exact (hsegs seg hseg).1

end Query

end SpycatcherHarness
