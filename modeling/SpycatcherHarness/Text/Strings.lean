import SpycatcherHarness.Text.Utf8

/-!
# Strings as the source uses them

The string operations of the source's standard library, on Lean's `String`: `asBytes` and
`fromUtf8` go to the UTF-8 bytes and back, `stripPrefix` and `splitOnce` look at the first
character and at the first occurrence of a character, and `split` and `join` cut a text at every
occurrence of a separator and put it together again.
-/

namespace SpycatcherHarness

namespace Str

/-- `str::as_bytes`. -/
def asBytes (s : String) : Bytes := Utf8.encode s.toList

/-- `std::str::from_utf8`, without the position that its error reports. -/
def fromUtf8 (bs : Bytes) : Option String := (Utf8.decode bs).map String.ofList

/-- `String::from_utf8_lossy`. -/
def fromUtf8Lossy (bs : Bytes) : String := String.ofList (Utf8.decodeLossy bs)

/-- `str::strip_prefix` with a single character. -/
def stripPrefix (c : Char) (s : String) : Option String :=
  match s.toList with
  | [] => none
  | d :: ds => if d = c then some (String.ofList ds) else none

/-- The characters before and after the first occurrence of `c`. -/
def splitOnceList (c : Char) : List Char → Option (List Char × List Char)
  | [] => none
  | d :: ds => if d = c then some ([], ds) else (splitOnceList c ds).map fun p => (d :: p.1, p.2)

/-- `str::split_once` with a single character. -/
def splitOnce (c : Char) (s : String) : Option (String × String) :=
  (splitOnceList c s.toList).map fun p => (String.ofList p.1, String.ofList p.2)

/-- `str::split` with a single character: the empty string gives one empty part. -/
def split (c : Char) (s : String) : List String := (s.toList.splitOn c).map String.ofList

/-- `[String]::join` with a single-character separator. -/
def join (c : Char) (parts : List String) : String :=
  String.ofList ([c].intercalate (parts.map String.toList))

theorem map_toList_ofList (ls : List (List Char)) :
    (ls.map String.ofList).map String.toList = ls := by
  rw [List.map_map]
  exact (List.map_congr_left fun l _ => String.toList_ofList).trans (List.map_id _)

/-! ### Bytes -/

@[simp] theorem asBytes_ofList (cs : List Char) : asBytes (String.ofList cs) = Utf8.encode cs := by
  simp [asBytes]

@[simp] theorem asBytes_append (s t : String) : asBytes (s ++ t) = asBytes s ++ asBytes t := by
  simp [asBytes]

theorem asBytes_injective : Function.Injective asBytes := fun _ _ h =>
  String.toList_inj.1 (Utf8.encode_injective h)

@[simp] theorem fromUtf8_asBytes (s : String) : fromUtf8 (asBytes s) = some s := by
  simp [fromUtf8, asBytes]

/-- `from_utf8` accepts exactly the bytes of strings. -/
theorem fromUtf8_eq_some_iff {bs : Bytes} {s : String} :
    fromUtf8 bs = some s ↔ asBytes s = bs := by
  simp only [fromUtf8, Option.map_eq_some_iff, Utf8.decode_eq_some_iff]
  constructor
  · rintro ⟨cs, rfl, rfl⟩; simp
  · intro h; exact ⟨s.toList, h, String.ofList_toList⟩

/-- A string without replacement characters is read, lossily, from its own bytes only. -/
theorem fromUtf8Lossy_eq_iff {bs : Bytes} {s : String}
    (h : Utf8.replacementCharacter ∉ s.toList) : fromUtf8Lossy bs = s ↔ bs = asBytes s := by
  rw [fromUtf8Lossy, asBytes, ← Utf8.decodeLossy_eq_iff h]
  exact ⟨fun hs => by rw [← hs, String.toList_ofList], fun hs => by rw [hs, String.ofList_toList]⟩

/-- An ASCII character is in a text exactly if its byte is in the encoding. -/
theorem mem_asBytes_iff {s : String} {c : Char} (hc : c.toNat ≤ 127) :
    UInt8.ofNat c.toNat ∈ asBytes s ↔ c ∈ s.toList := by
  have hb : (UInt8.ofNat c.toNat).toNat = c.toNat := by
    rw [UInt8.toNat_ofNat', Nat.mod_eq_of_lt (by omega)]
  constructor
  · intro h
    obtain ⟨d, hd, he⟩ := Utf8.mem_encode_ascii h (by omega)
    rw [hb] at he
    rwa [← Char.toNat_inj.1 he]
  · intro h
    refine List.mem_flatMap.2 ⟨c, h, ?_⟩
    rw [Utf8.utf8EncodeChar_ascii hc]
    exact List.mem_singleton_self _

/-! ### Prefixes and splits -/

theorem stripPrefix_eq_some_iff {c : Char} {s t : String} :
    stripPrefix c s = some t ↔ s.toList = c :: t.toList := by
  unfold stripPrefix
  split
  · rename_i h; simp [h]
  · rename_i d ds h
    rw [h]
    split_ifs with hd
    · subst hd
      simp only [Option.some.injEq, List.cons.injEq, true_and]
      exact ⟨by rintro rfl; simp, fun h => by rw [h]; simp⟩
    · simp [hd]

theorem splitOnceList_append {c : Char} {xs ys : List Char} (h : c ∉ xs) :
    splitOnceList c (xs ++ c :: ys) = some (xs, ys) := by
  induction xs with
  | nil => simp [splitOnceList]
  | cons x xs ih =>
    simp only [List.mem_cons, not_or] at h
    simp [splitOnceList, Ne.symm h.1, ih h.2]

theorem splitOnceList_eq_none {c : Char} {xs : List Char} (h : c ∉ xs) :
    splitOnceList c xs = none := by
  induction xs with
  | nil => rfl
  | cons x xs ih =>
    simp only [List.mem_cons, not_or] at h
    simp [splitOnceList, Ne.symm h.1, ih h.2]

theorem splitOnceList_eq_some {c : Char} {zs xs ys : List Char}
    (h : splitOnceList c zs = some (xs, ys)) : zs = xs ++ c :: ys ∧ c ∉ xs := by
  induction zs generalizing xs with
  | nil => simp [splitOnceList] at h
  | cons z zs ih =>
    simp only [splitOnceList] at h
    split_ifs at h with hz
    · simp only [Option.some.injEq, Prod.mk.injEq] at h
      obtain ⟨rfl, rfl⟩ := h
      simp [hz]
    · simp only [Option.map_eq_some_iff, Prod.mk.injEq] at h
      obtain ⟨⟨xs', ys'⟩, hp, rfl, rfl⟩ := h
      obtain ⟨h1, h2⟩ := ih hp
      exact ⟨by simp [h1], by simp [h2, Ne.symm hz]⟩

theorem splitOnceList_eq (c : Char) (cs : List Char) :
    splitOnceList c cs =
      if c ∈ cs then some (cs.takeWhile (· ≠ c), (cs.dropWhile (· ≠ c)).drop 1) else none := by
  induction cs with
  | nil => rfl
  | cons d cs ih =>
    by_cases hd : d = c
    · simp [splitOnceList, hd]
    · have hd' : ¬ c = d := fun h => hd h.symm
      simp only [splitOnceList, hd, if_false, ih, List.mem_cons, hd', false_or]
      split_ifs <;> simp [hd]

/-! ### Cutting and joining -/

theorem split_eq_singleton {c : Char} {s : String} (h : c ∉ s.toList) : split c s = [s] := by
  simp [split, List.splitOn_eq_singleton h]

theorem split_ne_nil (c : Char) (s : String) : split c s ≠ [] := by
  simp [split, List.splitOn_ne_nil]

/-- The characters of a join are those of the parts and the separator. -/
theorem mem_join {c d : Char} {parts : List String} (h : d ∈ (join c parts).toList)
    (hd : d ≠ c) : ∃ p ∈ parts, d ∈ p.toList := by
  simp only [join, String.toList_ofList] at h
  induction parts with
  | nil => simp at h
  | cons p parts ih =>
    cases parts with
    | nil => exact ⟨p, by simp, by simpa using h⟩
    | cons q parts =>
      simp only [List.map_cons, List.intercalate_cons_cons, List.mem_append,
        List.mem_singleton] at h
      rcases h with (h | h) | h
      · exact ⟨p, by simp, h⟩
      · exact absurd h hd
      · obtain ⟨r, hr, hdr⟩ := ih h
        exact ⟨r, List.mem_cons_of_mem _ hr, hdr⟩

theorem mem_join_of_mem {c d : Char} {parts : List String} {p : String} (hp : p ∈ parts)
    (h : d ∈ p.toList) : d ∈ (join c parts).toList := by
  simp only [join, String.toList_ofList]
  induction parts with
  | nil => simp at hp
  | cons q parts ih =>
    cases parts with
    | nil => simp only [List.mem_singleton] at hp; simpa [hp] using h
    | cons r parts =>
      simp only [List.map_cons, List.intercalate_cons_cons, List.mem_append]
      rcases List.mem_cons.1 hp with rfl | hp
      · exact Or.inl (Or.inl h)
      · exact Or.inr (ih hp)

/-- Joining the parts of a text gives the text back. -/
theorem join_split (c : Char) (s : String) : join c (split c s) = s := by
  rw [join, split, map_toList_ofList, List.intercalate_splitOn]
  exact String.ofList_toList

theorem not_mem_of_mem_split {c : Char} {s p : String} (h : p ∈ split c s) : c ∉ p.toList := by
  simp only [split, List.mem_map] at h
  obtain ⟨xs, hxs, rfl⟩ := h
  rw [String.toList_ofList]
  generalize s.toList = cs at hxs
  induction cs generalizing xs with
  | nil => simp at hxs; simp [hxs]
  | cons d ds ih =>
    rw [List.splitOn_cons_eq_if_modifyHead] at hxs
    split_ifs at hxs with hd
    · rcases List.mem_cons.1 hxs with rfl | hxs
      · simp
      · exact ih xs hxs
    · obtain ⟨y, ys, hy⟩ := List.exists_cons_of_ne_nil (List.splitOn_ne_nil c ds)
      rw [hy, List.modifyHead_cons] at hxs
      rcases List.mem_cons.1 hxs with rfl | hxs
      · have hne : c ≠ d := by rintro rfl; simp at hd
        simp only [List.mem_cons, hne, false_or]
        exact ih y (by rw [hy]; exact List.mem_cons_self)
      · exact ih xs (by rw [hy]; exact List.mem_cons_of_mem _ hxs)

/-- The characters of a part are characters of the text. -/
theorem mem_of_mem_split {c d : Char} {s p : String} (h : p ∈ split c s) (hd : d ∈ p.toList) :
    d ∈ s.toList := by
  rw [← join_split c s]
  exact mem_join_of_mem h hd

/-- Parts without the separator are found again in their join. -/
theorem split_join {c : Char} {parts : List String} (hne : parts ≠ [])
    (h : ∀ p ∈ parts, c ∉ p.toList) : split c (join c parts) = parts := by
  simp only [split, join, String.toList_ofList]
  rw [List.splitOn_intercalate]
  · simp [Function.comp_def]
  · simpa using h
  · simpa using hne

end Str

end SpycatcherHarness
