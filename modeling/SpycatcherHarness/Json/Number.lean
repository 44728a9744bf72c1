import Mathlib.Algebra.Group.Nat.Defs
import Mathlib.Data.List.TakeWhile

/-!
# JSON numbers

A number of the `serde_json` crate is an unsigned 64-bit integer, a negative 64-bit integer or a
finite float.  A float is held by its sign and the shortest decimal text of its magnitude, which
is how the crate prints it, so two floats are the same value exactly if these agree.

* `Number.toText` : the decimal text of a number.
* `Number.ofText` : the number that a decimal text stands for exactly.
* `Number.ofText_toText` : the text of a number determines it.
-/

namespace SpycatcherHarness

namespace NumberText

/-- Characters of a number. -/
def isNumberChar (c : Char) : Bool := c.isDigit || c == '.' || c == 'e' || c == '-' || c == '+'

/-- Digits without a leading zero. -/
def isNatText : List Char → Bool
  | [] => false
  | ['0'] => true
  | c :: cs => c != '0' && c.isDigit && cs.all Char.isDigit

/-- An exponent: `e`, a sign or none, digits. -/
def isExponent : List Char → Bool
  | 'e' :: '-' :: cs => cs != [] && cs.all Char.isDigit
  | 'e' :: '+' :: cs => cs != [] && cs.all Char.isDigit
  | 'e' :: cs => cs != [] && cs.all Char.isDigit
  | _ => false

/-- A point and digits, an exponent, or the one and then the other. -/
def isFraction : List Char → Bool
  | '.' :: cs =>
    cs.takeWhile Char.isDigit != [] &&
      (cs.dropWhile Char.isDigit == [] || isExponent (cs.dropWhile Char.isDigit))
  | cs => isExponent cs

/-- The text of a float's magnitude: unlike an integer's, it has a point or an exponent. -/
def isFloatText (cs : List Char) : Bool :=
  isNatText (cs.takeWhile Char.isDigit) && isFraction (cs.dropWhile Char.isDigit)

theorem isNumberChar_of_isDigit {c : Char} (h : c.isDigit = true) : isNumberChar c = true := by
  simp [isNumberChar, h]

theorem isDigit_of_isNatText {cs : List Char} (h : isNatText cs = true) :
    ∀ c ∈ cs, c.isDigit = true := by
  unfold isNatText at h
  split at h
  · cases h
  · simp [Char.isDigit]
  · simp only [Bool.and_eq_true, List.all_eq_true] at h
    intro c hc
    rcases List.mem_cons.1 hc with rfl | hc
    · exact h.1.2
    · exact h.2 c hc

theorem isNumberChar_of_isExponent {cs : List Char} (h : isExponent cs = true) :
    ∀ c ∈ cs, isNumberChar c = true := by
  have hdigits : ∀ ds : List Char, (ds != [] && ds.all Char.isDigit) = true →
      ∀ c ∈ ds, isNumberChar c = true := by
    intro ds hds c hc
    simp only [Bool.and_eq_true, List.all_eq_true] at hds
    exact isNumberChar_of_isDigit (hds.2 c hc)
  unfold isExponent at h
  split at h
  · simpa [isNumberChar] using hdigits _ h
  · simpa [isNumberChar] using hdigits _ h
  · simpa [isNumberChar] using hdigits _ h
  · cases h

theorem isNumberChar_of_isFloatText {cs : List Char} (h : isFloatText cs = true) :
    ∀ c ∈ cs, isNumberChar c = true := by
  simp only [isFloatText, Bool.and_eq_true] at h
  have hfrac : ∀ ds : List Char, isFraction ds = true → ∀ c ∈ ds, isNumberChar c = true := by
    intro ds hds
    unfold isFraction at hds
    split at hds
    · rename_i es
      simp only [Bool.and_eq_true, Bool.or_eq_true, beq_iff_eq] at hds
      intro c hc
      rcases List.mem_cons.1 hc with rfl | hc
      · rfl
      rw [← List.takeWhile_append_dropWhile (p := Char.isDigit) (l := es)] at hc
      rcases List.mem_append.1 hc with hc | hc
      · exact isNumberChar_of_isDigit (List.mem_takeWhile_imp hc)
      · rcases hds.2 with he | he
        · rw [he] at hc; cases hc
        · exact isNumberChar_of_isExponent he c hc
    · exact isNumberChar_of_isExponent hds
  intro c hc
  rw [← List.takeWhile_append_dropWhile (p := Char.isDigit) (l := cs)] at hc
  rcases List.mem_append.1 hc with hc | hc
  · exact isNumberChar_of_isDigit (List.mem_takeWhile_imp hc)
  · exact hfrac _ h.2 c hc

/-- A float's text starts with a digit. -/
theorem exists_digit_of_isFloatText {cs : List Char} (h : isFloatText cs = true) :
    ∃ d ds, cs = d :: ds ∧ d.isDigit = true := by
  simp only [isFloatText, Bool.and_eq_true] at h
  cases cs with
  | nil => cases h.1
  | cons d ds =>
    refine ⟨d, ds, rfl, ?_⟩
    by_contra hd
    rw [List.takeWhile_cons_of_neg hd] at h
    cases h.1

/-- No text is both an integer's and a float's. -/
theorem isNatText_of_isFloatText {cs : List Char} (h : isFloatText cs = true) :
    isNatText cs = false := by
  refine Bool.eq_false_iff.2 fun hn => ?_
  have hall := isDigit_of_isNatText hn
  simp only [isFloatText, Bool.and_eq_true] at h
  rw [List.dropWhile_eq_nil_iff.2 hall] at h
  cases h.2

theorem head_toDigits (n : ℕ) : ∀ c cs, Nat.toDigits 10 n = c :: cs → c = '0' → n = 0 := by
  induction n using Nat.strongRecOn with
  | _ n ih =>
    intro c cs hn hc
    by_cases hlt : n < 10
    · rw [Nat.toDigits_of_lt_base hlt] at hn
      obtain ⟨rfl, -⟩ := List.cons.inj hn
      have hzero : ∀ m < 10, Nat.digitChar m = '0' → m = 0 := by decide
      exact hzero n hlt hc
    · rw [Nat.toDigits_of_base_le (by omega) (by omega)] at hn
      obtain ⟨d, ds, hd⟩ := List.exists_cons_of_ne_nil (Nat.toDigits_ne_nil (n := n / 10) (b := 10))
      rw [hd, List.cons_append] at hn
      obtain ⟨rfl, -⟩ := List.cons.inj hn
      have := ih (n / 10) (by omega) d ds hd hc
      omega

theorem isNatText_toDigits (n : ℕ) : isNatText (Nat.toDigits 10 n) = true := by
  obtain ⟨c, cs, hc⟩ := List.exists_cons_of_ne_nil (Nat.toDigits_ne_nil (n := n) (b := 10))
  have hdigit : ∀ d ∈ c :: cs, d.isDigit = true := by
    intro d hd
    rw [← hc] at hd
    exact Nat.isDigit_of_mem_toDigits (by decide) (by decide) hd
  by_cases h0 : c = '0'
  · have hn := head_toDigits n c cs hc h0
    rw [hn]; rfl
  · rw [hc]
    unfold isNatText
    split
    · simp at *
    · simp_all
    · rename_i he
      obtain ⟨rfl, rfl⟩ := List.cons.inj he
      simp [h0, hdigit c List.mem_cons_self, List.all_eq_true]
      exact fun d hd => hdigit d (List.mem_cons_of_mem _ hd)

end NumberText

open NumberText

/-- A finite 64-bit float. -/
structure Float64 where
  /-- The sign; zero has both. -/
  negative : Bool
  /-- The shortest decimal text of the magnitude. -/
  digits : String
  shaped : isFloatText digits.toList = true
  deriving DecidableEq

/-- `serde_json::Number`. -/
inductive Number where
  /-- An integer that fits `u64`. -/
  | posInt (n : UInt64)
  /-- The negative integer `-(m + 1)`, which fits `i64`. -/
  | negInt (m : Fin (2 ^ 63))
  | float (x : Float64)
  deriving DecidableEq

namespace Number

/-- `Number::to_string`. -/
def toText : Number → String
  | posInt n => n.toNat.repr
  | negInt m => "-" ++ (m.val + 1).repr
  | float x => (if x.negative then "-" else "") ++ x.digits

/-- The float with a sign and a magnitude's text. -/
def ofFloatText (negative : Bool) (cs : List Char) : Option Number :=
  if h : isFloatText cs = true then
    some (float ⟨negative, String.ofList cs, by rwa [String.toList_ofList]⟩)
  else none

/-- The number that a text stands for exactly.  An integer too large for 64 bits would have to be
rounded to a float and is rejected; `-0` is a float. -/
def ofText : List Char → Option Number
  | '-' :: cs =>
    if isNatText cs then
      let m := Nat.ofDigitChars 10 cs 0
      if m = 0 then ofFloatText true ['0', '.', '0']
      else if h : m - 1 < 2 ^ 63 then some (negInt ⟨m - 1, h⟩) else none
    else ofFloatText true cs
  | cs =>
    if isNatText cs then
      let n := Nat.ofDigitChars 10 cs 0
      if n < 2 ^ 64 then some (posInt (UInt64.ofNat n)) else none
    else ofFloatText false cs

theorem ofFloatText_digits (x : Float64) :
    ofFloatText x.negative x.digits.toList = some (float x) := by
  simp [ofFloatText, x.shaped]

/-- The characters of a number's text. -/
theorem isNumberChar_toText (n : Number) : ∀ c ∈ n.toText.toList, isNumberChar c = true := by
  have hnat : ∀ m : ℕ, ∀ c ∈ m.repr.toList, isNumberChar c = true := by
    intro m c hc
    rw [Nat.toList_repr] at hc
    exact isNumberChar_of_isDigit (Nat.isDigit_of_mem_toDigits (by decide) (by decide) hc)
  cases n with
  | posInt n => exact hnat _
  | negInt m =>
    intro c hc
    simp only [toText, String.toList_append, List.mem_append] at hc
    rcases hc with hc | hc
    · rw [show c = '-' from List.mem_singleton.1 hc]
      rfl
    · exact hnat _ c hc
  | float x =>
    intro c hc
    simp only [toText, String.toList_append, List.mem_append] at hc
    rcases hc with hc | hc
    · split_ifs at hc
      · rw [show c = '-' from List.mem_singleton.1 hc]
        rfl
      · simp at hc
    · exact isNumberChar_of_isFloatText x.shaped c hc

/-- A number's text starts with a digit or with a minus sign. -/
theorem exists_head_toText (n : Number) :
    ∃ c cs, n.toText.toList = c :: cs ∧ (c.isDigit = true ∨ c = '-') := by
  cases n with
  | posInt n =>
    obtain ⟨c, cs, hc⟩ := List.exists_cons_of_ne_nil
      (Nat.toDigits_ne_nil (n := n.toNat) (b := 10))
    refine ⟨c, cs, by rw [toText, Nat.toList_repr, hc], Or.inl ?_⟩
    exact Nat.isDigit_of_mem_toDigits (by decide) (by decide) (hc ▸ List.mem_cons_self)
  | negInt m => exact ⟨'-', (m.val + 1).repr.toList, by simp [toText], Or.inr rfl⟩
  | float x =>
    obtain ⟨d, ds, hd, hdigit⟩ := exists_digit_of_isFloatText x.shaped
    cases hneg : x.negative with
    | true => exact ⟨'-', x.digits.toList, by simp [toText, hneg], Or.inr rfl⟩
    | false => exact ⟨d, ds, by simp [toText, hneg, hd], Or.inl hdigit⟩

/-- The text of a number determines it. -/
theorem ofText_toText (n : Number) : ofText n.toText.toList = some n := by
  -- without a sign the text is that of a natural number or of a float
  have hpos : ∀ cs, (∀ ds, cs ≠ '-' :: ds) → ofText cs =
      if isNatText cs then
        if Nat.ofDigitChars 10 cs 0 < 2 ^ 64
        then some (posInt (UInt64.ofNat (Nat.ofDigitChars 10 cs 0))) else none
      else ofFloatText false cs := by
    intro cs hcs
    unfold ofText
    split
    · exact absurd rfl (hcs _)
    · rfl
  cases n with
  | posInt n =>
    have hhead : ∀ ds, Nat.toDigits 10 n.toNat ≠ '-' :: ds := by
      intro ds h
      have := Nat.isDigit_of_mem_toDigits (b := 10) (c := '-') (by decide) (by decide)
        (h ▸ List.mem_cons_self)
      revert this; decide
    rw [toText, Nat.toList_repr, hpos _ hhead]
    simp [isNatText_toDigits, n.toNat_lt]
  | negInt m =>
    simp [toText, ofText, isNatText_toDigits]
  | float x =>
    -- the text of a float is not that of an integer, so it is read as a float
    cases hneg : x.negative with
    | true =>
      have : (float x).toText.toList = '-' :: x.digits.toList := by simp [toText, hneg]
      rw [this]
      simp only [ofText, isNatText_of_isFloatText x.shaped, Bool.false_eq_true, ↓reduceIte]
      rw [← hneg]; exact ofFloatText_digits x
    | false =>
      have ht : (float x).toText.toList = x.digits.toList := by simp [toText, hneg]
      have hhead : ∀ ds, x.digits.toList ≠ '-' :: ds := by
        intro ds h
        obtain ⟨d, es, hd, hdigit⟩ := exists_digit_of_isFloatText x.shaped
        obtain ⟨rfl, -⟩ := List.cons.inj (hd.symm.trans h)
        revert hdigit; decide
      rw [ht, hpos _ hhead]
      simp only [isNatText_of_isFloatText x.shaped, Bool.false_eq_true, ↓reduceIte]
      rw [← hneg]; exact ofFloatText_digits x

theorem toText_injective : Function.Injective toText := by
  intro m n h
  have := ofText_toText m
  rw [h, ofText_toText] at this
  exact (Option.some.inj this).symm

end Number

end SpycatcherHarness
