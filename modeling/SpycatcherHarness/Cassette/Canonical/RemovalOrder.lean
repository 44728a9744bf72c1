import SpycatcherHarness.Cassette.Canonical.Removal

/-!
# The order of removals

`ordered_pointer_removals` turns the ignored paths into the removals that are carried out one after
another: the deepest first, and the entries of one array from its end.

* `Canonical.parseArrayIndexToken_eq_some_iff` : an index token is the decimal text of a number
  that fits `usize`.
* `Canonical.orderedPointerRemovals_spec` : each path is removed once, and no removal comes before
  one that it could displace (`Canonical.Precedes`).
-/

namespace SpycatcherHarness

namespace Canonical

/-! ### Digits -/

theorem digitChar_toNat {c : Char} (h : c.isDigit = true) :
    c.toNat - 48 < 10 ∧ Nat.digitChar (c.toNat - 48) = c := by
  have h48 : 48 ≤ c.toNat ∧ c.toNat ≤ 57 := Char.isDigit_iff_toNat.1 h
  refine ⟨by omega, Char.toNat_inj.1 ?_⟩
  rw [Nat.toNat_digitChar_of_lt_ten (by omega)]
  omega

/-- Reading further digits behind a positive number appends them to its text. -/
theorem toDigits_ofDigitChars {cs : List Char} (h : ∀ c ∈ cs, c.isDigit = true) :
    ∀ n, 0 < n → Nat.toDigits 10 (Nat.ofDigitChars 10 cs n) = Nat.toDigits 10 n ++ cs := by
  induction cs with
  | nil => intro n _; simp
  | cons c cs ih =>
    intro n hn
    obtain ⟨hlt, hc⟩ := digitChar_toNat (h c List.mem_cons_self)
    have hrest := ih (fun d hd => h d (List.mem_cons_of_mem _ hd)) (10 * n + (c.toNat - 48))
      (by omega)
    rw [Nat.ofDigitChars_cons]
    show Nat.toDigits 10 (Nat.ofDigitChars 10 cs (10 * n + (c.toNat - 48))) = _
    rw [hrest, ← Nat.toDigits_append_toDigits (by decide) hn hlt, Nat.toDigits_of_lt_base hlt, hc,
      List.append_assoc]
    rfl

theorem isAsciiDigit_iff {b : UInt8} : isAsciiDigit b = true ↔ 48 ≤ b.toNat ∧ b.toNat ≤ 57 := by
  simp only [isAsciiDigit, Bool.and_eq_true, decide_eq_true_eq, UInt8.le_iff_toNat_le]
  rfl

/-- A text whose bytes are digits is a text of digits. -/
theorem isDigit_of_asBytes {s : String} (h : ∀ b ∈ Str.asBytes s, isAsciiDigit b = true) :
    ∀ c ∈ s.toList, c.isDigit = true := by
  intro c hc
  obtain ⟨b, bs, hb⟩ := List.exists_cons_of_ne_nil (String.utf8EncodeChar_ne_nil (c := c))
  have hmem : b ∈ String.utf8EncodeChar c := by rw [hb]; exact List.mem_cons_self
  have hdigit := isAsciiDigit_iff.1 (h b (List.mem_flatMap.2 ⟨c, hc, hmem⟩))
  refine Char.isDigit_iff_toNat.2 ?_
  rw [Utf8.mem_utf8EncodeChar_ascii hmem (by omega)]
  exact hdigit

/-- A text of digits is a byte for each of them. -/
theorem asBytes_of_isDigit {cs : List Char} (h : ∀ c ∈ cs, c.isDigit = true) :
    Utf8.encode cs = cs.map fun c => UInt8.ofNat c.toNat := by
  induction cs with
  | nil => rfl
  | cons c cs ih =>
    have hc := Char.isDigit_iff_toNat.1 (h c List.mem_cons_self)
    rw [Utf8.encode_cons, ih fun d hd => h d (List.mem_cons_of_mem _ hd),
      Utf8.utf8EncodeChar_ascii (hc.2.trans (by decide))]
    rfl

theorem isAsciiDigit_of_isDigit {c : Char} (h : c.isDigit = true) :
    isAsciiDigit (UInt8.ofNat c.toNat) = true := by
  have hc : 48 ≤ c.toNat ∧ c.toNat ≤ 57 := Char.isDigit_iff_toNat.1 h
  rw [isAsciiDigit_iff, UInt8.toNat_ofNat', Nat.mod_eq_of_lt (by omega)]
  exact hc

/-! ### Index tokens -/

/-- Digits behind a digit other than zero are what their number is written as. -/
theorem repr_ofDigitChars {c : Char} {cs : List Char} (h : ∀ d ∈ c :: cs, d.isDigit = true)
    (h0 : c ≠ '0') : (Nat.ofDigitChars 10 (c :: cs) 0).repr = String.ofList (c :: cs) := by
  obtain ⟨hlt, hc⟩ := digitChar_toNat (h c List.mem_cons_self)
  have hpos : 0 < c.toNat - 48 := by
    refine Nat.pos_of_ne_zero fun hzero => h0 ?_
    rw [← hc, hzero]
    rfl
  have hread := toDigits_ofDigitChars (fun d hd => h d (List.mem_cons_of_mem _ hd)) _ hpos
  rw [Nat.toDigits_of_lt_base hlt, hc] at hread
  rw [Nat.repr_eq_ofList_toDigits, Nat.ofDigitChars_cons, Nat.mul_zero, Nat.zero_add]
  exact congrArg String.ofList hread

theorem eq_repr_of_parseArrayIndexToken {token : PointerToken} {i : ℕ}
    (h : parseArrayIndexToken token = some i) : token = i.repr ∧ i < 2 ^ 64 := by
  unfold parseArrayIndexToken at h
  split_ifs at h with h0
  · cases h
    exact ⟨h0, by decide⟩
  cases hbytes : Str.asBytes token with
  | nil => rw [hbytes] at h; cases h
  | cons first digits =>
    rw [hbytes] at h
    simp only [Bool.or_eq_true, beq_iff_eq, Bool.not_eq_eq_eq_not,
      Bool.not_true] at h
    split_ifs at h with h1 h2 h3
    obtain rfl := Option.some.inj h
    rw [not_or, Bool.not_eq_false] at h1
    rw [Bool.not_eq_false, List.all_eq_true] at h2
    have hdigits := isDigit_of_asBytes (s := token)
      (by rw [hbytes]; exact List.forall_mem_cons.2 ⟨h1.1, h2⟩)
    -- the first byte is the first character
    have hencode := asBytes_of_isDigit hdigits
    cases htoken : token.toList with
    | nil => rw [Str.asBytes, htoken] at hbytes; cases hbytes
    | cons c cs =>
      rw [htoken] at hdigits hencode h3
      rw [Str.asBytes, htoken, hencode] at hbytes
      have hc : c ≠ '0' := fun hc => h1.2 (by rw [← (List.cons.inj hbytes).1, hc]; rfl)
      rw [repr_ofDigitChars hdigits hc, ← htoken, String.ofList_toList, htoken]
      exact ⟨rfl, h3⟩

theorem repr_injective : Function.Injective Nat.repr := by
  intro i j h
  have hdigits := congrArg String.toList h
  rw [Nat.toList_repr, Nat.toList_repr] at hdigits
  rw [← Nat.ofDigitChars_ten_toDigits (n := i), hdigits, Nat.ofDigitChars_ten_toDigits]

theorem parseArrayIndexToken_repr {i : ℕ} (hi : i < 2 ^ 64) :
    parseArrayIndexToken i.repr = some i := by
  unfold parseArrayIndexToken
  split_ifs with h0
  · have hzero : i.repr = Nat.repr 0 := h0
    rw [repr_injective hzero]
  have hchars : i.repr.toList = Nat.toDigits 10 i := Nat.toList_repr
  have hdigits : ∀ c ∈ i.repr.toList, c.isDigit = true := fun c hc =>
    Nat.isDigit_of_mem_toDigits (by decide) (by decide) (hchars ▸ hc)
  have hencode := asBytes_of_isDigit hdigits
  rw [Str.asBytes, hencode]
  cases htoken : i.repr.toList with
  | nil => exact absurd (hchars ▸ htoken) Nat.toDigits_ne_nil
  | cons c cs =>
    rw [htoken] at hdigits
    have hc : UInt8.ofNat c.toNat ≠ 0x30 := by
      intro hc
      have hrange : 48 ≤ c.toNat ∧ c.toNat ≤ 57 :=
        Char.isDigit_iff_toNat.1 (hdigits c List.mem_cons_self)
      have hnat := congrArg UInt8.toNat hc
      rw [UInt8.toNat_ofNat', Nat.mod_eq_of_lt (by omega)] at hnat
      have hzero := NumberText.head_toDigits i c cs (hchars ▸ htoken) (Char.toNat_inj.1 hnat)
      exact h0 (by rw [hzero]; rfl)
    have hfirst := isAsciiDigit_of_isDigit (hdigits c List.mem_cons_self)
    have hrest : (cs.map fun c => UInt8.ofNat c.toNat).all isAsciiDigit = true := by
      rw [List.all_map, List.all_eq_true]
      exact fun d hd => isAsciiDigit_of_isDigit (hdigits d (List.mem_cons_of_mem _ hd))
    have hread : Nat.ofDigitChars 10 (c :: cs) 0 = i := by
      rw [← htoken, hchars, Nat.ofDigitChars_ten_toDigits]
    simp only [List.map_cons, hfirst, hrest, hread, hi, ↓reduceIte, Bool.not_true, Bool.false_or,
      beq_iff_eq, hc, Bool.false_eq_true]

/-- An index token is the decimal text of a number that fits `usize`. -/
theorem parseArrayIndexToken_eq_some_iff {token : PointerToken} {i : ℕ} :
    parseArrayIndexToken token = some i ↔ token = i.repr ∧ i < 2 ^ 64 := by
  refine ⟨eq_repr_of_parseArrayIndexToken, ?_⟩
  rintro ⟨rfl, hi⟩
  exact parseArrayIndexToken_repr hi

/-- A path to an array entry ends in its index. -/
theorem eq_append_of_arrayEntryIndex {tokens : List PointerToken} {i : ℕ}
    (h : arrayEntryIndex tokens = some i) : tokens = tokens.dropLast ++ [i.repr] := by
  obtain ⟨token, hlast, htoken⟩ := Option.bind_eq_some_iff.1 h
  rw [← (eq_repr_of_parseArrayIndexToken htoken).1]
  exact (List.dropLast_append_getLast? token hlast).symm

/-! ### Stable sorting -/

section
variable {α : Type*} {r : α → α → Prop} [DecidableRel r] [Std.Total r] [IsTrans α r]
  {R : α → α → Prop}

theorem pairwise_orderedInsert_stable {a : α} {l : List α}
    (hl : l.Pairwise fun x y => r x y ∧ (r y x → R x y)) (ha : ∀ b ∈ l, R a b) :
    (l.orderedInsert r a).Pairwise fun x y => r x y ∧ (r y x → R x y) := by
  induction l with
  | nil => simp
  | cons b l ih =>
    obtain ⟨hb, hl⟩ := List.pairwise_cons.1 hl
    rw [List.orderedInsert_cons]
    split_ifs with hab
    · refine List.pairwise_cons.2 ⟨fun c hc => ⟨?_, fun _ => ha c hc⟩,
        List.pairwise_cons.2 ⟨hb, hl⟩⟩
      rcases List.mem_cons.1 hc with rfl | hc
      · exact hab
      · exact IsTrans.trans _ _ _ hab (hb c hc).1
    · have hba : r b a := (Std.Total.total (r := r) a b).resolve_left hab
      refine List.pairwise_cons.2 ⟨fun c hc => ?_,
        ih hl fun c hc => ha c (List.mem_cons_of_mem _ hc)⟩
      rcases (List.mem_orderedInsert r).1 hc with rfl | hc
      · exact ⟨hba, fun h => absurd h hab⟩
      · exact hb c hc

/-- A sort is stable: what held along the list still holds between entries that tie. -/
theorem pairwise_insertionSort_stable {l : List α} (h : l.Pairwise R) :
    (l.insertionSort r).Pairwise fun x y => r x y ∧ (r y x → R x y) := by
  induction l with
  | nil => exact List.Pairwise.nil
  | cons a l ih =>
    obtain ⟨ha, hl⟩ := List.pairwise_cons.1 h
    exact pairwise_orderedInsert_stable (ih hl) fun b hb => ha b ((List.mem_insertionSort r).1 hb)

end

/-! ### Removals in order -/

/-- Removing `a` leaves the node at `b` in its place: it is another one, and not behind `a` in the
same array. -/
structure Clear (a b : List PointerToken) : Prop where
  ne : a ≠ b
  index_lt : a.dropLast = b.dropLast →
    ∀ i j, arrayEntryIndex a = some i → arrayEntryIndex b = some j → j < i

/-- `a` may be removed before `b`: it is at least as deep and leaves `b` in its place. -/
structure Precedes (a b : List PointerToken) : Prop extends Clear a b where
  length_le : b.length ≤ a.length

theorem Clear.of_dropLast_ne {a b : List PointerToken} (h : a.dropLast ≠ b.dropLast) : Clear a b :=
  ⟨fun hab => h (congrArg _ hab), fun heq => absurd heq h⟩

theorem mem_groupedRemovals {removals : List PointerRemoval} {parent t : List PointerToken} :
    t ∈ groupedRemovals removals parent ↔
      ∃ r ∈ removals, r.parentArray = some parent ∧ r.tokens = t := by
  simp [groupedRemovals, List.mem_insertionSort, and_assoc]

/-- What a removal knows of its parent is read off its tokens. -/
def Made (removals : List PointerRemoval) : Prop :=
  ∀ r ∈ removals, r = PointerRemoval.new r.tokens

theorem parentArray_eq_none {r : PointerRemoval} (hr : r = PointerRemoval.new r.tokens) :
    r.parentArray = none ↔ arrayEntryIndex r.tokens = none := by
  rw [hr]
  simp [PointerRemoval.new]

theorem parentArray_eq_some {r : PointerRemoval} {parent : List PointerToken}
    (hr : r = PointerRemoval.new r.tokens) (h : r.parentArray = some parent) :
    r.tokens.dropLast = parent ∧ ∃ i, arrayEntryIndex r.tokens = some i := by
  rw [hr] at h
  obtain ⟨i, hi, hparent⟩ := Option.map_eq_some_iff.1 h
  exact ⟨hparent, i, hi⟩

instance totalDescending {α : Type*} (f : α → ℕ) : Std.Total fun a b : α => f b ≤ f a :=
  ⟨fun a b => Nat.le_total (f b) (f a)⟩

instance transDescending {α : Type*} (f : α → ℕ) : IsTrans α fun a b : α => f b ≤ f a :=
  ⟨fun _ _ _ hab hbc => Nat.le_trans hbc hab⟩

/-- The grouped removals of an array go from its end. -/
theorem pairwise_groupedRemovals {removals : List PointerRemoval}
    (hnodup : (removals.map (·.tokens)).Nodup) (parent : List PointerToken) :
    (groupedRemovals removals parent).Pairwise Clear := by
  have hsub := (List.filter_sublist (l := removals)
    (p := fun r => decide (r.parentArray = some parent))).map (·.tokens)
  have hdistinct : (groupedRemovals removals parent).Pairwise (· ≠ ·) :=
    (List.perm_insertionSort _ _).nodup_iff.2 (hnodup.sublist hsub)
  have hsorted : (groupedRemovals removals parent).Pairwise fun a b =>
      (arrayEntryIndex b).getD 0 ≤ (arrayEntryIndex a).getD 0 := List.pairwise_insertionSort _ _
  refine (hdistinct.and hsorted).imp fun ⟨hne, hle⟩ => ⟨hne, fun hparent i j hi hj => ?_⟩
  rw [hi, hj] at hle
  refine lt_of_le_of_ne hle fun hij => hne ?_
  rw [eq_append_of_arrayEntryIndex hi, eq_append_of_arrayEntryIndex hj, hparent]
  exact congrArg (fun k => _ ++ [Nat.repr k]) hij.symm

/-- What is emitted: paths that end in no index, and the groups not emitted before. -/
theorem mem_emitRemovals {removals : List PointerRemoval} {t : List PointerToken} :
    ∀ {emitted rest}, t ∈ emitRemovals removals emitted rest ↔
      ∃ r ∈ rest, (r.parentArray = none ∧ r.tokens = t) ∨
        ∃ parent, r.parentArray = some parent ∧ parent ∉ emitted ∧
          t ∈ groupedRemovals removals parent := by
  intro emitted rest
  induction rest generalizing emitted with
  | nil => simp [emitRemovals]
  | cons r rest ih =>
    rw [List.exists_mem_cons_iff]
    cases hparent : r.parentArray with
    | none => simp [emitRemovals, hparent, ih, eq_comm]
    | some parent =>
      by_cases hemitted : parent ∈ emitted
      · simp [emitRemovals, hparent, ih, hemitted]
      · simp only [emitRemovals, hparent, hemitted, ↓reduceIte, List.mem_append, ih,
          List.mem_cons, not_or]
        constructor
        · rintro (h | ⟨x, hx, h | ⟨p, hp, hpe, ht⟩⟩)
          · exact Or.inl (Or.inr ⟨parent, rfl, hemitted, h⟩)
          · exact Or.inr ⟨x, hx, Or.inl h⟩
          · exact Or.inr ⟨x, hx, Or.inr ⟨p, hp, hpe.2, ht⟩⟩
        · rintro ((⟨h, -⟩ | ⟨p, hp, -, ht⟩) | ⟨x, hx, h | ⟨p, hp, hpe, ht⟩⟩)
          · cases h
          · cases hp
            exact Or.inl ht
          · exact Or.inr ⟨x, hx, Or.inl h⟩
          -- a further member of the group just emitted
          · by_cases hpp : p = parent
            · exact Or.inl (hpp ▸ ht)
            · exact Or.inr ⟨x, hx, Or.inr ⟨p, hp, ⟨hpp, hpe⟩, ht⟩⟩

/-- Every removal is emitted, and nothing else. -/
theorem mem_emitRemovals_self {removals : List PointerRemoval} {t : List PointerToken} :
    t ∈ emitRemovals removals [] removals ↔ ∃ r ∈ removals, r.tokens = t := by
  rw [mem_emitRemovals]
  constructor
  · rintro ⟨r, hr, ⟨-, rfl⟩ | ⟨parent, -, -, ht⟩⟩
    · exact ⟨r, hr, rfl⟩
    · obtain ⟨x, hx, -, rfl⟩ := mem_groupedRemovals.1 ht
      exact ⟨x, hx, rfl⟩
  · rintro ⟨r, hr, rfl⟩
    refine ⟨r, hr, ?_⟩
    cases hparent : r.parentArray with
    | none => exact Or.inl ⟨rfl, rfl⟩
    | some parent =>
      exact Or.inr ⟨parent, rfl, List.not_mem_nil, mem_groupedRemovals.2 ⟨r, hr, hparent, rfl⟩⟩

/-- What is emitted never displaces what is emitted later. -/
theorem pairwise_emitRemovals {removals : List PointerRemoval} (hmade : Made removals)
    (hnodup : (removals.map (·.tokens)).Nodup) :
    ∀ {emitted rest}, rest.Sublist removals →
      (emitRemovals removals emitted rest).Pairwise Clear := by
  intro emitted rest hsub
  induction rest generalizing emitted with
  | nil => exact List.Pairwise.nil
  | cons r rest ih =>
    have hrest := (List.sublist_cons_self r rest).trans hsub
    have hr := hsub.subset List.mem_cons_self
    -- what ends in an index and what does not are never the same path
    have hindex : ∀ {parent t}, t ∈ groupedRemovals removals parent →
        t.dropLast = parent ∧ ∃ i, arrayEntryIndex t = some i := by
      intro parent t ht
      obtain ⟨x, hx, hparent, rfl⟩ := mem_groupedRemovals.1 ht
      exact parentArray_eq_some (hmade x hx) hparent
    cases hparent : r.parentArray with
    | none =>
      have hnone := (parentArray_eq_none (hmade r hr)).1 hparent
      rw [emitRemovals, hparent]
      refine List.pairwise_cons.2 ⟨fun t ht => ⟨?_, fun _ i _ hi => ?_⟩, ih hrest⟩
      · rintro rfl
        obtain ⟨x, hx, ⟨-, heq⟩ | ⟨parent, -, -, ht⟩⟩ := mem_emitRemovals.1 ht
        · have hdistinct := hnodup.sublist (hsub.map (·.tokens))
          exact (List.nodup_cons.1 hdistinct).1 (List.mem_map.2 ⟨x, hx, heq⟩)
        · obtain ⟨-, i, hi⟩ := hindex ht
          rw [hnone] at hi
          cases hi
      · rw [hnone] at hi
        cases hi
    | some parent =>
      rw [emitRemovals, hparent]
      simp only
      split_ifs with hemitted
      · exact ih hrest
      refine List.pairwise_append.2 ⟨pairwise_groupedRemovals hnodup parent, ih hrest, ?_⟩
      intro a ha b hb
      obtain ⟨haparent, i, hi⟩ := hindex ha
      obtain ⟨x, hx, ⟨hnone, rfl⟩ | ⟨other, -, hother, hb⟩⟩ := mem_emitRemovals.1 hb
      · have hx := (parentArray_eq_none (hmade x (hrest.subset hx))).1 hnone
        refine ⟨fun hab => ?_, fun _ _ j _ hj => ?_⟩
        · rw [← hab, hi] at hx
          cases hx
        · rw [hx] at hj
          cases hj
      · refine Clear.of_dropLast_ne ?_
        rw [haparent, (hindex hb).1]
        exact fun h => hother (h ▸ List.mem_cons_self)

/-! ### From the configured paths -/

/-- Deduplicating keeps every path, each once. -/
theorem foldl_deduplicate (removals : List PointerRemoval) :
    ∀ kept : List PointerRemoval, (kept.map (·.tokens)).Nodup →
      let out := removals.foldl
        (fun kept r => if kept.any (·.tokens = r.tokens) then kept else kept ++ [r]) kept
      (out.map (·.tokens)).Nodup ∧ out.Sublist (kept ++ removals) ∧
        ∀ t, t ∈ out.map (·.tokens) ↔ t ∈ (kept ++ removals).map (·.tokens) := by
  induction removals with
  | nil => intro kept hkept; simpa using hkept
  | cons r removals ih =>
    intro kept hkept
    rw [List.foldl_cons]
    by_cases hmem : r.tokens ∈ kept.map (·.tokens)
    · have hany : kept.any (fun x => decide (x.tokens = r.tokens)) = true := by
        simpa using hmem
      rw [if_pos hany]
      obtain ⟨hnodup, hsub, hout⟩ := ih kept hkept
      refine ⟨hnodup,
        hsub.trans (List.Sublist.append_left (List.sublist_cons_self r removals) kept),
        fun t => (hout t).trans ?_⟩
      simp only [List.map_append, List.map_cons, List.mem_append, List.mem_cons]
      constructor
      · exact fun h => h.imp_right Or.inr
      · rintro (h | rfl | h)
        · exact Or.inl h
        · exact Or.inl hmem
        · exact Or.inr h
    · have hany : ¬ kept.any (fun x => decide (x.tokens = r.tokens)) = true := by
        simpa using hmem
      rw [if_neg hany]
      have hnew : ((kept ++ [r]).map (·.tokens)).Nodup := by
        rw [List.map_append, List.nodup_append]
        refine ⟨hkept, List.nodup_singleton _, fun a ha b hb hab => hmem ?_⟩
        rw [List.map_cons, List.map_nil, List.mem_singleton] at hb
        rwa [← hb, ← hab]
      simpa using ih (kept ++ [r]) hnew

/-- Paths that parse are parsed one after another. -/
theorem mapM_parseJsonPointer {paths : List String}
    (hpaths : ∀ path ∈ paths, (parseJsonPointer path).isSome) :
    ∃ removals : List PointerRemoval, (paths.mapM fun path =>
        match parseJsonPointer path with
        | none => Except.error (CanonicalError.invalidPointerPath path)
        | some tokens => .ok (PointerRemoval.new tokens)) = .ok removals ∧
      Made removals ∧ ∀ t, t ∈ removals.map (·.tokens) ↔
        ∃ path ∈ paths, parseJsonPointer path = some t := by
  induction paths with
  | nil => exact ⟨[], rfl, by simp [Made], by simp⟩
  | cons path paths ih =>
    obtain ⟨hpath, hpaths⟩ := List.forall_mem_cons.1 hpaths
    obtain ⟨removals, hm, hmade, hmem⟩ := ih hpaths
    obtain ⟨tokens, htokens⟩ := Option.isSome_iff_exists.1 hpath
    refine ⟨PointerRemoval.new tokens :: removals, ?_, List.forall_mem_cons.2 ⟨rfl, hmade⟩, ?_⟩
    · rw [List.mapM_cons, htokens]
      simp only [bind, Except.bind]
      rw [hm]
      rfl
    · intro t
      rw [List.map_cons, List.mem_cons, hmem, List.exists_mem_cons_iff, htokens, Option.some.injEq]
      exact or_congr_left eq_comm

theorem Precedes.of_stable {a b : List PointerToken}
    (h : b.length ≤ a.length ∧ (a.length ≤ b.length → Clear a b)) : Precedes a b := by
  obtain ⟨hle, hclear⟩ := h
  refine ⟨⟨fun hab => (hclear (by rw [hab])).ne hab, fun hparent i j hi hj => ?_⟩, hle⟩
  -- paths of one parent are equally long
  have ha := congrArg List.length (eq_append_of_arrayEntryIndex hi)
  have hb := congrArg List.length (eq_append_of_arrayEntryIndex hj)
  rw [hparent, List.length_append, List.length_singleton] at ha
  rw [List.length_append, List.length_singleton] at hb
  exact (hclear (by omega)).index_lt hparent i j hi hj

/-- **The removals of a list of paths**: each path is removed once, in an order in which no removal
displaces a later one. -/
theorem orderedPointerRemovals_spec {ignoredBodyPaths : List String}
    (hpaths : ∀ path ∈ ignoredBodyPaths, (parseJsonPointer path).isSome) :
    ∃ removals, orderedPointerRemovals ignoredBodyPaths = .ok removals ∧
      removals.Pairwise Precedes ∧ ∀ tokens, tokens ∈ removals ↔
        ∃ path ∈ ignoredBodyPaths, parseJsonPointer path = some tokens := by
  obtain ⟨parsed, hparsed, hmade, hmem⟩ := mapM_parseJsonPointer hpaths
  obtain ⟨hnodup, hsub, htokens⟩ := foldl_deduplicate parsed [] List.nodup_nil
  have hclear : (emitRemovals (deduplicateRemovals parsed) [] (deduplicateRemovals parsed)).Pairwise
      Clear :=
    pairwise_emitRemovals (fun r hr => hmade r (hsub.subset hr)) hnodup (List.Sublist.refl _)
  have hrun : orderedPointerRemovals ignoredBodyPaths = .ok
      ((emitRemovals (deduplicateRemovals parsed) [] (deduplicateRemovals parsed)).insertionSort
        fun a b => b.length ≤ a.length) :=
    congrArg (fun x : Except CanonicalError (List PointerRemoval) => x >>= fun removals =>
      let deduplicated := deduplicateRemovals removals
      pure ((emitRemovals deduplicated [] deduplicated).insertionSort
        fun a b : List PointerToken => b.length ≤ a.length)) hparsed
  refine ⟨_, hrun, (pairwise_insertionSort_stable hclear).imp Precedes.of_stable, fun tokens => ?_⟩
  rw [List.mem_insertionSort, mem_emitRemovals_self, ← hmem, ← List.nil_append parsed, ← htokens,
    List.mem_map]
  rfl

end Canonical

end SpycatcherHarness
