import Mathlib.Data.List.Basic

/-!
# Cutting a stream into lines

A stream over an alphabet with two line symbols `cr` and `lf` is cut at `lf`, at `cr`, or at `cr`
followed by `lf`.  `Lines.cut` takes the first complete line off the front.  A `cr` at the very
end of what has arrived is not cut yet: it may be the first half of a two-symbol line end.

The point of that rule is `Lines.cut_append`: once a line can be cut, more input does not change
where it is cut.  `Lines.cut_lf`, `Lines.cut_crlf` and `Lines.cut_cr` are the other direction: a
text without line symbols followed by a line end is cut exactly there.

`Lines.pieces` cuts a whole stream at every line end, without look-ahead; `Lines.Cuts` is what
comes of taking complete lines off the front as long as there are any.  They agree up to what is
left at the end (`Lines.Cuts.pieces_eq`).  `Lines.Unsplit` says of lines that were cut off that no
line end was cut in two.
-/

namespace SpycatcherHarness

namespace Lines

variable {α : Type*} [DecidableEq α] (cr lf : α)

/-- The first complete line, the line end it was cut at, and what follows. -/
def cut : List α → Option (List α × List α × List α)
  | [] => none
  | b :: rest =>
    if b = lf then some ([], [b], rest)
    else if b = cr then
      match rest with
      | [] => none
      | n :: rest' => if n = lf then some ([], [b, n], rest') else some ([], [b], n :: rest')
    else (cut rest).map fun r => (b :: r.1, r.2)

/-- A line end. -/
def IsEnd (t : List α) : Prop := t = [lf] ∨ t = [cr] ∨ t = [cr, lf]

variable {cr lf}

omit [DecidableEq α] in
theorem IsEnd.length_pos {t : List α} (h : IsEnd cr lf t) : 0 < t.length := by
  rcases h with rfl | rfl | rfl <;> simp

theorem cut_cons_of_ne {b : α} {rest : List α} (h1 : b ≠ lf) (h2 : b ≠ cr) :
    cut cr lf (b :: rest) = (cut cr lf rest).map fun r => (b :: r.1, r.2) := by
  simp [cut, h1, h2]

/-- What a cut takes off: a line without line symbols, and a line end. -/
theorem cut_eq_some {xs line term rest : List α} (h : cut cr lf xs = some (line, term, rest)) :
    xs = line ++ (term ++ rest) ∧ (cr ∉ line ∧ lf ∉ line) ∧ IsEnd cr lf term := by
  induction xs generalizing line with
  | nil => simp [cut] at h
  | cons b xs ih =>
    by_cases hlf : b = lf
    · simp only [cut, hlf, ↓reduceIte, Option.some.injEq, Prod.mk.injEq] at h
      obtain ⟨rfl, rfl, rfl⟩ := h
      exact ⟨by simp [hlf], by simp, Or.inl rfl⟩
    -- a `cr` is cut at only once the symbol behind it is known
    by_cases hcr : b = cr
    · subst hcr
      cases xs with
      | nil => simp [cut, hlf] at h
      | cons n xs =>
        simp only [cut, hlf, ↓reduceIte] at h
        split_ifs at h with hn
        · simp only [Option.some.injEq, Prod.mk.injEq] at h
          obtain ⟨rfl, rfl, rfl⟩ := h
          exact ⟨by simp, by simp, Or.inr (Or.inr (by rw [hn]))⟩
        · simp only [Option.some.injEq, Prod.mk.injEq] at h
          obtain ⟨rfl, rfl, rfl⟩ := h
          exact ⟨by simp, by simp, Or.inr (Or.inl rfl)⟩
    · rw [cut_cons_of_ne hlf hcr, Option.map_eq_some_iff] at h
      obtain ⟨⟨line', term', rest'⟩, hcut, he⟩ := h
      simp only [Prod.mk.injEq] at he
      obtain ⟨rfl, rfl, rfl⟩ := he
      obtain ⟨rfl, ⟨hc, hl⟩, hterm⟩ := ih hcut
      exact ⟨rfl, ⟨by simp [hc, Ne.symm hcr], by simp [hl, Ne.symm hlf]⟩, hterm⟩

/-- A cut shortens the stream. -/
theorem length_lt_of_cut {xs line term rest : List α}
    (h : cut cr lf xs = some (line, term, rest)) : rest.length < xs.length := by
  obtain ⟨rfl, -, hterm⟩ := cut_eq_some h
  have := hterm.length_pos
  simp only [List.length_append]
  omega

/-- A line is cut at a `cr` alone only in front of another symbol than `lf`. -/
theorem cut_cr_alone {xs line rest : List α} (h : cut cr lf xs = some (line, [cr], rest))
    (hne : cr ≠ lf) : ∃ n rest', rest = n :: rest' ∧ n ≠ lf := by
  induction xs generalizing line with
  | nil => simp [cut] at h
  | cons b xs ih =>
    by_cases hlf : b = lf
    · simp [cut, hlf, Ne.symm hne] at h
    by_cases hcr : b = cr
    · subst hcr
      cases xs with
      | nil => simp [cut, hlf] at h
      | cons n xs =>
        simp only [cut, hlf, ↓reduceIte] at h
        split_ifs at h with hn
        · simp at h
        · simp only [Option.some.injEq, Prod.mk.injEq] at h
          exact ⟨n, xs, h.2.2.symm, hn⟩
    · rw [cut_cons_of_ne hlf hcr, Option.map_eq_some_iff] at h
      obtain ⟨⟨line', term', rest'⟩, hcut, he⟩ := h
      simp only [Prod.mk.injEq] at he
      obtain ⟨-, rfl, rfl⟩ := he
      exact ih hcut

/-- More input does not move a cut. -/
theorem cut_append {xs line term rest : List α} (ys : List α)
    (h : cut cr lf xs = some (line, term, rest)) :
    cut cr lf (xs ++ ys) = some (line, term, rest ++ ys) := by
  induction xs generalizing line with
  | nil => simp [cut] at h
  | cons b xs ih =>
    by_cases hlf : b = lf
    · simp only [cut, hlf, ↓reduceIte, Option.some.injEq, Prod.mk.injEq] at h
      obtain ⟨rfl, rfl, rfl⟩ := h
      simp [cut, hlf]
    -- the symbol behind a `cr` is there already, so more input does not change it
    by_cases hcr : b = cr
    · subst hcr
      cases xs with
      | nil => simp [cut, hlf] at h
      | cons n xs =>
        simp only [cut, hlf, ↓reduceIte, List.cons_append] at h ⊢
        split_ifs at h ⊢ with h1 <;>
          (simp only [Option.some.injEq, Prod.mk.injEq] at h
           obtain ⟨rfl, rfl, rfl⟩ := h
           rfl)
    · rw [cut_cons_of_ne hlf hcr, Option.map_eq_some_iff] at h
      obtain ⟨⟨line', term', rest'⟩, hcut, he⟩ := h
      simp only [Prod.mk.injEq] at he
      obtain ⟨rfl, rfl, rfl⟩ := he
      rw [List.cons_append, cut_cons_of_ne hlf hcr, ih hcut]
      rfl

/-- A text without line symbols is cut at the `lf` after it. -/
theorem cut_lf {line : List α} (rest : List α) (hc : cr ∉ line) (hl : lf ∉ line) :
    cut cr lf (line ++ lf :: rest) = some (line, [lf], rest) := by
  induction line with
  | nil => simp [cut]
  | cons b line ih =>
    simp only [List.mem_cons, not_or] at hc hl
    rw [List.cons_append, cut_cons_of_ne (Ne.symm hl.1) (Ne.symm hc.1), ih hc.2 hl.2]
    rfl

/-- Where nothing can be cut there is no line symbol, but for a `cr` at the end. -/
theorem cut_eq_none_iff {xs : List α} :
    cut cr lf xs = none ↔ lf ∉ xs ∧ ∀ ys zs, xs = ys ++ cr :: zs → zs = [] := by
  induction xs with
  | nil => simp [cut]
  | cons b xs ih =>
    by_cases hlf : b = lf
    · simp [cut, hlf]
    by_cases hcr : b = cr
    · subst hcr
      cases xs with
      | nil =>
        simp only [cut, hlf, ↓reduceIte, List.mem_singleton, Ne.symm hlf, not_false_eq_true,
          true_and, true_iff]
        intro ys zs h
        cases ys with
        | nil => simpa using h.symm
        | cons y ys => simp at h
      | cons n xs =>
        simp only [cut, hlf, ↓reduceIte]
        refine ⟨fun h => by split_ifs at h, fun ⟨_, h⟩ => ?_⟩
        simpa using h [] (n :: xs) rfl
    · rw [cut_cons_of_ne hlf hcr, Option.map_eq_none_iff, ih]
      simp only [List.mem_cons, Ne.symm hlf, false_or, and_congr_right_iff]
      intro _
      constructor
      · intro h ys zs he
        cases ys with
        | nil => simp [hcr] at he
        | cons y ys =>
          simp only [List.cons_append, List.cons.injEq] at he
          exact h ys zs he.2
      · intro h ys zs he
        exact h (b :: ys) zs (by rw [he]; rfl)

/-- A text without line symbols is cut at the `cr` `lf` after it. -/
theorem cut_crlf {line : List α} (rest : List α) (hne : cr ≠ lf) (hc : cr ∉ line) (hl : lf ∉ line) :
    cut cr lf (line ++ cr :: lf :: rest) = some (line, [cr, lf], rest) := by
  induction line with
  | nil => simp [cut, hne]
  | cons b line ih =>
    simp only [List.mem_cons, not_or] at hc hl
    rw [List.cons_append, cut_cons_of_ne (Ne.symm hl.1) (Ne.symm hc.1), ih hc.2 hl.2]
    rfl

/-- A text without line symbols is cut at the `cr` after it, if another symbol than `lf` comes
next. -/
theorem cut_cr {line : List α} {n : α} (rest : List α) (hne : cr ≠ lf) (hn : n ≠ lf)
    (hc : cr ∉ line) (hl : lf ∉ line) :
    cut cr lf (line ++ cr :: n :: rest) = some (line, [cr], n :: rest) := by
  induction line with
  | nil => simp [cut, hne, hn]
  | cons b line ih =>
    simp only [List.mem_cons, not_or] at hc hl
    rw [List.cons_append, cut_cons_of_ne (Ne.symm hl.1) (Ne.symm hc.1), ih hc.2 hl.2]
    rfl

/-! ### What has been cut off -/

/-- Lines and the line ends they were cut at, put together again. -/
def joined (cuts : List (List α × List α)) : List α := cuts.flatMap fun c => c.1 ++ c.2

variable (cr lf) in
/-- A line that was cut at a `cr` alone is followed by another symbol than `lf`: no line end of two
symbols has been cut in two. -/
def Unsplit : List (List α × List α) → List α → Prop
  | [], _ => True
  | (_, term) :: cuts, left =>
    (term = [cr] → ∃ n rest, joined cuts ++ left = n :: rest ∧ n ≠ lf) ∧ Unsplit cuts left

omit [DecidableEq α] in
@[simp] theorem joined_nil : joined ([] : List (List α × List α)) = [] := rfl

omit [DecidableEq α] in
@[simp] theorem joined_cons (line term : List α) (cuts : List (List α × List α)) :
    joined ((line, term) :: cuts) = line ++ (term ++ joined cuts) := by
  simp [joined]

omit [DecidableEq α] in
@[simp] theorem joined_append (cuts cuts' : List (List α × List α)) :
    joined (cuts ++ cuts') = joined cuts ++ joined cuts' := List.flatMap_append

omit [DecidableEq α] in
/-- More input does not split a line end. -/
theorem Unsplit.push {cuts : List (List α × List α)} {left : List α} (h : Unsplit cr lf cuts left)
    (more : List α) : Unsplit cr lf cuts (left ++ more) := by
  induction cuts with
  | nil => trivial
  | cons c cuts ih =>
    obtain ⟨line, term⟩ := c
    refine ⟨fun hterm => ?_, ih h.2⟩
    obtain ⟨n, rest, hrest, hn⟩ := h.1 hterm
    exact ⟨n, rest ++ more, by rw [← List.append_assoc, hrest]; rfl, hn⟩

omit [DecidableEq α] in
/-- What is cut off later is cut off what was left. -/
theorem Unsplit.append {cuts cuts' : List (List α × List α)} {left : List α}
    (h : Unsplit cr lf cuts (joined cuts' ++ left)) (h' : Unsplit cr lf cuts' left) :
    Unsplit cr lf (cuts ++ cuts') left := by
  induction cuts with
  | nil => exact h'
  | cons c cuts ih =>
    obtain ⟨line, term⟩ := c
    refine ⟨fun hterm => ?_, ih h.2⟩
    obtain ⟨n, rest, hrest, hn⟩ := h.1 hterm
    have hall : joined (cuts ++ cuts') ++ left = joined cuts ++ (joined cuts' ++ left) := by
      rw [joined_append, List.append_assoc]
    exact ⟨n, rest, hall.trans hrest, hn⟩

/-! ### All line ends of a stream -/

variable (cr lf) in
/-- Induction along a stream: it goes on with an `lf`, with a `cr` and an `lf`, with a `cr` alone,
or with a symbol of a line. -/
theorem lineInduct {P : List α → Prop} (nil : P []) (lineFeed : ∀ xs, P xs → P (lf :: xs))
    (both : ∀ xs, P xs → P (cr :: lf :: xs))
    (alone : ∀ xs, (∀ rest, xs ≠ lf :: rest) → P xs → P (cr :: xs))
    (symbol : ∀ b xs, b ≠ lf → b ≠ cr → P xs → P (b :: xs)) : ∀ xs, P xs
  | [] => nil
  | [b] => by
    by_cases hlf : b = lf
    · exact hlf ▸ lineFeed [] nil
    by_cases hcr : b = cr
    · exact hcr ▸ alone [] (by simp) nil
    · exact symbol b [] hlf hcr nil
  | b :: n :: rest => by
    have hrest := lineInduct nil lineFeed both alone symbol (n :: rest)
    by_cases hlf : b = lf
    · exact hlf ▸ lineFeed _ hrest
    by_cases hcr : b = cr
    · rw [hcr]
      by_cases hn : n = lf
      · rw [hn]
        exact both rest (lineInduct nil lineFeed both alone symbol rest)
      · exact alone _ (fun _ h => hn (List.cons.inj h).1) hrest
    · exact symbol b _ hlf hcr hrest

variable (cr lf) in
/-- A stream cut at every line end.  The last piece is what follows the last line end. -/
def pieces : List α → List (List α)
  | [] => [[]]
  | [b] => if b = lf ∨ b = cr then [[], []] else [[b]]
  | b :: n :: rest =>
    if b = lf then [] :: pieces (n :: rest)
    else if b = cr then
      if n = lf then [] :: pieces rest else [] :: pieces (n :: rest)
    else (pieces (n :: rest)).modifyHead (b :: ·)

@[simp] theorem pieces_nil : pieces cr lf ([] : List α) = [[]] := rfl

theorem pieces_lf (xs : List α) : pieces cr lf (lf :: xs) = [] :: pieces cr lf xs := by
  cases xs <;> simp [pieces]

theorem pieces_crlf (hne : cr ≠ lf) (xs : List α) :
    pieces cr lf (cr :: lf :: xs) = [] :: pieces cr lf xs := by
  simp [pieces, hne]

theorem pieces_cr (hne : cr ≠ lf) {xs : List α} (h : ∀ rest, xs ≠ lf :: rest) :
    pieces cr lf (cr :: xs) = [] :: pieces cr lf xs := by
  cases xs with
  | nil => simp [pieces]
  | cons n rest =>
    have hn : n ≠ lf := fun hn => h rest (by rw [hn])
    simp [pieces, hne, hn]

theorem pieces_cons_of_ne {b : α} (h1 : b ≠ lf) (h2 : b ≠ cr) (xs : List α) :
    pieces cr lf (b :: xs) = (pieces cr lf xs).modifyHead (b :: ·) := by
  cases xs <;> simp [pieces, h1, h2]

variable (cr lf) in
theorem pieces_ne_nil (xs : List α) : pieces cr lf xs ≠ [] := by
  fun_induction pieces cr lf xs <;> simp_all

/-- No line end is left inside a piece. -/
theorem not_mem_pieces (hne : cr ≠ lf) (xs : List α) :
    ∀ p ∈ pieces cr lf xs, cr ∉ p ∧ lf ∉ p := by
  induction xs using lineInduct cr lf with
  | nil => simp
  | lineFeed xs ih =>
    rw [pieces_lf, List.forall_mem_cons]
    exact ⟨by simp, ih⟩
  | both xs ih =>
    rw [pieces_crlf hne, List.forall_mem_cons]
    exact ⟨by simp, ih⟩
  | alone xs hrest ih =>
    rw [pieces_cr hne hrest, List.forall_mem_cons]
    exact ⟨by simp, ih⟩
  | symbol b xs hlf hcr ih =>
    obtain ⟨p, ps, hp⟩ := List.exists_cons_of_ne_nil (pieces_ne_nil cr lf xs)
    rw [hp, List.forall_mem_cons] at ih
    rw [pieces_cons_of_ne hlf hcr, hp, List.modifyHead_cons, List.forall_mem_cons]
    exact ⟨⟨by simp [Ne.symm hcr, ih.1.1], by simp [Ne.symm hlf, ih.1.2]⟩, ih.2⟩

/-- Symbols that end no line belong to the first piece. -/
theorem pieces_append {xs : List α} (hc : cr ∉ xs) (hl : lf ∉ xs) (ys : List α) :
    pieces cr lf (xs ++ ys) = (pieces cr lf ys).modifyHead (xs ++ ·) := by
  induction xs with
  | nil =>
    obtain ⟨p, ps, hp⟩ := List.exists_cons_of_ne_nil (pieces_ne_nil cr lf ys)
    simp [hp]
  | cons x xs ih =>
    simp only [List.mem_cons, not_or] at hc hl
    obtain ⟨p, ps, hp⟩ := List.exists_cons_of_ne_nil (pieces_ne_nil cr lf ys)
    rw [List.cons_append, pieces_cons_of_ne (Ne.symm hl.1) (Ne.symm hc.1), ih hc.2 hl.2, hp]
    rfl

/-- The first cut is the first piece. -/
theorem pieces_of_cut {xs line term rest : List α} (h : cut cr lf xs = some (line, term, rest)) :
    pieces cr lf xs = line :: pieces cr lf rest := by
  induction xs generalizing line with
  | nil => simp [cut] at h
  | cons b xs ih =>
    by_cases hlf : b = lf
    · simp only [cut, hlf, ↓reduceIte, Option.some.injEq, Prod.mk.injEq] at h
      obtain ⟨rfl, rfl, rfl⟩ := h
      rw [hlf, pieces_lf]
    by_cases hcr : b = cr
    · subst hcr
      cases xs with
      | nil => simp [cut, hlf] at h
      | cons n xs =>
        simp only [cut, hlf, ↓reduceIte] at h
        split_ifs at h with hn <;>
        · simp only [Option.some.injEq, Prod.mk.injEq] at h
          obtain ⟨rfl, rfl, rfl⟩ := h
          simp [pieces, hlf, hn]
    · rw [cut_cons_of_ne hlf hcr, Option.map_eq_some_iff] at h
      obtain ⟨⟨line', term', rest'⟩, hcut, he⟩ := h
      simp only [Prod.mk.injEq] at he
      obtain ⟨rfl, rfl, rfl⟩ := he
      rw [pieces_cons_of_ne hlf hcr, ih hcut]
      rfl

variable (cr lf) in
/-- Taking complete lines off a stream gives the lines, and leaves a rest without one. -/
inductive Cuts : List α → List (List α) → List α → Prop
  | stop {xs : List α} : cut cr lf xs = none → Cuts xs [] xs
  | next {xs line term rest left : List α} {lines : List (List α)} :
      cut cr lf xs = some (line, term, rest) → Cuts rest lines left →
      Cuts xs (line :: lines) left

variable (cr lf) in
theorem exists_cuts (xs : List α) : ∃ lines left, Cuts cr lf xs lines left := by
  induction hn : xs.length using Nat.strongRecOn generalizing xs with
  | _ n ih =>
    cases hcut : cut cr lf xs with
    | none => exact ⟨[], xs, .stop hcut⟩
    | some r =>
      obtain ⟨line, term, rest⟩ := r
      obtain ⟨lines, left, h⟩ := ih rest.length (hn ▸ length_lt_of_cut hcut) rest rfl
      exact ⟨line :: lines, left, .next hcut h⟩

/-- The lines that are taken off are the pieces before those of the rest. -/
theorem Cuts.pieces_eq {xs left : List α} {lines : List (List α)} (h : Cuts cr lf xs lines left) :
    pieces cr lf xs = lines ++ pieces cr lf left := by
  induction h with
  | stop _ => rfl
  | next hcut _ ih => rw [pieces_of_cut hcut, ih]; rfl

theorem Cuts.uncut {xs left : List α} {lines : List (List α)} (h : Cuts cr lf xs lines left) :
    cut cr lf left = none := by
  induction h with
  | stop hcut => exact hcut
  | next _ _ ih => exact ih

theorem Cuts.suffix {xs left : List α} {lines : List (List α)} (h : Cuts cr lf xs lines left) :
    left <:+ xs := by
  induction h with
  | stop _ => exact List.suffix_rfl
  | next hcut _ ih =>
    obtain ⟨rfl, -, -⟩ := cut_eq_some hcut
    exact ih.trans ⟨_, List.append_assoc _ _ _⟩

/-- Nothing is left of a stream that ends in `lf`. -/
theorem cuts_lf (xs : List α) : ∃ lines, Cuts cr lf (xs ++ [lf]) lines [] := by
  obtain ⟨lines, left, h⟩ := exists_cuts cr lf (xs ++ [lf])
  obtain ⟨hlf, -⟩ := cut_eq_none_iff.1 h.uncut
  rcases List.eq_nil_or_concat' left with rfl | ⟨init, last, rfl⟩
  · exact ⟨lines, h⟩
  · obtain ⟨front, hfront⟩ := h.suffix
    have hlast : last = lf := by
      rw [← List.append_assoc] at hfront
      simpa using (List.append_inj' hfront rfl).2
    simp [hlast] at hlf

theorem Cuts.pieces_append {xs left : List α} {lines : List (List α)}
    (h : Cuts cr lf xs lines left) (ys : List α) :
    pieces cr lf (xs ++ ys) = lines ++ pieces cr lf (left ++ ys) := by
  induction h with
  | stop _ => rfl
  | next hcut _ ih => rw [pieces_of_cut (cut_append ys hcut), ih]; rfl

/-- Behind an `lf` the pieces begin anew. -/
theorem pieces_append_lf (xs ys : List α) :
    pieces cr lf (xs ++ lf :: ys) = (pieces cr lf (xs ++ [lf])).dropLast ++ pieces cr lf ys := by
  obtain ⟨lines, h⟩ := @cuts_lf _ _ cr lf xs
  have happend := h.pieces_append ys
  rw [List.append_assoc] at happend
  rw [h.pieces_eq, pieces_nil, List.dropLast_concat]
  exact happend

/-! ### Rendering lines -/

/-- Every line with the same line end behind it. -/
def render (term : List α) (lines : List (List α)) : List α := lines.flatMap (· ++ term)

omit [DecidableEq α] in
@[simp] theorem render_nil (term : List α) : render term [] = [] := rfl

omit [DecidableEq α] in
@[simp] theorem render_cons (term line : List α) (lines : List (List α)) :
    render term (line :: lines) = line ++ (term ++ render term lines) := by
  simp [render]

theorem cuts_render_lf {lines : List (List α)} (h : ∀ l ∈ lines, cr ∉ l ∧ lf ∉ l) :
    Cuts cr lf (render [lf] lines) lines [] := by
  induction lines with
  | nil => exact .stop rfl
  | cons line lines ih =>
    obtain ⟨hc, hl⟩ := h line List.mem_cons_self
    rw [render_cons]
    exact .next (cut_lf _ hc hl) (ih fun l hl => h l (List.mem_cons_of_mem _ hl))

theorem cuts_render_crlf (hne : cr ≠ lf) {lines : List (List α)}
    (h : ∀ l ∈ lines, cr ∉ l ∧ lf ∉ l) : Cuts cr lf (render [cr, lf] lines) lines [] := by
  induction lines with
  | nil => exact .stop rfl
  | cons line lines ih =>
    obtain ⟨hc, hl⟩ := h line List.mem_cons_self
    rw [render_cons]
    exact .next (cut_crlf _ hne hc hl) (ih fun l hl => h l (List.mem_cons_of_mem _ hl))

omit [DecidableEq α] in
/-- Lines that end in `cr` do not begin with `lf`. -/
theorem render_cr_head (hne : cr ≠ lf) {lines : List (List α)} (hlines : lines ≠ [])
    (h : ∀ l ∈ lines, lf ∉ l) : ∃ n rest, render [cr] lines = n :: rest ∧ n ≠ lf := by
  obtain ⟨line, lines, rfl⟩ := List.exists_cons_of_ne_nil hlines
  rw [render_cons]
  cases line with
  | nil => exact ⟨cr, _, rfl, hne⟩
  | cons n line => exact ⟨n, _, rfl, fun hn => h _ List.mem_cons_self (by simp [hn])⟩

/-- With `cr` as the line end, the last line is not complete yet. -/
theorem cuts_render_cr (hne : cr ≠ lf) {lines : List (List α)} {last : List α}
    (h : ∀ l ∈ lines ++ [last], cr ∉ l ∧ lf ∉ l) :
    Cuts cr lf (render [cr] (lines ++ [last])) lines (last ++ [cr]) := by
  induction lines with
  | nil =>
    obtain ⟨hc, hl⟩ := h last (by simp)
    simp only [List.nil_append, render_cons, render_nil, List.append_nil]
    refine .stop (cut_eq_none_iff.2 ⟨by simp [hl, hne.symm], fun ys zs heq => ?_⟩)
    rcases List.append_eq_append_iff.1 heq with ⟨as, rfl, has⟩ | ⟨as, rfl, has⟩
    · cases as <;> simp_all
    · cases as with
      | nil => simpa using has
      | cons a as => simp_all
  | cons line lines ih =>
    obtain ⟨hc, hl⟩ := h line (by simp)
    have hrest := ih fun l hl => h l (List.mem_cons_of_mem _ hl)
    -- whatever comes next, it is no `lf`
    obtain ⟨n, rest, hnext, hn⟩ := @render_cr_head _ _ _ hne (lines ++ [last]) (by simp)
      fun l hl => (h l (List.mem_cons_of_mem _ hl)).2
    rw [List.cons_append, render_cons, hnext]
    rw [hnext] at hrest
    exact .next (cut_cr rest hne hn hc hl) hrest

end Lines

end SpycatcherHarness
