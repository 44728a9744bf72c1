import SpycatcherHarness.Sse.Reference

/-!
# Framings of a stream

The same lines can be rendered with LF, CRLF or CR behind each of them, and behind a byte order
mark.  What the parser makes of them is `SseParser.readLines` for LF and CRLF.  For CR it is that
too when the last line is blank; otherwise the last line stays in the buffer.  The parser knows no
byte order mark: it is a part of the first line, which is then a field of an unknown name.
-/

namespace SpycatcherHarness

/-- A way to end every line. -/
inductive Framing where
  | lf
  | crlf
  | cr
  deriving DecidableEq

namespace Framing

/-- The line end of a framing. -/
def term : Framing → Bytes
  | .lf => [SpycatcherHarness.lf]
  | .crlf => [SpycatcherHarness.cr, SpycatcherHarness.lf]
  | .cr => [SpycatcherHarness.cr]

/-- The lines, each with the line end of the framing. -/
def render (f : Framing) (lines : List String) : Bytes :=
  Lines.render f.term (lines.map Str.asBytes)

end Framing

/-- The byte order mark, as a text. -/
def byteOrderMark : String := "\uFEFF"

namespace SseParser

variable (fromStr : String → Option Json)

/-- What lines that are all complete give. -/
def readLines (lines : List String) : Except SseParseError (List StreamEvent) :=
  if (consumeLines fromStr [] lines).2 = [] then .ok (consumeLines fromStr [] lines).1
  else .error .incompleteEvent

variable {fromStr}

/-- The bytes of a line hold no line symbol. -/
theorem IsLine.asBytes {s : String} (h : IsLine s) : cr ∉ Str.asBytes s ∧ lf ∉ Str.asBytes s :=
  ⟨fun hm => h.1 ((Str.mem_asBytes_iff (by decide)).1 hm),
    fun hm => h.2 ((Str.mem_asBytes_iff (by decide)).1 hm)⟩

theorem lineFree_map {lines : List String} (h : ∀ l ∈ lines, IsLine l) :
    ∀ bs ∈ lines.map Str.asBytes, cr ∉ bs ∧ lf ∉ bs := by
  intro bs hbs
  obtain ⟨l, hl, rfl⟩ := List.mem_map.1 hbs
  exact (h l hl).asBytes

/-- Where nothing is left in the buffer, the lines decide. -/
theorem parse_of_cuts_all {lines : List String} {bytes : Bytes}
    (h : Lines.Cuts cr lf bytes (lines.map Str.asBytes) []) :
    parse fromStr bytes = readLines fromStr lines := by
  rw [parse_of_cuts h, readLines]
  split_ifs with hpending <;> simp [finish, hpending, Except.map]

theorem parse_render_lf {lines : List String} (h : ∀ l ∈ lines, IsLine l) :
    parse fromStr (Framing.lf.render lines) = readLines fromStr lines :=
  parse_of_cuts_all (Lines.cuts_render_lf (lineFree_map h))

theorem parse_render_crlf {lines : List String} (h : ∀ l ∈ lines, IsLine l) :
    parse fromStr (Framing.crlf.render lines) = readLines fromStr lines :=
  parse_of_cuts_all (Lines.cuts_render_crlf (by decide) (lineFree_map h))

/-- The last line of a stream with CR as the line end stays in the buffer. -/
theorem cuts_render_cr {lines : List String} {last : String}
    (h : ∀ l ∈ lines ++ [last], IsLine l) :
    Lines.Cuts cr lf (Framing.cr.render (lines ++ [last])) (lines.map Str.asBytes)
      (Str.asBytes last ++ [cr]) := by
  have hcuts := @Lines.cuts_render_cr _ _ cr lf (by decide) (lines.map Str.asBytes)
    (Str.asBytes last) (by simpa using lineFree_map h)
  simpa [Framing.render, Framing.term] using hcuts

/-- A blank line at the end is repaired by `finish`. -/
theorem parse_render_cr_blank {lines : List String} (h : ∀ l ∈ lines ++ [""], IsLine l) :
    parse fromStr (Framing.cr.render (lines ++ [""])) = readLines fromStr (lines ++ [""]) := by
  rw [parse_of_cuts (cuts_render_cr h), readLines, consumeLines_append]
  cases hconsumed : consumeLines fromStr [] lines with
  | mk events pending =>
    by_cases hpending : pending = [] <;>
      simp [finish, consumeLines, consumeLine_blank, dispatchEvent, hpending, Str.asBytes,
        Except.map]

/-- Any other line at the end is taken for incomplete. -/
theorem parse_render_cr_line {lines : List String} {last : String}
    (h : ∀ l ∈ lines ++ [last], IsLine l) (hlast : last ≠ "") :
    parse fromStr (Framing.cr.render (lines ++ [last])) = .error .incompleteEvent := by
  have hcr : Str.asBytes last ++ [cr] ≠ [cr] := by
    intro heq
    exact hlast (Str.asBytes_injective (List.append_left_eq_self.1 heq))
  rw [parse_of_cuts (cuts_render_cr h)]
  simp [finish, hcr, Except.map]

/-- A line behind a byte order mark is a field of an unknown name. -/
theorem consumeLine_byteOrderMark (p : SseParser) (s : String) :
    consumeLine fromStr p (byteOrderMark ++ s) = ([], p) := by
  have hlist : byteOrderMark ++ s = String.ofList ('\uFEFF' :: s.toList) := by
    rw [← String.toList_inj, String.toList_append, String.toList_ofList]
    rfl
  have hne : String.ofList ('\uFEFF' :: s.toList) ≠ "" := by simp
  have hstrip : Str.stripPrefix ':' (String.ofList ('\uFEFF' :: s.toList)) = none := by
    simp [Str.stripPrefix]
  have hname : EventSource.fieldName ('\uFEFF' :: s.toList) ≠ "data".toList := by
    simp [EventSource.fieldName]
  simp only [hlist, consumeLine, hne, if_false, hstrip, fieldValue_ofList, hname]

/-- Lines behind a byte order mark are read without the first of them. -/
theorem readLines_byteOrderMark (first : String) (rest : List String) :
    readLines fromStr ((byteOrderMark ++ first) :: rest) = readLines fromStr rest := by
  simp [readLines, consumeLines_cons, consumeLine_byteOrderMark]

theorem isLine_byteOrderMark {s : String} (h : IsLine s) : IsLine (byteOrderMark ++ s) :=
  isLine_append ⟨by decide, by decide⟩ h

theorem render_byteOrderMark (f : Framing) (first : String) (rest : List String) :
    Str.asBytes byteOrderMark ++ f.render (first :: rest) =
      f.render ((byteOrderMark ++ first) :: rest) := by
  simp [Framing.render]

/-- With CR as the line end, lines are read as with LF if the last one is blank. -/
theorem parse_render_cr {lines : List String} (h : ∀ l ∈ lines, IsLine l)
    (hlast : (∀ last, lines.getLast? = some last → last = "") ∨
      readLines fromStr lines = .error .incompleteEvent) :
    parse fromStr (Framing.cr.render lines) = readLines fromStr lines := by
  rcases List.eq_nil_or_concat' lines with rfl | ⟨init, last, rfl⟩
  · rfl
  by_cases hblank : last = ""
  · subst hblank
    exact parse_render_cr_blank h
  · rcases hlast with hlast | hlast
    · exact absurd (hlast last (by simp)) hblank
    · rw [parse_render_cr_line h hblank, hlast]

/-- **Framings of a stream.**  For lines without CR and LF:

* with LF and with CRLF behind every line they give the same events, or are incomplete in both;
* with CR they give the same, where the last line is blank, or there is none, or the event is
  incomplete anyway;
* behind a byte order mark the first line is not read, in each of the framings under the same
  condition on the other lines, and the mark alone is an incomplete line. -/
theorem framings_parse_alike (fromStr : String → Option Json) (lines : List String)
    (h : ∀ l ∈ lines, IsLine l) :
    ((∃ events, parse fromStr (Framing.lf.render lines) = .ok events) ∨
      parse fromStr (Framing.lf.render lines) = .error .incompleteEvent) ∧
    parse fromStr (Framing.crlf.render lines) = parse fromStr (Framing.lf.render lines) ∧
    ((∀ last, lines.getLast? = some last → last = "") ∨
        parse fromStr (Framing.lf.render lines) = .error .incompleteEvent →
      parse fromStr (Framing.cr.render lines) = parse fromStr (Framing.lf.render lines)) ∧
    (∀ f : Framing, parse fromStr (Str.asBytes byteOrderMark ++ f.render []) =
      .error .incompleteEvent) ∧
    ∀ first rest, lines = first :: rest →
      (∀ f : Framing, f ≠ .cr →
        parse fromStr (Str.asBytes byteOrderMark ++ f.render lines) =
          parse fromStr (Framing.lf.render rest)) ∧
      (rest.getLast? = some "" ∨
          parse fromStr (Framing.lf.render rest) = .error .incompleteEvent →
        parse fromStr (Str.asBytes byteOrderMark ++ Framing.cr.render lines) =
          parse fromStr (Framing.lf.render rest)) := by
  rw [parse_render_lf h, parse_render_crlf h]
  refine ⟨?_, rfl, parse_render_cr h, ?_, ?_⟩
  · unfold readLines
    split_ifs
    · exact .inl ⟨_, rfl⟩
    · exact .inr rfl
  · intro f
    have hcuts : Lines.Cuts cr lf (Str.asBytes byteOrderMark) (([] : List String).map Str.asBytes)
        (Str.asBytes byteOrderMark) := .stop (by decide)
    simp only [Framing.render, List.map_nil, Lines.render_nil, List.append_nil]
    rw [parse_of_cuts hcuts]
    rfl
  · rintro first rest rfl
    -- the mark goes to the first line, which then adds nothing
    have hmarked : ∀ l ∈ (byteOrderMark ++ first) :: rest, IsLine l :=
      List.forall_mem_cons.2 ⟨isLine_byteOrderMark (h first List.mem_cons_self),
        fun l hl => h l (List.mem_cons_of_mem _ hl)⟩
    rw [parse_render_lf fun l hl => h l (List.mem_cons_of_mem _ hl),
      ← readLines_byteOrderMark first rest]
    refine ⟨fun f hf => ?_, fun hrest => ?_⟩
    · rw [render_byteOrderMark]
      cases f with
      | lf => exact parse_render_lf hmarked
      | crlf => exact parse_render_crlf hmarked
      | cr => exact absurd rfl hf
    · rw [render_byteOrderMark]
      refine parse_render_cr hmarked (hrest.imp_left fun hlast last hmem => ?_)
      have hne : rest ≠ [] := by
        rintro rfl
        cases hlast
      rw [List.getLast?_cons_of_ne_nil hne, hlast] at hmem
      exact (Option.some.inj hmem).symm

/-- An event and the blank line behind it, with CR as the line end, without a mark and with it. -/
theorem framings_parse_alike_blank :
    parse (fun _ => none) (Framing.cr.render ["data: a", ""]) =
        parse (fun _ => none) (Framing.lf.render ["data: a", ""]) ∧
      parse (fun _ => none) (Str.asBytes byteOrderMark ++ Framing.cr.render ["data: a", ""]) =
        parse (fun _ => none) (Framing.lf.render [""]) := by
  have hlines : ∀ l ∈ ["data: a", ""], IsLine l := by simp [IsLine]
  obtain ⟨-, -, hcr, -, hmarked⟩ := framings_parse_alike (fun _ => none) _ hlines
  exact ⟨hcr (.inl (by simp)), (hmarked _ _ rfl).2 (.inl rfl)⟩

variable (fromStr) in
/-- Every framing, with or without a byte order mark, parses as LF does without one. -/
def FramedAlike (lines : List String) : Prop :=
  ∀ f : Framing, parse fromStr (f.render lines) = parse fromStr (Framing.lf.render lines) ∧
    parse fromStr (Str.asBytes byteOrderMark ++ f.render lines) =
      parse fromStr (Framing.lf.render lines)

/-- **A byte order mark hides the first line.**  Behind a mark, an event of one line is lost. -/
theorem not_framedAlike :
    ¬ ∀ lines : List String, (∀ l ∈ lines, IsLine l) → FramedAlike (fun _ => none) lines := by
  intro h
  obtain ⟨-, hmarked⟩ := h ["data: a", ""] (by simp [IsLine]) .lf
  revert hmarked
  decide +kernel

end SseParser

end SpycatcherHarness
