import Mathlib.Algebra.Order.BigOperators.Group.List
import Mathlib.Algebra.Order.Ring.Nat
import SpycatcherHarness.Sse.Framing

/-!
# Frames of arbitrary events

A cassette may hold events that no parser has emitted, with any text in them.  The renderer puts a
prefix before every line of the text, but cuts it at LF only, whereas an event stream is cut at CR
too.  So a frame holds nothing but its own event exactly if its text has no CR, but for one directly
before an LF in a comment (`SseParser.noInjection_iff`).

* `serializeLines_eq` : the renderer puts a prefix at the start and behind every LF.
* `pieces_prefixLines` : then every line of the frame has it, if no CR stands alone.
* `weight_prefixLines` : the comments that a frame is read back as are too short otherwise.
-/

namespace SpycatcherHarness

/-- Every CR is followed by an LF. -/
def NoLoneCr : List Char → Prop
  | [] => True
  | c :: cs => (c = '\r' → cs.head? = some '\n') ∧ NoLoneCr cs

instance decidableNoLoneCr : ∀ cs, Decidable (NoLoneCr cs)
  | [] => inferInstanceAs (Decidable True)
  | c :: cs =>
    have := decidableNoLoneCr cs
    inferInstanceAs (Decidable ((c = '\r' → cs.head? = some '\n') ∧ NoLoneCr cs))

theorem noLoneCr_cons_of_ne {c : Char} (hc : c ≠ '\r') (cs : List Char) :
    NoLoneCr (c :: cs) ↔ NoLoneCr cs :=
  ⟨And.right, fun h => ⟨fun heq => absurd heq hc, h⟩⟩

theorem noLoneCr_crlf (cs : List Char) : NoLoneCr ('\r' :: '\n' :: cs) ↔ NoLoneCr cs := by
  rw [NoLoneCr, noLoneCr_cons_of_ne (by decide)]
  simp

theorem noLoneCr_of_not_mem {cs : List Char} (h : '\r' ∉ cs) : NoLoneCr cs := by
  induction cs with
  | nil => trivial
  | cons c cs ih =>
    simp only [List.mem_cons, not_or] at h
    exact ⟨fun hc => absurd hc.symm h.1, ih h.2⟩

/-! ### The renderer -/

/-- A text with a prefix behind every LF. -/
def prefixLines (pre cs : List Char) : List Char :=
  cs.flatMap fun c => if c = '\n' then '\n' :: pre else [c]

@[simp] theorem prefixLines_nil (pre : List Char) : prefixLines pre [] = [] := rfl

theorem prefixLines_lf (pre cs : List Char) :
    prefixLines pre ('\n' :: cs) = '\n' :: (pre ++ prefixLines pre cs) := by
  simp [prefixLines]

theorem prefixLines_of_ne (pre cs : List Char) {c : Char} (hc : c ≠ '\n') :
    prefixLines pre (c :: cs) = c :: prefixLines pre cs := by
  simp [prefixLines, hc]

/-- The renderer puts the prefix at the start and behind every LF. -/
theorem serializeLines_eq (pre text : String) :
    serializeLines (Str.asBytes pre) text =
      Utf8.encode (pre.toList ++ (prefixLines pre.toList text.toList ++ ['\n', '\n'])) := by
  have hlf : Utf8.encode ['\n'] = [lf] := rfl
  have hlines : ∀ cs : List Char,
      ((cs.splitOn '\n').flatMap fun l => Utf8.encode pre.toList ++ Utf8.encode l ++ [lf]) =
        Utf8.encode (pre.toList ++ (prefixLines pre.toList cs ++ ['\n'])) := by
    intro cs
    induction cs with
    | nil => simp only [List.splitOn_nil, List.flatMap_singleton, prefixLines_nil, List.nil_append,
        Utf8.encode_append, Utf8.encode_nil, List.append_nil, hlf]
    | cons c cs ih =>
      obtain ⟨l, ls, hl⟩ := List.exists_cons_of_ne_nil (List.splitOn_ne_nil '\n' cs)
      rw [hl, List.flatMap_cons] at ih
      rw [List.splitOn_cons_eq_if_modifyHead, hl]
      by_cases hc : c = '\n'
      · rw [if_pos (by simp [hc]), hc, prefixLines_lf, List.flatMap_cons, List.flatMap_cons, ih,
          List.cons_append, Utf8.encode_append _ (_ :: _), encode_lf]
        simp
      · rw [if_neg (by simp [hc]), List.modifyHead_cons, List.flatMap_cons,
          prefixLines_of_ne _ _ hc]
        simp only [Utf8.encode_append, Utf8.encode_cons, List.append_assoc, List.cons_append,
          List.append_cancel_left_eq] at ih ⊢
        rw [ih]
  have hblank : Utf8.encode ['\n', '\n'] = Utf8.encode ['\n'] ++ [lf] := rfl
  have hsplit := hlines text.toList
  simp only [Utf8.encode_append] at hsplit
  simp only [serializeLines, Str.split, List.flatMap_map, Str.asBytes,
    String.toList_ofList, Utf8.encode_append, hblank]
  simp only [← List.append_assoc] at hsplit ⊢
  exact congrArg (· ++ [lf]) hsplit

/-! ### The lines of a frame -/

/-- The lines of a text. -/
def textPieces (cs : List Char) : List (List Char) := Lines.pieces '\r' '\n' cs

@[simp] theorem textPieces_nil : textPieces [] = [[]] := rfl

theorem textPieces_ne_nil (cs : List Char) : textPieces cs ≠ [] := Lines.pieces_ne_nil _ _ cs

theorem textPieces_lf (cs : List Char) : textPieces ('\n' :: cs) = [] :: textPieces cs :=
  Lines.pieces_lf cs

theorem textPieces_crlf (cs : List Char) :
    textPieces ('\r' :: '\n' :: cs) = [] :: textPieces cs :=
  Lines.pieces_crlf (by decide) cs

theorem textPieces_cr {cs : List Char} (h : ∀ rest, cs ≠ '\n' :: rest) :
    textPieces ('\r' :: cs) = [] :: textPieces cs :=
  Lines.pieces_cr (by decide) h

theorem textPieces_of_ne {c : Char} (hlf : c ≠ '\n') (hcr : c ≠ '\r') (cs : List Char) :
    textPieces (c :: cs) = (textPieces cs).modifyHead (c :: ·) :=
  Lines.pieces_cons_of_ne hlf hcr cs

/-- The lines behind a prefix without line symbols. -/
theorem textPieces_append {pre cs p : List Char} {ps : List (List Char)} (hcr : '\r' ∉ pre)
    (hlf : '\n' ∉ pre) (h : textPieces cs = p :: ps) :
    textPieces (pre ++ cs) = (pre ++ p) :: ps := by
  rw [textPieces] at h ⊢
  rw [Lines.pieces_append hcr hlf, h]
  rfl

/-- Without a lone CR, every line of the text has the prefix but the first, which comes behind what
stands before the text. -/
theorem pieces_prefixLines {pre : List Char} (hcr : '\r' ∉ pre) (hlf : '\n' ∉ pre)
    (ys : List Char) : ∀ cs, NoLoneCr cs → ∃ p ps, textPieces cs = p :: ps ∧
      textPieces (prefixLines pre cs ++ '\n' :: ys) =
        p :: (ps.map (pre ++ ·) ++ textPieces ys) := by
  -- a line end, whichever it is, and the rest of the text behind it
  have hend : ∀ cs, (∃ p ps, textPieces cs = p :: ps ∧
      textPieces (prefixLines pre cs ++ '\n' :: ys) = p :: (ps.map (pre ++ ·) ++ textPieces ys)) →
      textPieces (pre ++ prefixLines pre cs ++ '\n' :: ys) =
        (textPieces cs).map (pre ++ ·) ++ textPieces ys := by
    rintro cs ⟨p, ps, hp, hps⟩
    rw [List.append_assoc, textPieces_append hcr hlf hps, hp]
    rfl
  intro cs
  induction cs using Lines.lineInduct '\r' '\n' with
  | nil => exact fun _ => ⟨[], [], rfl, textPieces_lf ys⟩
  | lineFeed cs ih =>
    intro h
    refine ⟨[], textPieces cs, textPieces_lf cs, ?_⟩
    rw [prefixLines_lf, List.cons_append, textPieces_lf, hend cs (ih h.2)]
  | both cs ih =>
    intro h
    refine ⟨[], textPieces cs, textPieces_crlf cs, ?_⟩
    rw [prefixLines_of_ne _ _ (by decide), prefixLines_lf, List.cons_append, List.cons_append,
      textPieces_crlf, hend cs (ih h.2.2)]
  | alone cs hrest ih =>
    -- this CR is followed by an LF
    intro h
    obtain ⟨rest, hcs⟩ := List.head?_eq_some_iff.1 (h.1 rfl)
    exact absurd hcs (hrest rest)
  | symbol c cs hlf hcr' ih =>
    intro h
    obtain ⟨p, ps, hp, hps⟩ := ih h.2
    refine ⟨c :: p, ps, ?_, ?_⟩
    · rw [textPieces_of_ne hlf hcr', hp]
      rfl
    · rw [prefixLines_of_ne _ _ hlf, List.cons_append, textPieces_of_ne hlf hcr', hps]
      rfl

/-! ### The weight of comments -/

/-- The weight of lines: their lengths, and one for each of them. -/
def weight (lines : List (List Char)) : ℕ := (lines.map fun l => l.length + 1).sum

/-- The comment that a line gives. -/
def commentLine (line : List Char) : Option (List Char) :=
  if line.head? = some ':' then some (EventSource.withoutSpace line.tail) else none

/-- The weight of the comments that lines give. -/
def commentWeight (lines : List (List Char)) : ℕ := weight (lines.filterMap commentLine)

@[simp] theorem weight_nil : weight [] = 0 := rfl

@[simp] theorem weight_cons (l : List Char) (ls : List (List Char)) :
    weight (l :: ls) = l.length + 1 + weight ls := by
  simp [weight]

@[simp] theorem weight_append (ls ls' : List (List Char)) :
    weight (ls ++ ls') = weight ls + weight ls' := by
  simp [weight]

theorem weight_modifyHead (c : Char) {ls : List (List Char)} (h : ls ≠ []) :
    weight (ls.modifyHead (c :: ·)) = weight ls + 1 := by
  obtain ⟨l, ls, rfl⟩ := List.exists_cons_of_ne_nil h
  simp only [List.modifyHead_cons, weight_cons, List.length_cons]
  omega

theorem commentWeight_append (ls ls' : List (List Char)) :
    commentWeight (ls ++ ls') = commentWeight ls + commentWeight ls' := by
  simp [commentWeight]

theorem length_withoutSpace (cs : List Char) :
    (EventSource.withoutSpace cs).length ≤ cs.length := by
  unfold EventSource.withoutSpace
  split <;> simp

/-- A line is longer than the comment that it gives. -/
theorem commentWeight_cons_le (l : List Char) (ls : List (List Char)) :
    commentWeight (l :: ls) ≤ l.length + commentWeight ls := by
  unfold commentWeight
  cases l with
  | nil => simp [commentLine]
  | cons c l =>
    by_cases hc : c = ':'
    · have hlen := length_withoutSpace l
      simp [commentLine, hc]
      omega
    · simp [commentLine, hc]

/-- A line behind the comment prefix gives itself. -/
theorem commentWeight_cons_prefixed (l : List Char) (ls : List (List Char)) :
    commentWeight ((": ".toList ++ l) :: ls) = l.length + 1 + commentWeight ls := by
  simp [commentWeight, commentLine, EventSource.withoutSpace]

/-- **A lone CR costs weight.**  What follows it has no prefix, so that the comments of the frame
weigh less than the lines of the text. -/
theorem weight_prefixLines (ys : List Char) :
    ∀ cs, ∃ p ps, textPieces (prefixLines ": ".toList cs ++ '\n' :: ys) = p :: ps ∧
      p.length + 1 + commentWeight ps ≤ weight (textPieces cs) + commentWeight (textPieces ys) ∧
      (¬ NoLoneCr cs →
        p.length + 1 + commentWeight ps <
          weight (textPieces cs) + commentWeight (textPieces ys)) := by
  -- a line end, whichever it is, and the rest of the text behind it
  have hend : ∀ cs p ps, textPieces (prefixLines ": ".toList cs ++ '\n' :: ys) = p :: ps →
      commentWeight (textPieces (": ".toList ++ prefixLines ": ".toList cs ++ '\n' :: ys)) =
        p.length + 1 + commentWeight ps := by
    intro cs p ps hps
    rw [List.append_assoc, textPieces_append (by decide) (by decide) hps,
      commentWeight_cons_prefixed]
  intro cs
  induction cs using Lines.lineInduct '\r' '\n' with
  | nil => exact ⟨[], textPieces ys, textPieces_lf ys, by simp, fun h => absurd trivial h⟩
  | lineFeed cs ih =>
    obtain ⟨p, ps, hps, hle, hlt⟩ := ih
    refine ⟨[], _, by rw [prefixLines_lf, List.cons_append, textPieces_lf], ?_⟩
    rw [hend cs p ps hps, textPieces_lf, weight_cons, noLoneCr_cons_of_ne (by decide)]
    simp only [List.length_nil]
    exact ⟨by omega, fun h => by have := hlt h; omega⟩
  | both cs ih =>
    obtain ⟨p, ps, hps, hle, hlt⟩ := ih
    refine ⟨[], _, by rw [prefixLines_of_ne _ _ (by decide), prefixLines_lf,
      List.cons_append, List.cons_append, textPieces_crlf], ?_⟩
    rw [hend cs p ps hps, textPieces_crlf, weight_cons, noLoneCr_crlf]
    simp only [List.length_nil]
    exact ⟨by omega, fun h => by have := hlt h; omega⟩
  -- what follows the CR is no comment, or a shorter one
  | alone cs hrest ih =>
    rw [prefixLines_of_ne _ _ (by decide), List.cons_append, textPieces_cr hrest]
    cases cs with
    | nil =>
      refine ⟨[], textPieces ys, textPieces_crlf ys, ?_⟩
      simp
    | cons d cs =>
      obtain ⟨p, ps, hps, hle, hlt⟩ := ih
      have hd : d ≠ '\n' := fun hd => hrest cs (by rw [hd])
      refine ⟨[], p :: ps, ?_, ?_⟩
      · rw [textPieces_cr, hps]
        rw [prefixLines_of_ne _ _ hd]
        rintro rest ⟨⟩
        exact hd rfl
      · have hshort := commentWeight_cons_le p ps
        simp only [weight_cons, List.length_nil]
        omega
  | symbol c cs hlf hcr ih =>
    obtain ⟨p, ps, hps, hle, hlt⟩ := ih
    refine ⟨c :: p, ps, ?_, ?_⟩
    · rw [prefixLines_of_ne _ _ hlf, List.cons_append, textPieces_of_ne hlf hcr, hps]
      rfl
    · rw [textPieces_of_ne hlf hcr, weight_modifyHead c (textPieces_ne_nil cs),
        noLoneCr_cons_of_ne hcr]
      simp only [List.length_cons]
      exact ⟨by omega, fun h => by have := hlt h; omega⟩

/-! ### Frames -/

namespace SseParser

/-- What stands before every line of an event. -/
def eventPrefix : StreamEvent → String
  | .comment _ => ": "
  | .data _ _ => "data: "

theorem eventPrefix_isLine (e : StreamEvent) : IsLine (eventPrefix e) := by
  cases e <;> simp [eventPrefix, IsLine]

/-- The frame of an event, as a text. -/
def frameText (e : StreamEvent) : List Char :=
  (eventPrefix e).toList ++ (prefixLines (eventPrefix e).toList (text e).toList ++ ['\n', '\n'])

theorem serializeEvent_eq (e : StreamEvent) : serializeEvent e = Utf8.encode (frameText e) := by
  cases e <;> exact serializeLines_eq _ _

/-- The lines of a frame, as texts. -/
def frameLines (e : StreamEvent) : List (List Char) := (textPieces (frameText e)).dropLast

/-- The lines of a frame. -/
def eventLines (e : StreamEvent) : List Bytes :=
  (Lines.pieces cr lf (serializeEvent e)).dropLast

theorem eventLines_eq (e : StreamEvent) : eventLines e = (frameLines e).map Utf8.encode := by
  rw [eventLines, serializeEvent_eq, pieces_encode, ← List.map_dropLast]
  rfl

/-- A frame ends a line. -/
theorem frameText_concat (e : StreamEvent) : ∃ cs, frameText e = cs ++ ['\n'] :=
  ⟨(eventPrefix e).toList ++ (prefixLines (eventPrefix e).toList (text e).toList ++ ['\n']),
    by simp [frameText]⟩

theorem textPieces_frameText (e : StreamEvent) (cs : List Char) :
    textPieces (frameText e ++ cs) = frameLines e ++ textPieces cs := by
  obtain ⟨front, hfront⟩ := frameText_concat e
  rw [frameLines, hfront, textPieces, List.append_assoc]
  exact Lines.pieces_append_lf front cs

/-- The lines of a body are those of its frames. -/
theorem textPieces_frames (events : List StreamEvent) :
    textPieces (events.flatMap frameText) = events.flatMap frameLines ++ [[]] := by
  induction events with
  | nil => rfl
  | cons e events ih =>
    rw [List.flatMap_cons, textPieces_frameText, ih, List.flatMap_cons, List.append_assoc]

theorem serializeEvents_eq (events : List StreamEvent) :
    serializeEvents events = Utf8.encode (events.flatMap frameText) := by
  induction events with
  | nil => rfl
  | cons e events ih =>
    rw [serializeEvents_cons, ih, serializeEvent_eq, List.flatMap_cons, Utf8.encode_append]

theorem pieces_serializeEvents (events : List StreamEvent) :
    Lines.pieces cr lf (serializeEvents events) = events.flatMap eventLines ++ [[]] := by
  have hlines := textPieces_frames events
  rw [textPieces] at hlines
  have heach : eventLines = fun e => (frameLines e).map Utf8.encode := funext eventLines_eq
  rw [serializeEvents_eq, pieces_encode, hlines, List.map_append, List.map_flatMap, heach]
  rfl

variable {fromStr : String → Option Json}

/-- A body is read line by line. -/
theorem parse_frames (events : List StreamEvent) :
    parse fromStr (serializeEvents events) =
      readLines fromStr ((events.flatMap frameLines).map String.ofList) := by
  -- the bytes end in LF, so that taking lines off them leaves nothing
  obtain ⟨lines, hcuts⟩ : ∃ lines, Lines.Cuts cr lf (serializeEvents events) lines [] := by
    rcases List.eq_nil_or_concat' events with rfl | ⟨init, e, rfl⟩
    · exact ⟨[], .stop rfl⟩
    · obtain ⟨front, hfront⟩ := frameText_concat e
      have hlf : Utf8.encode ['\n'] = [lf] := rfl
      rw [serializeEvents_eq, List.flatMap_append, List.flatMap_singleton, hfront,
        ← List.append_assoc, Utf8.encode_append, hlf]
      exact Lines.cuts_lf _
  have hlines : lines = events.flatMap eventLines := by
    have hpieces := hcuts.pieces_eq
    rw [pieces_serializeEvents] at hpieces
    exact (List.append_cancel_right hpieces).symm
  refine parse_of_cuts_all ?_
  have heach : eventLines = fun e => (frameLines e).map Utf8.encode := funext eventLines_eq
  have htexts : ((events.flatMap frameLines).map String.ofList).map Str.asBytes = lines := by
    rw [hlines, heach, List.map_map, List.map_flatMap]
    congr 1
    funext e
    exact List.map_congr_left fun l _ => Str.asBytes_ofList l
  rw [htexts]
  exact hcuts

/-! ### Clean events -/

/-- The text of an event survives its frame: a payload without CR, or a comment without a CR that
stands alone. -/
def Clean : StreamEvent → Prop
  | .comment text => NoLoneCr text.toList
  | .data raw _ => '\r' ∉ raw.toList

theorem Clean.noLoneCr {e : StreamEvent} (h : Clean e) : NoLoneCr (text e).toList := by
  cases e with
  | comment text => exact h
  | data raw parsedJson => exact noLoneCr_of_not_mem h

/-- Every line of a clean event's frame has the prefix, but the blank one at the end. -/
theorem frameLines_eq {e : StreamEvent} (h : Clean e) :
    frameLines e =
      (textPieces (text e).toList).map ((eventPrefix e).toList ++ ·) ++ [[]] := by
  obtain ⟨hcr, hlf⟩ := eventPrefix_isLine e
  obtain ⟨p, ps, hp, hps⟩ := pieces_prefixLines hcr hlf ['\n'] _ h.noLoneCr
  have hframe : textPieces (frameText e) =
      (textPieces (text e).toList).map ((eventPrefix e).toList ++ ·) ++ [[]] ++ [[]] := by
    rw [frameText, textPieces_append hcr hlf hps, hp, List.append_assoc]
    rfl
  rw [frameLines, hframe, List.dropLast_concat]

/-- Without a CR, lines end at LF only. -/
theorem textPieces_eq_splitOn {cs : List Char} (h : '\r' ∉ cs) :
    textPieces cs = cs.splitOn '\n' := by
  induction cs with
  | nil => simp
  | cons c cs ih =>
    simp only [List.mem_cons, not_or] at h
    rw [List.splitOn_cons_eq_if_modifyHead, ← ih h.2]
    by_cases hc : c = '\n'
    · rw [if_pos (by simp [hc]), hc, textPieces_lf]
    · rw [if_neg (by simp [hc]), textPieces_of_ne hc (Ne.symm h.1)]

/-- The lines of a text at LF, CRLF and CR. -/
def wireLines (text : String) : List String := (EventSource.lines text).map String.ofList

theorem wireLines_eq_split {text : String} (h : '\r' ∉ text.toList) :
    wireLines text = Str.split '\n' text :=
  congrArg (List.map String.ofList) (textPieces_eq_splitOn h)

variable (fromStr) in
/-- What a clean event is read back as. -/
def readBack : StreamEvent → List StreamEvent
  | .comment text => (wireLines text).map .comment
  | .data raw _ => [.data raw (fromStr raw)]

/-- Lines behind a prefix, where `new` and `pending` say what one of them adds to the events and to
the pending data. -/
theorem consumeLines_prefixed {pre : String} {new : String → List StreamEvent}
    {pending : String → List String}
    (hconsume : ∀ p s, consumeLine fromStr p (pre ++ s) =
      (new s, { p with dataLines := p.dataLines ++ pending s }))
    (lines : List String) :
    ∀ dataLines, consumeLines fromStr dataLines (lines.map (pre ++ ·)) =
      (lines.flatMap new, dataLines ++ lines.flatMap pending) := by
  induction lines with
  | nil => simp [consumeLines]
  | cons line lines ih =>
    intro dataLines
    simp [consumeLines_cons, hconsume, ih]

/-- **A clean event is read back** from its frame, and nothing is left pending. -/
theorem consumeLines_frameLines {e : StreamEvent} (h : Clean e) :
    consumeLines fromStr [] ((frameLines e).map String.ofList) = (readBack fromStr e, []) := by
  have htexts : (frameLines e).map String.ofList =
      (wireLines (text e)).map (eventPrefix e ++ ·) ++ [""] := by
    rw [frameLines_eq h, List.map_append, List.map_map, wireLines, List.map_map]
    congr 1
    refine List.map_congr_left fun l _ => ?_
    simp
  rw [htexts, consumeLines_append]
  cases e with
  | comment t =>
    have hconsume : ∀ p s, consumeLine fromStr p (": " ++ s) =
        ([.comment s], { p with dataLines := p.dataLines ++ [] }) := by
      intro p s
      rw [List.append_nil]
      exact consumeLine_comment p s
    have hlines := consumeLines_prefixed hconsume (wireLines t) []
    simp only [eventPrefix, text, hlines]
    simp [consumeLines, consumeLine_blank, dispatchEvent, readBack, List.map_eq_flatMap]
  | data raw parsedJson =>
    have hconsume : ∀ p s, consumeLine fromStr p ("data: " ++ s) =
        ([], { p with dataLines := p.dataLines ++ [s] }) := consumeLine_data
    have hlines := consumeLines_prefixed hconsume (wireLines raw) []
    simp only [eventPrefix, text, hlines]
    rw [wireLines_eq_split h]
    simp [consumeLines, consumeLine_blank, dispatchEvent, dataEvent, readBack, Str.split_ne_nil,
      Str.join_split]

theorem consumeLines_frames {events : List StreamEvent} (h : ∀ e ∈ events, Clean e) :
    consumeLines fromStr [] ((events.flatMap frameLines).map String.ofList) =
      (events.flatMap (readBack fromStr), []) := by
  induction events with
  | nil => rfl
  | cons e events ih =>
    rw [List.flatMap_cons, List.map_append, consumeLines_append,
      consumeLines_frameLines (h e List.mem_cons_self),
      ih fun e he => h e (List.mem_cons_of_mem _ he)]
    rfl

/-! ### Injection -/

/-- The raw data of an event. -/
def dataRaw : StreamEvent → Option String
  | .comment _ => none
  | .data raw _ => some raw

/-- The text of a comment. -/
def commentText : StreamEvent → Option String
  | .comment text => some text
  | .data _ _ => none

variable (fromStr) in
/-- No event of a body becomes another one, where `linesOf` says what the lines of a comment are. -/
structure NoInjection (linesOf : String → List String) (events : List StreamEvent) : Prop where
  /-- Every line of a frame that is not blank has the prefix of the event. -/
  prefixed : ∀ e ∈ events, ∀ line ∈ eventLines e, line ≠ [] → Str.asBytes (eventPrefix e) <+: line
  /-- The body parses to the recorded payloads, and to the lines of the recorded comments. -/
  parsed : ∃ parsed, parse fromStr (buildStreamBody events).bytes = .ok parsed ∧
    parsed.filterMap dataRaw = events.filterMap dataRaw ∧
    parsed.filterMap commentText = (events.filterMap commentText).flatMap linesOf

theorem filterMap_dataRaw_readBack (e : StreamEvent) :
    (readBack fromStr e).filterMap dataRaw = (dataRaw e).toList := by
  cases e with
  | comment text => simp [readBack, dataRaw, Function.comp_def]
  | data raw parsedJson => rfl

theorem filterMap_commentText_readBack (e : StreamEvent) :
    (readBack fromStr e).filterMap commentText = (commentText e).toList.flatMap wireLines := by
  cases e with
  | comment text => simp [readBack, commentText, Function.comp_def]
  | data raw parsedJson => rfl

/-- Clean events inject nothing. -/
theorem noInjection_of_clean {events : List StreamEvent} (h : ∀ e ∈ events, Clean e) :
    NoInjection fromStr wireLines events where
  prefixed := by
    intro e he line hline hne
    rw [eventLines_eq, frameLines_eq (h e he)] at hline
    obtain ⟨l, hl, rfl⟩ := List.mem_map.1 hline
    rcases List.mem_append.1 hl with hl | hl
    · obtain ⟨rest, -, rfl⟩ := List.mem_map.1 hl
      exact ⟨Utf8.encode rest, by rw [Utf8.encode_append]; rfl⟩
    · rw [List.mem_singleton.1 hl] at hne
      exact absurd rfl hne
  parsed := by
    refine ⟨events.flatMap (readBack fromStr), ?_, ?_, ?_⟩
    · rw [buildStreamBody_bytes, parse_frames, readLines, consumeLines_frames h]
      rfl
    · simp only [List.filterMap_flatMap, filterMap_dataRaw_readBack]
      rw [List.filterMap_eq_flatMap_toList]
    · simp only [List.filterMap_flatMap, filterMap_commentText_readBack]
      rw [List.filterMap_eq_flatMap_toList, List.flatMap_assoc]

/-- The payloads that come back hold no CR. -/
theorem NoInjection.data {linesOf : String → List String} {events : List StreamEvent}
    (h : NoInjection fromStr linesOf events) {raw : String} {parsedJson : Option Json}
    (he : .data raw parsedJson ∈ events) : '\r' ∉ raw.toList := by
  obtain ⟨parsed, hparse, hdata, -⟩ := h.parsed
  have hraw : raw ∈ parsed.filterMap dataRaw := by
    rw [hdata]
    exact List.mem_filterMap.2 ⟨_, he, rfl⟩
  obtain ⟨e, hmem, hdataRaw⟩ := List.mem_filterMap.1 hraw
  cases emitted_of_parse hparse e hmem with
  | comment htext => cases hdataRaw
  | data hcr => exact Option.some.inj hdataRaw ▸ hcr

/-- The comments among the events of lines. -/
theorem filterMap_read (lines : List (List Char)) :
    ∀ pending, (EventSource.read fromStr pending lines).filterMap commentText =
      (lines.filterMap commentLine).map String.ofList := by
  induction lines with
  | nil => exact fun _ => rfl
  | cons line lines ih =>
    intro pending
    have hdispatch : (EventSource.dispatch fromStr pending).filterMap commentText = [] := by
      unfold EventSource.dispatch
      split_ifs <;> simp [commentText]
    simp only [EventSource.read]
    split_ifs with hblank hcolon hdata
    · simp [List.filterMap_append, hdispatch, ih, hblank, commentLine]
    · simp [commentText, commentLine, hcolon, ih]
    · simp [commentLine, hcolon, ih]
    · simp [commentLine, hcolon, ih]

/-- The weight of the lines of a comment. -/
def lineWeight : StreamEvent → ℕ
  | .comment text => weight (textPieces text.toList)
  | .data _ _ => 0

/-- The comments of a frame weigh no more than the lines of its comment, and less if the comment has
a lone CR. -/
theorem commentWeight_frameLines {e : StreamEvent}
    (h : ∀ raw parsedJson, e = .data raw parsedJson → '\r' ∉ raw.toList) :
    commentWeight (frameLines e) ≤ lineWeight e ∧
      (¬ Clean e → commentWeight (frameLines e) < lineWeight e) := by
  cases e with
  | comment t =>
    obtain ⟨p, ps, hps, hle, hlt⟩ := weight_prefixLines ['\n'] t.toList
    have hblank : commentWeight (textPieces ['\n']) = 0 := by decide
    have hframe : commentWeight (frameLines (.comment t)) = p.length + 1 + commentWeight ps := by
      have hpieces := textPieces_frameText (.comment t) []
      have hcomment : textPieces (frameText (.comment t)) = (": ".toList ++ p) :: ps :=
        @textPieces_append ": ".toList _ _ _ (by decide) (by decide) hps
      rw [List.append_nil, hcomment] at hpieces
      rw [← commentWeight_cons_prefixed, hpieces, commentWeight_append]
      rfl
    rw [hframe, lineWeight]
    rw [hblank] at hle hlt
    exact ⟨hle, hlt⟩
  | data raw parsedJson =>
    have hclean : Clean (.data raw parsedJson) := h raw parsedJson rfl
    -- no line of a payload's frame begins with a colon
    have hnone : (frameLines (.data raw parsedJson)).filterMap commentLine = [] := by
      refine List.filterMap_eq_nil_iff.2 fun l hl => ?_
      rw [frameLines_eq hclean] at hl
      rcases List.mem_append.1 hl with hl | hl
      · obtain ⟨rest, -, rfl⟩ := List.mem_map.1 hl
        simp [eventPrefix, commentLine]
      · rw [List.mem_singleton.1 hl]
        rfl
    refine ⟨?_, fun hne => absurd hclean hne⟩
    rw [commentWeight, hnone]
    exact Nat.le_refl 0

theorem commentWeight_frames (events : List StreamEvent) :
    commentWeight (events.flatMap frameLines) =
      (events.map fun e => commentWeight (frameLines e)).sum := by
  induction events with
  | nil => rfl
  | cons e events ih =>
    rw [List.flatMap_cons, commentWeight_append, ih, List.map_cons, List.sum_cons]

/-- The lines of the recorded comments weigh what those of the events do. -/
theorem weight_wireLines (events : List StreamEvent) :
    weight (((events.filterMap commentText).flatMap wireLines).map String.toList) =
      (events.map lineWeight).sum := by
  induction events with
  | nil => rfl
  | cons e events ih =>
    rw [List.map_cons, List.sum_cons, ← ih]
    cases e with
    | comment t =>
      have htoList : (wireLines t).map String.toList = textPieces t.toList :=
        Str.map_toList_ofList _
      have hcomment : (StreamEvent.comment t :: events).filterMap commentText =
          t :: events.filterMap commentText := rfl
      rw [hcomment, List.flatMap_cons, List.map_append, weight_append, htoList, lineWeight]
    | data raw parsedJson =>
      rw [lineWeight, Nat.zero_add]
      rfl

/-- **Only clean events inject nothing.** -/
theorem clean_of_noInjection {events : List StreamEvent}
    (h : NoInjection fromStr wireLines events) : ∀ e ∈ events, Clean e := by
  obtain ⟨parsed, hparse, -, hcomments⟩ := h.parsed
  -- the comments that come back weigh as much as the lines that were recorded
  have hread : parsed = EventSource.read fromStr [] (events.flatMap frameLines) := by
    rw [buildStreamBody_bytes, parse_frames, readLines] at hparse
    split_ifs at hparse
    rw [← Except.ok.inj hparse, ← read_eq_consumeLines, Str.map_toList_ofList]
    rfl
  rw [hread, filterMap_read] at hcomments
  have hweight : (events.map fun e => commentWeight (frameLines e)).sum =
      (events.map lineWeight).sum := by
    rw [← commentWeight_frames, ← weight_wireLines, ← hcomments, Str.map_toList_ofList,
      commentWeight]
  have hle : ∀ e ∈ events, commentWeight (frameLines e) ≤ lineWeight e ∧
      (¬ Clean e → commentWeight (frameLines e) < lineWeight e) := by
    intro e he
    refine commentWeight_frameLines ?_
    rintro raw parsedJson rfl
    exact h.data he
  intro e he
  by_contra hnot
  exact absurd hweight (List.sum_lt_sum _ _ (fun e he => (hle e he).1)
    ⟨e, he, (hle e he).2 hnot⟩).ne

/-- With the renderer's own lines, at LF only, no CR at all comes back. -/
theorem noInjection_split_iff (events : List StreamEvent) :
    NoInjection fromStr (Str.split '\n') events ↔ ∀ e ∈ events, '\r' ∉ (text e).toList := by
  constructor
  · intro h e he
    cases e with
    | data raw parsedJson => exact h.data he
    | comment t =>
      intro hcr
      obtain ⟨parsed, hparse, -, hcomments⟩ := h.parsed
      -- a line of the comment that holds the CR has come back
      rw [text, ← Str.join_split '\n' t] at hcr
      obtain ⟨l, hl, hcr⟩ := Str.mem_join hcr (by decide)
      have hback : l ∈ parsed.filterMap commentText := by
        rw [hcomments]
        exact List.mem_flatMap.2 ⟨t, List.mem_filterMap.2 ⟨_, he, rfl⟩, hl⟩
      obtain ⟨e', hmem, hcommentText⟩ := List.mem_filterMap.1 hback
      cases emitted_of_parse hparse e' hmem with
      | comment htext => exact htext.1 (Option.some.inj hcommentText ▸ hcr)
      | data _ => cases hcommentText
  · intro h
    have hclean : ∀ e ∈ events, Clean e := by
      intro e he
      cases e with
      | comment t => exact noLoneCr_of_not_mem (h _ he)
      | data raw parsedJson => exact h _ he
    obtain ⟨hprefixed, parsed, hparse, hdata, hcomments⟩ :=
      @noInjection_of_clean fromStr events hclean
    refine ⟨hprefixed, parsed, hparse, hdata, hcomments.trans (List.flatMap_congr fun t ht => ?_)⟩
    obtain ⟨e, he, hcomment⟩ := List.mem_filterMap.1 ht
    cases e with
    | comment t' =>
      obtain rfl := Option.some.inj hcomment
      exact wireLines_eq_split (h _ he)
    | data raw parsedJson => cases hcomment

/-- **No frame injection, exactly.**  The lines of a body are those of its frames.  No event becomes
another one if and only if no payload holds a CR and every CR of a comment stands directly before an
LF; where the lines of a comment are those at LF only, if and only if no event holds a CR. -/
theorem noInjection_iff (fromStr : String → Option Json) (events : List StreamEvent) :
    Lines.pieces cr lf (buildStreamBody events).bytes = events.flatMap eventLines ++ [[]] ∧
    (NoInjection fromStr wireLines events ↔ ∀ e ∈ events, Clean e) ∧
    (NoInjection fromStr (Str.split '\n') events ↔ ∀ e ∈ events, '\r' ∉ (text e).toList) := by
  rw [buildStreamBody_bytes]
  exact ⟨pieces_serializeEvents events, ⟨clean_of_noInjection, noInjection_of_clean⟩,
    noInjection_split_iff events⟩

/-- **A payload becomes two events.**  What follows two CRs in a recorded payload is read as an
event of its own. -/
theorem payload_injects :
    parse (fun _ => none) (buildStreamBody [.data "a\r\rdata: b" none]).bytes =
        .ok [.data "a" none, .data "b" none] ∧
      ¬ NoInjection (fun _ => none) wireLines [.data "a\r\rdata: b" none] ∧
      ¬ NoInjection (fun _ => none) (Str.split '\n') [.data "a\r\rdata: b" none] := by
  refine ⟨by decide +kernel, fun h => ?_, fun h => ?_⟩
  · exact absurd (h.data List.mem_cons_self) (by decide)
  · exact absurd (h.data List.mem_cons_self) (by decide)

end SseParser

end SpycatcherHarness
