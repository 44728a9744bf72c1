import SpycatcherHarness.Sse.RoundTrip

/-!
# The event-stream format

A reading of a whole text without a buffer: it is cut into lines at LF, CRLF or CR, and the lines
are read one after another.  Comments become events at once, and `data` values wait for a blank
line.  A parser that succeeds has read its bytes like this (`SseParser.parseChunks_reference`).

* `SseParser.drain_of_cuts`, `SseParser.cuts_of_drain` : draining a buffer is taking complete lines
  off it and consuming them.
* `pieces_encode` : the line ends of a text are those of its bytes.
-/

namespace SpycatcherHarness

/-! ### The reference -/

namespace EventSource

/-- A value without the space that may stand before it. -/
def withoutSpace : List Char → List Char
  | ' ' :: cs => cs
  | cs => cs

/-- What stands before the first colon of a line, or the whole line. -/
def fieldName (line : List Char) : List Char := line.takeWhile (· ≠ ':')

/-- What stands behind the first colon of a line. -/
def fieldText (line : List Char) : List Char := (line.dropWhile (· ≠ ':')).drop 1

variable (fromStr : String → Option Json)

/-- The event that a blank line makes of the pending values. -/
def dispatch (pending : List (List Char)) : List StreamEvent :=
  if pending = [] then []
  else
    let raw := String.ofList (['\n'].intercalate pending)
    [.data raw (fromStr raw)]

/-- The events of lines, after the values that are pending. -/
def read (pending : List (List Char)) : List (List Char) → List StreamEvent
  | [] => []
  | line :: lines =>
    if line = [] then dispatch fromStr pending ++ read [] lines
    else if line.head? = some ':' then
      .comment (String.ofList (withoutSpace line.tail)) :: read pending lines
    else if fieldName line = "data".toList then
      read (pending ++ [withoutSpace (fieldText line)]) lines
    else read pending lines

/-- The lines of a text.  The last one is what follows the last line end. -/
def lines (text : String) : List (List Char) := Lines.pieces '\r' '\n' text.toList

/-- The events of a text. -/
def events (text : String) : List StreamEvent := read fromStr [] (lines text)

end EventSource

/-! ### Lines of a text and of its bytes -/

/-- Only LF and CR are encoded with their bytes. -/
theorem lineFree_utf8EncodeChar {c : Char} (hcr : c ≠ '\r') (hlf : c ≠ '\n') :
    cr ∉ String.utf8EncodeChar c ∧ lf ∉ String.utf8EncodeChar c := by
  constructor
  · intro h
    exact hcr (Char.toNat_inj.1 (Utf8.mem_utf8EncodeChar_ascii h (by decide)))
  · intro h
    exact hlf (Char.toNat_inj.1 (Utf8.mem_utf8EncodeChar_ascii h (by decide)))

theorem encode_cr (cs : List Char) : Utf8.encode ('\r' :: cs) = cr :: Utf8.encode cs := by
  rw [Utf8.encode_cons, Utf8.utf8EncodeChar_ascii (by decide)]
  rfl

theorem encode_lf (cs : List Char) : Utf8.encode ('\n' :: cs) = lf :: Utf8.encode cs := by
  rw [Utf8.encode_cons, Utf8.utf8EncodeChar_ascii (by decide)]
  rfl

/-- An encoding begins with LF only if the text does. -/
theorem encode_ne_lf {cs : List Char} (h : ∀ rest, cs ≠ '\n' :: rest) (bs : Bytes) :
    Utf8.encode cs ≠ lf :: bs := by
  intro heq
  cases cs with
  | nil => cases heq
  | cons c cs =>
    have hne : c ≠ '\n' := fun hc => h cs (by rw [hc])
    have hmem : lf ∈ String.utf8EncodeChar c := by
      obtain ⟨b, rest, hb⟩ : ∃ b rest, String.utf8EncodeChar c = b :: rest :=
        List.exists_cons_of_length_pos (by rw [String.length_utf8EncodeChar]; exact c.utf8Size_pos)
      rw [Utf8.encode_cons, hb, List.cons_append, List.cons.injEq] at heq
      rw [hb, heq.1]
      exact List.mem_cons_self
    exact hne (Char.toNat_inj.1 (Utf8.mem_utf8EncodeChar_ascii hmem (by decide)))

/-- **The lines of a text's bytes are the bytes of its lines**. -/
theorem pieces_encode (cs : List Char) :
    Lines.pieces cr lf (Utf8.encode cs) = (Lines.pieces '\r' '\n' cs).map Utf8.encode := by
  have hne : cr ≠ lf := by decide
  have hne' : '\r' ≠ '\n' := by decide
  induction cs using Lines.lineInduct '\r' '\n' with
  | nil => rfl
  | lineFeed cs ih =>
    rw [encode_lf, Lines.pieces_lf, Lines.pieces_lf, ih]
    rfl
  | both cs ih =>
    rw [encode_cr, encode_lf, Lines.pieces_crlf hne, Lines.pieces_crlf hne', ih]
    rfl
  | alone cs hrest ih =>
    rw [encode_cr, Lines.pieces_cr hne (encode_ne_lf hrest), Lines.pieces_cr hne' hrest, ih]
    rfl
  | symbol c cs hlf hcr ih =>
    obtain ⟨hfreeCr, hfreeLf⟩ := lineFree_utf8EncodeChar hcr hlf
    obtain ⟨p, ps, hp⟩ := List.exists_cons_of_ne_nil (Lines.pieces_ne_nil '\r' '\n' cs)
    rw [Utf8.encode_cons, Lines.pieces_append hfreeCr hfreeLf, ih,
      Lines.pieces_cons_of_ne hlf hcr, hp]
    rfl

/-! ### Consuming lines -/

namespace SseParser

variable (fromStr : String → Option Json)

/-- What consuming lines one after another adds to the events and leaves pending. -/
def consumeLines (dataLines : List String) : List String → List StreamEvent × List String
  | [] => ([], dataLines)
  | line :: lines =>
    let (new, p) := consumeLine fromStr ⟨[], dataLines⟩ line
    let (later, pending) := consumeLines p.dataLines lines
    (new ++ later, pending)

theorem consumeLines_cons (dataLines : List String) (line : String) (lines : List String) :
    consumeLines fromStr dataLines (line :: lines) =
      ((consumeLine fromStr ⟨[], dataLines⟩ line).1 ++
          (consumeLines fromStr (consumeLine fromStr ⟨[], dataLines⟩ line).2.dataLines lines).1,
        (consumeLines fromStr (consumeLine fromStr ⟨[], dataLines⟩ line).2.dataLines lines).2) :=
  rfl

theorem consumeLines_append (dataLines : List String) (lines lines' : List String) :
    consumeLines fromStr dataLines (lines ++ lines') =
      ((consumeLines fromStr dataLines lines).1 ++
          (consumeLines fromStr (consumeLines fromStr dataLines lines).2 lines').1,
        (consumeLines fromStr (consumeLines fromStr dataLines lines).2 lines').2) := by
  induction lines generalizing dataLines with
  | nil => simp [consumeLines]
  | cons line lines ih => simp [consumeLines_cons, ih]

/-- A line is consumed whatever is buffered behind it. -/
theorem consumeLine_buffered (dataLines : List String) (line : String) (rest : Bytes) :
    consumeLine fromStr ⟨rest, dataLines⟩ line =
      ((consumeLine fromStr ⟨[], dataLines⟩ line).1,
        ⟨rest, (consumeLine fromStr ⟨[], dataLines⟩ line).2.dataLines⟩) := by
  have h := consumeLine_push fromStr ⟨[], dataLines⟩ line rest
  have hbuffer := consumeLine_buffer fromStr ⟨[], dataLines⟩ line
  simpa [push, hbuffer] using h

variable {fromStr}

/-- Complete lines that decode are consumed. -/
theorem drain_of_cuts {texts : List String} {bytes left : Bytes}
    (h : Lines.Cuts cr lf bytes (texts.map Str.asBytes) left) :
    ∀ (events : List StreamEvent) (dataLines : List String),
      drain fromStr events ⟨bytes, dataLines⟩ =
        (.ok (events ++ (consumeLines fromStr dataLines texts).1),
          ⟨left, (consumeLines fromStr dataLines texts).2⟩) := by
  induction texts generalizing bytes with
  | nil =>
    intro events dataLines
    cases h with
    | stop hcut =>
      rw [drain_stop fromStr hcut]
      simp [consumeLines]
  | cons text texts ih =>
    intro events dataLines
    cases h with
    | next hcut hrest =>
      rw [drain_line fromStr hcut (Str.fromUtf8_asBytes text), consumeLine_buffered, ih hrest,
        consumeLines_cons, List.append_assoc]

/-- A drain that succeeds has consumed the complete lines. -/
theorem cuts_of_drain {events found : List StreamEvent} {p p' : SseParser}
    (h : drain fromStr events p = (.ok found, p')) :
    ∃ texts : List String, Lines.Cuts cr lf p.buffer (texts.map Str.asBytes) p'.buffer := by
  induction events, p using drain_induct fromStr with
  | stop events p hcut =>
    rw [drain_stop fromStr hcut] at h
    cases h
    exact ⟨[], .stop hcut⟩
  | invalid events p line term rest hcut hs =>
    rw [drain_invalid fromStr hcut hs] at h
    cases h
  | next events p line term rest s hcut hs ih =>
    rw [drain_line fromStr hcut hs] at h
    obtain ⟨texts, htexts⟩ := ih h
    rw [consumeLine_buffer] at htexts
    refine ⟨s :: texts, ?_⟩
    rw [List.map_cons, Str.fromUtf8_eq_some_iff.1 hs]
    exact .next hcut htexts

/-! ### Lines and the reference -/

theorem stripOptionalSpace_ofList (cs : List Char) :
    stripOptionalSpace (String.ofList cs) = String.ofList (EventSource.withoutSpace cs) := by
  unfold stripOptionalSpace Str.stripPrefix
  rw [String.toList_ofList]
  cases cs with
  | nil => rfl
  | cons c cs =>
    by_cases hc : c = ' '
    · simp [hc, EventSource.withoutSpace]
    · simp [hc, EventSource.withoutSpace]

theorem fieldValue_ofList (line : List Char) (field : String) :
    fieldValue (String.ofList line) field =
      if EventSource.fieldName line = field.toList then
        some (String.ofList (EventSource.withoutSpace (EventSource.fieldText line)))
      else none := by
  have hfield : ∀ cs : List Char, String.ofList cs = field ↔ cs = field.toList := by
    intro cs
    rw [← String.toList_inj, String.toList_ofList]
  unfold fieldValue Str.splitOnce EventSource.fieldName EventSource.fieldText
  rw [String.toList_ofList, Str.splitOnceList_eq]
  by_cases hc : ':' ∈ line
  · simp only [hc, if_true, Option.map_some, hfield, stripOptionalSpace_ofList]
  -- without a colon the whole line is the name, and the value is empty
  · have hname : line.takeWhile (· ≠ ':') = line := by
      refine List.takeWhile_eq_self_iff.2 fun c hmem => decide_eq_true ?_
      rintro rfl
      exact hc hmem
    have htext : line.dropWhile (· ≠ ':') = [] := by
      refine List.dropWhile_eq_nil_iff.2 fun c hmem => decide_eq_true ?_
      rintro rfl
      exact hc hmem
    simp only [hc, if_false, Option.map_none, hname, htext, hfield]
    rfl

/-- One line, read as the reference reads it. -/
theorem read_cons (pending : List String) (line : List Char) (lines : List (List Char)) :
    EventSource.read fromStr (pending.map String.toList) (line :: lines) =
      (consumeLine fromStr ⟨[], pending⟩ (String.ofList line)).1 ++
        EventSource.read fromStr
          ((consumeLine fromStr ⟨[], pending⟩ (String.ofList line)).2.dataLines.map
            String.toList) lines := by
  cases line with
  | nil =>
    rw [String.ofList_nil, consumeLine_blank]
    by_cases hpending : pending = []
    · simp [EventSource.read, EventSource.dispatch, dispatchEvent, hpending]
    · simp [EventSource.read, EventSource.dispatch, dispatchEvent, hpending, dataEvent, Str.join]
  | cons c line =>
    have hne : String.ofList (c :: line) ≠ "" := by simp
    simp only [EventSource.read, consumeLine, hne, if_false, List.cons_ne_nil, List.head?_cons,
      Option.some.injEq, List.tail_cons]
    by_cases hc : c = ':'
    · subst hc
      have hstrip : Str.stripPrefix ':' (String.ofList (':' :: line)) = some (String.ofList line) :=
        Str.stripPrefix_eq_some_iff.2 (by simp)
      simp only [hstrip, if_true, stripOptionalSpace_ofList]
      rfl
    · have hstrip : Str.stripPrefix ':' (String.ofList (c :: line)) = none := by
        simp [Str.stripPrefix, hc]
      simp only [hstrip, hc, if_false, fieldValue_ofList]
      split_ifs <;> simp

theorem read_eq_consumeLines (pending lines : List String) :
    EventSource.read fromStr (pending.map String.toList) (lines.map String.toList) =
      (consumeLines fromStr pending lines).1 := by
  induction lines generalizing pending with
  | nil => rfl
  | cons line lines ih =>
    rw [List.map_cons, read_cons, ih, consumeLines_cons, String.ofList_toList]

/-- Bytes whose lines decode, and whose rest does, decode. -/
theorem decodes_of_cuts {texts : List String} {bytes left : Bytes}
    (h : Lines.Cuts cr lf bytes (texts.map Str.asBytes) left)
    (hleft : ∃ rest, Str.asBytes rest = left) : ∃ text, Str.asBytes text = bytes := by
  induction texts generalizing bytes with
  | nil => cases h; exact hleft
  | cons text texts ih =>
    cases h with
    | next hcut hrest =>
      obtain ⟨rest, rfl⟩ := ih hrest
      obtain ⟨rfl, -, hterm⟩ := Lines.cut_eq_some hcut
      rcases hterm with rfl | rfl | rfl
      · exact ⟨text ++ ("\n" ++ rest), by simp [show Str.asBytes "\n" = [lf] from rfl]⟩
      · exact ⟨text ++ ("\r" ++ rest), by simp [show Str.asBytes "\r" = [cr] from rfl]⟩
      · exact ⟨text ++ ("\r\n" ++ rest), by simp [show Str.asBytes "\r\n" = [cr, lf] from rfl]⟩

/-- The lines of a text whose bytes have been taken apart. -/
theorem lines_of_cuts {text : String} {texts rest : List String} {left : Bytes}
    (h : Lines.Cuts cr lf (Str.asBytes text) (texts.map Str.asBytes) left)
    (hleft : Lines.pieces cr lf left = rest.map Str.asBytes) :
    EventSource.lines text = (texts ++ rest).map String.toList := by
  have hpieces := h.pieces_eq
  rw [Str.asBytes, pieces_encode, hleft, ← List.map_append] at hpieces
  refine List.map_injective_iff.2 Utf8.encode_injective ?_
  rw [EventSource.lines, hpieces, List.map_map]
  rfl

/-- What parsing gives when the bytes consist of complete lines that decode, and a rest. -/
theorem parse_of_cuts {texts : List String} {bytes left : Bytes}
    (h : Lines.Cuts cr lf bytes (texts.map Str.asBytes) left) :
    parse fromStr bytes =
      (finish fromStr ⟨left, (consumeLines fromStr [] texts).2⟩).1.map fun held =>
        (consumeLines fromStr [] texts).1 ++ held := by
  have hfeed : feed fromStr empty bytes =
      (.ok (consumeLines fromStr [] texts).1, ⟨left, (consumeLines fromStr [] texts).2⟩) :=
    drain_of_cuts h [] []
  simp [parse, parseChunks, feedAll, hfeed]

/-- A parse that succeeds leaves no value pending, and nothing buffered but a CR, which ends a blank
line. -/
theorem cuts_of_parse {bytes : Bytes} {events : List StreamEvent}
    (h : parse fromStr bytes = .ok events) :
    ∃ texts ended left, Lines.Cuts cr lf bytes (texts.map Str.asBytes) left ∧
      (ended = [] ∧ left = [] ∨ ended = [""] ∧ left = [cr]) ∧
      consumeLines fromStr [] (texts ++ ended) = (events, []) := by
  obtain ⟨found, p, held, hdrain, -, -⟩ := parse_eq_ok_iff.1 h
  obtain ⟨texts, hcuts⟩ := cuts_of_drain hdrain
  rw [parse_of_cuts hcuts] at h
  cases hconsumed : consumeLines fromStr [] texts with
  | mk consumed pending =>
    rw [hconsumed] at h
    unfold finish at h
    simp only at h
    split_ifs at h with hcr hpending hpending
    · obtain rfl := Except.ok.inj h
      refine ⟨texts, [""], [cr], hcr ▸ hcuts, .inr ⟨rfl, rfl⟩, ?_⟩
      rw [consumeLines_append, hconsumed]
      simpa [consumeLines, consumeLine_blank, dispatchEvent_push] using hpending
    · cases h
    · obtain rfl := Except.ok.inj h
      obtain ⟨hleft, rfl⟩ := hpending
      exact ⟨texts, [], [], hleft ▸ hcuts, .inl ⟨rfl, rfl⟩, by simp [hconsumed]⟩
    · cases h

/-- **A parser that succeeds reads its bytes as the format says.**  However the bytes come in
chunks, they are UTF-8, and the events are those of the text: those of its lines, whether or not
what follows the last line end, which is empty, is taken for a line.  (A byte order mark at the
start would be part of the first line.) -/
theorem parseChunks_reference (chunks : List Bytes) (events : List StreamEvent)
    (h : parseChunks fromStr chunks = .ok events) :
    ∃ text, Str.fromUtf8 chunks.flatten = some text ∧
      events = EventSource.events fromStr text ∧
      (EventSource.lines text).getLast? = some [] ∧
      events = EventSource.read fromStr [] (EventSource.lines text).dropLast := by
  rw [parseChunks_eq_parse] at h
  obtain ⟨texts, ended, left, hcuts, hended, hconsumed⟩ := cuts_of_parse h
  have hleft : (∃ rest, Str.asBytes rest = left) ∧
      Lines.pieces cr lf left = (ended ++ [""]).map Str.asBytes := by
    rcases hended with ⟨rfl, rfl⟩ | ⟨rfl, rfl⟩
    · exact ⟨⟨"", rfl⟩, rfl⟩
    · exact ⟨⟨"\r", rfl⟩, rfl⟩
  obtain ⟨text, htext⟩ := decodes_of_cuts hcuts hleft.1
  rw [← htext] at hcuts
  have hlines : EventSource.lines text = (texts ++ ended).map String.toList ++ [[]] := by
    rw [lines_of_cuts hcuts hleft.2, ← List.append_assoc, List.map_append]
    rfl
  have hread : EventSource.read fromStr [] ((texts ++ ended).map String.toList) = events := by
    rw [← List.map_nil, read_eq_consumeLines, hconsumed]
  refine ⟨text, Str.fromUtf8_eq_some_iff.2 htext, ?_, by simp [hlines],
    by rw [hlines, List.dropLast_concat, hread]⟩
  -- no value is pending when the last, empty piece is read
  have hlast : (texts ++ ended).map String.toList ++ [[]] =
      (texts ++ ended ++ [""]).map String.toList := by simp
  rw [EventSource.events, hlines, hlast, ← List.map_nil, read_eq_consumeLines,
    consumeLines_append, hconsumed]
  simp [consumeLines, consumeLine_blank, dispatchEvent]

/-- A comment inside an event, three kinds of line ends, and a CR at the end. -/
theorem parseChunks_reference_mixed :
    ∃ text,
      Str.fromUtf8 [Str.asBytes "data: a\r", Str.asBytes "\n:b\ndata\r\r"].flatten = some text ∧
      [.comment "b", .data "a\n" none] = EventSource.events (fun _ => none) text ∧
      (EventSource.lines text).getLast? = some [] ∧
      [.comment "b", .data "a\n" none] =
        EventSource.read (fun _ => none) [] (EventSource.lines text).dropLast :=
  parseChunks_reference _ _ (by decide +kernel)

end SseParser

end SpycatcherHarness
