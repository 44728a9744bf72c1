import SpycatcherHarness.Server.ReplayStream
import SpycatcherHarness.Sse.Chunking

/-!
# What is replayed parses to what was recorded

`serializeEvent` writes an event behind a prefix, line by line; `SseParser` strips the prefix, an
optional space, and joins the lines.  They undo each other on the events that the parser itself
emits (`SseParser.Emitted`): no event holds a CR, a comment holds no LF either, and the parsed
value of a payload is the one its text determines.

* `SseParser.emitted_of_parse` : every event of a parse is of that form.
* `SseParser.drain_serializeEvent` : reading back the frame of such an event gives the event.
* `SseParser.parse_serializeEvents` : the round trip of whole transcripts.
-/

namespace SpycatcherHarness

namespace SseParser

variable (fromStr : String → Option Json)

/-! ### The parser's image -/

/-- The text of a line: it holds no line symbol. -/
def IsLine (s : String) : Prop := '\r' ∉ s.toList ∧ '\n' ∉ s.toList

/-- An event as the parser emits it. -/
inductive Emitted : StreamEvent → Prop
  | comment {text : String} : IsLine text → Emitted (.comment text)
  | data {raw : String} : '\r' ∉ raw.toList → Emitted (.data raw (fromStr raw))

variable {fromStr}

theorem IsLine.of_subset {s t : String} (h : IsLine s) (hts : t.toList ⊆ s.toList) : IsLine t :=
  ⟨fun hc => h.1 (hts hc), fun hc => h.2 (hts hc)⟩

/-- The bytes between two line ends are those of a line. -/
theorem isLine_of_cut {bs line term rest : Bytes} {s : String}
    (h : Lines.cut cr lf bs = some (line, term, rest)) (hs : Str.fromUtf8 line = some s) :
    IsLine s := by
  obtain ⟨-, ⟨hc, hl⟩, -⟩ := Lines.cut_eq_some h
  rw [← Str.fromUtf8_eq_some_iff.1 hs] at hc hl
  exact ⟨fun hm => hc ((Str.mem_asBytes_iff (by decide)).2 hm),
    fun hm => hl ((Str.mem_asBytes_iff (by decide)).2 hm)⟩

theorem isLine_stripOptionalSpace {s : String} (h : IsLine s) :
    IsLine (stripOptionalSpace s) := by
  unfold stripOptionalSpace
  cases hs : Str.stripPrefix ' ' s with
  | none => exact h
  | some t => exact h.of_subset (by rw [Str.stripPrefix_eq_some_iff.1 hs]; simp)

theorem isLine_fieldValue {s f v : String} (h : IsLine s) (hv : fieldValue s f = some v) :
    IsLine v := by
  unfold fieldValue at hv
  cases hs : Str.splitOnce ':' s with
  | none =>
    simp only [hs] at hv
    split_ifs at hv
    cases hv
    exact ⟨by simp, by simp⟩
  | some p =>
    simp only [hs] at hv
    split_ifs at hv
    cases hv
    simp only [Str.splitOnce, Option.map_eq_some_iff] at hs
    -- the value is the end of the line
    obtain ⟨⟨xs, ys⟩, hsplit, rfl⟩ := hs
    obtain ⟨hcat, -⟩ := Str.splitOnceList_eq_some hsplit
    exact isLine_stripOptionalSpace (h.of_subset (by rw [hcat]; simp))

/-- Pending data values are lines. -/
def LinesPending (p : SseParser) : Prop := ∀ l ∈ p.dataLines, IsLine l

theorem dispatchEvent_emitted {p : SseParser} (hp : LinesPending p) :
    (∀ e ∈ (dispatchEvent fromStr p).1, Emitted fromStr e) ∧
      LinesPending (dispatchEvent fromStr p).2 := by
  unfold dispatchEvent
  split_ifs
  · exact ⟨by simp, hp⟩
  · refine ⟨?_, by simp [LinesPending]⟩
    simp only [List.mem_singleton, forall_eq]
    refine .data fun hc => ?_
    obtain ⟨l, hl, hc⟩ := Str.mem_join hc (by decide)
    exact (hp l hl).1 hc

/-- A line adds only events of that form. -/
theorem consumeLine_emitted {p : SseParser} {s : String} (hp : LinesPending p) (hs : IsLine s) :
    (∀ e ∈ (consumeLine fromStr p s).1, Emitted fromStr e) ∧
      LinesPending (consumeLine fromStr p s).2 := by
  unfold consumeLine
  split_ifs
  · exact dispatchEvent_emitted hp
  · cases hstrip : Str.stripPrefix ':' s with
    | some comment =>
      refine ⟨?_, hp⟩
      simp only [List.mem_singleton, forall_eq]
      refine .comment (isLine_stripOptionalSpace (hs.of_subset ?_))
      rw [Str.stripPrefix_eq_some_iff.1 hstrip]
      simp
    | none =>
      cases hv : fieldValue s "data" with
      | none => exact ⟨by simp, hp⟩
      | some value =>
        refine ⟨by simp, fun l hl => ?_⟩
        rcases List.mem_append.1 hl with hl | hl
        · exact hp l hl
        · rw [List.mem_singleton.1 hl]; exact isLine_fieldValue hs hv

theorem drain_emitted {events found : List StreamEvent} {p p' : SseParser}
    (h : drain fromStr events p = (.ok found, p')) (hp : LinesPending p)
    (he : ∀ e ∈ events, Emitted fromStr e) :
    (∀ e ∈ found, Emitted fromStr e) ∧ LinesPending p' := by
  induction events, p using drain_induct fromStr with
  | stop events p hcut =>
    rw [drain_stop fromStr hcut] at h
    cases h
    exact ⟨he, hp⟩
  | invalid events p line term rest hcut hs =>
    rw [drain_invalid fromStr hcut hs] at h
    cases h
  | next events p line term rest s hcut hs ih =>
    rw [drain_line fromStr hcut hs] at h
    obtain ⟨hnew, hp'⟩ := @consumeLine_emitted fromStr { p with buffer := rest } _ hp
      (isLine_of_cut hcut hs)
    refine ih h hp' fun e hmem => ?_
    rcases List.mem_append.1 hmem with hmem | hmem
    · exact he e hmem
    · exact hnew e hmem

/-- What `parse` does: one drain, and a finish. -/
theorem parse_eq_ok_iff {transcript : Bytes} {events : List StreamEvent} :
    parse fromStr transcript = .ok events ↔ ∃ found p held,
      drain fromStr [] ⟨transcript, []⟩ = (.ok found, p) ∧
        (finish fromStr p).1 = .ok held ∧ events = found ++ held := by
  have hfeed : feed fromStr empty transcript = drain fromStr [] ⟨transcript, []⟩ := rfl
  unfold parse parseChunks feedAll
  rw [hfeed]
  cases drain fromStr [] ⟨transcript, []⟩ with
  | mk result p =>
    cases result with
    | error e => simp
    | ok found =>
      simp only [feedAll, List.append_nil]
      cases hfin : (finish fromStr p).1 with
      | error e => simp [Except.map, hfin]
      | ok held => simp [Except.map, hfin, eq_comm]

theorem finish_emitted {p : SseParser} {held : List StreamEvent} (hp : LinesPending p)
    (h : (finish fromStr p).1 = .ok held) : ∀ e ∈ held, Emitted fromStr e := by
  unfold finish at h
  split_ifs at h with hb
  · simp only at h
    split_ifs at h
    cases h
    exact (dispatchEvent_emitted (p := { p with buffer := [] }) hp).1
  · simp only at h
    split_ifs at h
    cases h
    simp

/-- Every event of a parse is of the form the parser emits. -/
theorem emitted_of_parse {transcript : Bytes} {events : List StreamEvent}
    (h : parse fromStr transcript = .ok events) : ∀ e ∈ events, Emitted fromStr e := by
  obtain ⟨found, p, held, hdrain, hfin, rfl⟩ := parse_eq_ok_iff.1 h
  obtain ⟨hfound, hp⟩ := drain_emitted hdrain (by simp [LinesPending]) (by simp)
  intro e he
  rcases List.mem_append.1 he with he | he
  · exact hfound e he
  · exact finish_emitted hp hfin e he

/-! ### Reading a frame back -/

/-- A text line with its LF at the front of the buffer is consumed. -/
theorem drain_textLine {s : String} (hs : IsLine s) (events : List StreamEvent)
    (rest : Bytes) (dataLines : List String) :
    drain fromStr events ⟨Str.asBytes s ++ lf :: rest, dataLines⟩ =
      drain fromStr (events ++ (consumeLine fromStr ⟨rest, dataLines⟩ s).1)
        (consumeLine fromStr ⟨rest, dataLines⟩ s).2 := by
  refine drain_line fromStr
    (Lines.cut_lf rest ?_ ?_) (Str.fromUtf8_asBytes s)
  · exact fun hm => hs.1 ((Str.mem_asBytes_iff (by decide)).1 hm)
  · exact fun hm => hs.2 ((Str.mem_asBytes_iff (by decide)).1 hm)

theorem stripOptionalSpace_space (s : String) : stripOptionalSpace (" " ++ s) = s := by
  have h : Str.stripPrefix ' ' (" " ++ s) = some s :=
    Str.stripPrefix_eq_some_iff.2 (by rw [String.toList_append]; rfl)
  simp [stripOptionalSpace, h]

theorem consumeLine_comment (p : SseParser) (s : String) :
    consumeLine fromStr p (": " ++ s) = ([.comment s], p) := by
  have hne : ¬ ": " ++ s = "" := by
    intro h
    have := congrArg String.toList h
    simp at this
  have hstrip : Str.stripPrefix ':' (": " ++ s) = some (" " ++ s) :=
    Str.stripPrefix_eq_some_iff.2 (by rw [String.toList_append, String.toList_append]; rfl)
  simp only [consumeLine, hne, ↓reduceIte, hstrip, stripOptionalSpace_space]

theorem consumeLine_data (p : SseParser) (s : String) :
    consumeLine fromStr p ("data: " ++ s) =
      ([], { p with dataLines := p.dataLines ++ [s] }) := by
  have hlist : ("data: " ++ s).toList = "data".toList ++ ':' :: (" " ++ s).toList := by
    rw [String.toList_append, String.toList_append]; rfl
  have hne : ¬ "data: " ++ s = "" := by
    intro h
    have := congrArg String.toList h
    simp at this
  have hstrip : Str.stripPrefix ':' ("data: " ++ s) = none := by
    rw [Str.stripPrefix, hlist]; rfl
  have hsplit : Str.splitOnce ':' ("data: " ++ s) = some ("data", " " ++ s) := by
    rw [Str.splitOnce, hlist, Str.splitOnceList_append (by decide)]
    simp
  simp only [consumeLine, hne, ↓reduceIte, hstrip, fieldValue, hsplit, stripOptionalSpace_space]

theorem consumeLine_blank (p : SseParser) :
    consumeLine fromStr p "" = dispatchEvent fromStr p := by
  simp [consumeLine]

theorem isLine_append {s t : String} (hs : IsLine s) (ht : IsLine t) : IsLine (s ++ t) := by
  simp only [IsLine, String.toList_append, List.mem_append, not_or]
  exact ⟨⟨hs.1, ht.1⟩, hs.2, ht.2⟩

/-- Lines behind a prefix are consumed one by one, where `new` and `pending` say what one of them
adds to the events and to the pending data. -/
theorem drain_prefixedLines {pre : String} {new : String → List StreamEvent}
    {pending : String → List String} (hpre : IsLine pre)
    (hconsume : ∀ p s, consumeLine fromStr p (pre ++ s) =
      (new s, { p with dataLines := p.dataLines ++ pending s }))
    {lines : List String} (h : ∀ l ∈ lines, IsLine l)
    (events : List StreamEvent) (rest : Bytes) (dataLines : List String) :
    drain fromStr events
        ⟨(lines.flatMap fun l => Str.asBytes pre ++ Str.asBytes l ++ [10]) ++ rest, dataLines⟩ =
      drain fromStr (events ++ lines.flatMap new) ⟨rest, dataLines ++ lines.flatMap pending⟩ := by
  induction lines generalizing events dataLines with
  | nil => simp
  | cons l lines ih =>
    have hl : IsLine (pre ++ l) := isLine_append hpre (h l List.mem_cons_self)
    have hcat : ((l :: lines).flatMap fun l => Str.asBytes pre ++ Str.asBytes l ++ [10]) ++
        rest = Str.asBytes (pre ++ l) ++ lf ::
          ((lines.flatMap fun l => Str.asBytes pre ++ Str.asBytes l ++ [10]) ++ rest) := by
      simp [lf]
    rw [hcat, drain_textLine hl, hconsume]
    simp only
    rw [ih fun l hl => h l (List.mem_cons_of_mem _ hl)]
    simp

/-- A blank line dispatches what is pending. -/
theorem drain_blank (events : List StreamEvent) (rest : Bytes) (dataLines : List String) :
    drain fromStr events ⟨lf :: rest, dataLines⟩ =
      drain fromStr (events ++ (dispatchEvent fromStr ⟨rest, dataLines⟩).1)
        (dispatchEvent fromStr ⟨rest, dataLines⟩).2 := by
  have h := @drain_textLine fromStr "" ⟨by decide, by decide⟩ events rest
    dataLines
  rwa [consumeLine_blank] at h

/-- The events that the frame of an event is read back as.  A comment comes back as one comment a
line. -/
def reread (fromStr : String → Option Json) : StreamEvent → List StreamEvent
  | .comment text => (Str.split '\n' text).map .comment
  | .data raw _ => [.data raw (fromStr raw)]

/-- The text of an event. -/
def text : StreamEvent → String
  | .comment text => text
  | .data raw _ => raw

/-- Reading back the frame of an event whose text has no CR. -/
theorem drain_serializeEvent {e : StreamEvent} (h : '\r' ∉ (text e).toList)
    (events : List StreamEvent) (rest : Bytes) :
    drain fromStr events ⟨serializeEvent e ++ rest, []⟩ =
      drain fromStr (events ++ reread fromStr e) ⟨rest, []⟩ := by
  have hlines : ∀ l ∈ Str.split '\n' (text e), IsLine l := fun l hl =>
    ⟨fun hc => h (Str.mem_of_mem_split hl hc), Str.not_mem_of_mem_split hl⟩
  have hblank : ∀ frame : Bytes, frame ++ [10] ++ rest = frame ++ (lf :: rest) := by
    intro frame; simp [lf]
  cases e with
  | comment t =>
    -- the lines of a comment become events at once
    have hconsume : ∀ p s, consumeLine fromStr p (": " ++ s) =
        ([.comment s], { p with dataLines := p.dataLines ++ [] }) := by
      intro p s
      rw [List.append_nil]
      exact consumeLine_comment p s
    have hread := drain_prefixedLines ⟨by decide, by decide⟩ hconsume hlines events (lf :: rest) []
    simp only [text] at hread
    have hpending : (Str.split '\n' t).flatMap (fun _ => ([] : List String)) = [] :=
      List.flatMap_eq_nil_iff.2 fun _ _ => rfl
    rw [serializeEvent, serializeLines, hblank, hread, hpending, drain_blank]
    simp [dispatchEvent, reread, List.map_eq_flatMap]
  | data raw j =>
    -- the lines of a payload wait for the blank line that ends the frame
    have hconsume : ∀ p s, consumeLine fromStr p ("data: " ++ s) =
        ([], { p with dataLines := p.dataLines ++ [s] }) := consumeLine_data
    have hread := drain_prefixedLines ⟨by decide, by decide⟩ hconsume hlines events (lf :: rest) []
    simp only [text] at hread
    have hnew : (Str.split '\n' raw).flatMap (fun _ => ([] : List StreamEvent)) = [] :=
      List.flatMap_eq_nil_iff.2 fun _ _ => rfl
    rw [serializeEvent, serializeLines, hblank, hread, hnew, drain_blank]
    simp [dispatchEvent, dataEvent, reread, Str.split_ne_nil, Str.join_split]

/-- An event that the parser emitted is read back as itself. -/
theorem Emitted.reread_eq {e : StreamEvent} (h : Emitted fromStr e) :
    '\r' ∉ (text e).toList ∧ reread fromStr e = [e] := by
  cases h with
  | comment ht => exact ⟨ht.1, by simp [reread, Str.split_eq_singleton ht.2]⟩
  | data hr => exact ⟨hr, rfl⟩

theorem drain_serializeEvents {events : List StreamEvent} (h : ∀ e ∈ events, Emitted fromStr e)
    (before : List StreamEvent) :
    drain fromStr before ⟨serializeEvents events, []⟩ = (.ok (before ++ events), empty) := by
  induction events generalizing before with
  | nil =>
    rw [List.append_nil, serializeEvents_nil]
    exact drain_stop fromStr (p := empty) waiting_empty
  | cons e events ih =>
    obtain ⟨hcr, hreread⟩ := (h e List.mem_cons_self).reread_eq
    rw [serializeEvents_cons, drain_serializeEvent hcr, hreread,
      ih fun e' he' => h e' (List.mem_cons_of_mem _ he')]
    simp

/-- Rendered events parse to themselves. -/
theorem parse_serializeEvents {events : List StreamEvent}
    (h : ∀ e ∈ events, Emitted fromStr e) :
    parse fromStr (serializeEvents events) = .ok events :=
  parse_eq_ok_iff.2 ⟨events, empty, [], by simpa using drain_serializeEvents h [], rfl, by simp⟩

/-! ### The round trip -/

/-- **Recording, rendering and parsing again.**  If a stream, chunked in any way, parses to some
events, then the body that replays these events, chunked in any way, parses to the same events. -/
theorem parseChunks_serializeEvents (chunks replayed : List Bytes) (events : List StreamEvent)
    (h : parseChunks fromStr chunks = .ok events)
    (hbody : replayed.flatten = events.flatMap serializeEvent) :
    parseChunks fromStr replayed = .ok events := by
  rw [parseChunks_eq_parse] at h ⊢
  rw [hbody]
  exact parse_serializeEvents (emitted_of_parse h)

/-- Two data lines around a comment, cut inside the first one. -/
theorem parseChunks_serializeEvents_comment :
    let sent := Str.asBytes "data: a\n:b\r\ndata:  c\n\n"
    let events := [.comment "b", .data "a\n c" none]
    parseChunks (fun _ => none) [sent.take 3, sent.drop 3] = .ok events ∧
      parseChunks (fun _ => none) [serializeEvents events] = .ok events := by
  refine ⟨by decide, parseChunks_serializeEvents
    [(Str.asBytes "data: a\n:b\r\ndata:  c\n\n").take 3,
      (Str.asBytes "data: a\n:b\r\ndata:  c\n\n").drop 3] _ _ (by decide)
    (by simp [serializeEvents])⟩

end SseParser

end SpycatcherHarness
