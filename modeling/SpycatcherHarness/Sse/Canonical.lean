import SpycatcherHarness.Sse.Reference

/-!
# Canonical streams

Keep-alive comments may drift between two recordings of a stream without changing what is sent.  A
policy drops them before a comparison.  What is left is decided by the data frames alone: the
`data` values that stand before each blank line.

* `canonicalizeEvents_eq_iff` : two transcripts have the same canonical events exactly if they have
  the same data frames.
-/

namespace SpycatcherHarness

/-! ### The policy -/

/-- `StreamCanonicalPolicy`. -/
structure StreamCanonicalPolicy where
  ignoreComments : Bool
  deriving DecidableEq

/-- `StreamCanonicalPolicy::ignore_comments`. -/
def StreamCanonicalPolicy.ignoringComments : StreamCanonicalPolicy := ⟨true⟩

/-- The event is a comment. -/
def StreamEvent.isComment : StreamEvent → Bool
  | .comment _ => true
  | .data _ _ => false

@[simp] theorem StreamEvent.isComment_comment (text : String) :
    (StreamEvent.comment text).isComment = true := rfl

@[simp] theorem StreamEvent.isComment_data (raw : String) (parsedJson : Option Json) :
    (StreamEvent.data raw parsedJson).isComment = false := rfl

/-- `canonicalize_events`. -/
def canonicalizeEvents (events : List StreamEvent) (policy : StreamCanonicalPolicy) :
    List StreamEvent :=
  if policy.ignoreComments then events.filter fun event => !event.isComment else events

/-! ### Data frames -/

namespace EventSource

/-- The frames of lines: the values that stand before each blank line, after the values that are
pending. -/
def dataFrames (pending : List (List Char)) : List (List Char) → List (List (List Char))
  | [] => []
  | line :: lines =>
    if line = [] then
      if pending = [] then dataFrames [] lines else pending :: dataFrames [] lines
    else if fieldName line = "data".toList then
      dataFrames (pending ++ [withoutSpace (fieldText line)]) lines
    else dataFrames pending lines

/-- The event of a frame. -/
def frameEvent (fromStr : String → Option Json) (frame : List (List Char)) : StreamEvent :=
  let raw := String.ofList (['\n'].intercalate frame)
  .data raw (fromStr raw)

/-- The lines of an event's payload. -/
def payloadLines : StreamEvent → List (List Char)
  | .comment _ => []
  | .data raw _ => raw.toList.splitOn '\n'

variable {fromStr : String → Option Json}

/-- A line that begins with a colon is no field. -/
theorem fieldName_of_comment {line : List Char} (h : line.head? = some ':') :
    fieldName line ≠ "data".toList := by
  cases line with
  | nil => cases h
  | cons c line =>
    obtain rfl := Option.some.inj h
    simp [fieldName]

/-- Without its comments a text has the events of its frames. -/
theorem filter_read (pending lines : List (List Char)) :
    (read fromStr pending lines).filter (fun event => !event.isComment) =
      (dataFrames pending lines).map (frameEvent fromStr) := by
  induction lines generalizing pending with
  | nil => rfl
  | cons line lines ih =>
    simp only [read, dataFrames]
    split_ifs with hblank hpending hcomment hdata hdata
    · simp [dispatch, hpending, ih]
    · simp [dispatch, hpending, ih, frameEvent]
    · exact absurd hdata (fieldName_of_comment hcomment)
    · simp [ih]
    · exact ih _
    · exact ih _

/-- A value is the end of its line. -/
theorem value_suffix (line : List Char) : withoutSpace (fieldText line) <:+ line := by
  have htext : fieldText line <:+ line :=
    (List.drop_suffix 1 _).trans (List.dropWhile_suffix _)
  refine List.IsSuffix.trans ?_ htext
  cases fieldText line with
  | nil => exact List.suffix_rfl
  | cons c cs =>
    unfold withoutSpace
    split
    · rename_i heq
      obtain ⟨-, rfl⟩ := List.cons.inj heq
      exact List.suffix_cons _ _
    · exact List.suffix_rfl

/-- Values in frames are parts of lines. -/
theorem not_mem_dataFrames {c : Char} {pending lines : List (List Char)}
    (hpending : ∀ value ∈ pending, c ∉ value) (hlines : ∀ line ∈ lines, c ∉ line) :
    ∀ frame ∈ dataFrames pending lines, frame ≠ [] ∧ ∀ value ∈ frame, c ∉ value := by
  induction lines generalizing pending with
  | nil => simp [dataFrames]
  | cons line lines ih =>
    rw [List.forall_mem_cons] at hlines
    simp only [dataFrames]
    split_ifs with hblank hnone hdata
    · exact ih (by simp) hlines.2
    · rw [List.forall_mem_cons]
      exact ⟨⟨hnone, hpending⟩, ih (by simp) hlines.2⟩
    · refine ih ?_ hlines.2
      rw [List.forall_mem_append, List.forall_mem_singleton]
      exact ⟨hpending, fun hc => hlines.1 ((value_suffix line).subset hc)⟩
    · exact ih hpending hlines.2

/-- A frame can be read off its event. -/
theorem payloadLines_frameEvent {frame : List (List Char)} (hne : frame ≠ [])
    (hfree : ∀ value ∈ frame, '\n' ∉ value) : payloadLines (frameEvent fromStr frame) = frame := by
  simp only [frameEvent, payloadLines, String.toList_ofList]
  exact List.splitOn_intercalate '\n' hfree hne

end EventSource

/-! ### Canonical transcripts -/

/-- The data frames of a text. -/
def dataFrames (text : String) : List (List (List Char)) :=
  EventSource.dataFrames [] (EventSource.lines text)

/-- A transcript that parses is a text that has been read. -/
theorem SseParser.read_of_parse {fromStr : String → Option Json} {transcript : Bytes}
    {events : List StreamEvent} (h : parse fromStr transcript = .ok events) :
    ∃ text, Str.fromUtf8 transcript = some text ∧
      EventSource.read fromStr [] (EventSource.lines text) = events := by
  obtain ⟨texts, ended, left, hcuts, hended, hconsumed⟩ := cuts_of_parse h
  obtain ⟨rest, hrest, hleft⟩ : ∃ rest, Str.asBytes rest = left ∧
      Lines.pieces cr lf left = (ended ++ [""]).map Str.asBytes := by
    rcases hended with ⟨rfl, rfl⟩ | ⟨rfl, rfl⟩
    · exact ⟨"", rfl, rfl⟩
    · exact ⟨"\r", rfl, rfl⟩
  obtain ⟨text, rfl⟩ := decodes_of_cuts hcuts ⟨rest, hrest⟩
  refine ⟨text, Str.fromUtf8_eq_some_iff.2 rfl, ?_⟩
  -- nothing is pending at the piece behind the last line end
  rw [lines_of_cuts hcuts hleft, ← List.append_assoc, ← List.map_nil, read_eq_consumeLines,
    consumeLines_append, hconsumed]
  simp [consumeLines, consumeLine_blank, dispatchEvent]

/-- The canonical events of a transcript are the events of its frames. -/
theorem canonicalizeEvents_parse {fromStr : String → Option Json} {transcript : Bytes}
    {events : List StreamEvent} (h : SseParser.parse fromStr transcript = .ok events) :
    ∃ text, Str.fromUtf8 transcript = some text ∧
      canonicalizeEvents events .ignoringComments =
        (dataFrames text).map (EventSource.frameEvent fromStr) := by
  obtain ⟨text, htext, rfl⟩ := SseParser.read_of_parse h
  exact ⟨text, htext, EventSource.filter_read [] _⟩

/-- The frames of a text can be read off their events. -/
theorem payloadLines_dataFrames (fromStr : String → Option Json) (text : String) :
    ((dataFrames text).map (EventSource.frameEvent fromStr)).map EventSource.payloadLines =
      dataFrames text := by
  have hlines : ∀ line ∈ EventSource.lines text, '\n' ∉ line := fun line hline =>
    (Lines.not_mem_pieces (by decide) text.toList line hline).2
  have hframes := @EventSource.not_mem_dataFrames '\n' [] _ (by simp) hlines
  rw [List.map_map]
  refine (List.map_congr_left fun frame hframe => ?_).trans (List.map_id _)
  exact EventSource.payloadLines_frameEvent (hframes frame hframe).1 (hframes frame hframe).2

/-- **Canonical streams are data frames.**  Two transcripts that were parsed, in whatever chunks
they came, have the same canonical events exactly if they have the same data frames: comments,
other fields, the kind of line ends and empty frames make no difference, and everything else does.
And canonical events can be sent: they are read back as they are. -/
theorem canonicalizeEvents_eq_iff {fromStr : String → Option Json} {chunks chunks' : List Bytes}
    {events events' : List StreamEvent} (h : SseParser.parseChunks fromStr chunks = .ok events)
    (h' : SseParser.parseChunks fromStr chunks' = .ok events') :
    ∃ text text', Str.fromUtf8 chunks.flatten = some text ∧
      Str.fromUtf8 chunks'.flatten = some text' ∧
      (canonicalizeEvents events .ignoringComments =
          canonicalizeEvents events' .ignoringComments ↔ dataFrames text = dataFrames text') ∧
      SseParser.parse fromStr (serializeEvents (canonicalizeEvents events .ignoringComments)) =
        .ok (canonicalizeEvents events .ignoringComments) := by
  rw [SseParser.parseChunks_eq_parse] at h h'
  obtain ⟨text, htext, hcanonical⟩ := canonicalizeEvents_parse h
  obtain ⟨text', htext', hcanonical'⟩ := canonicalizeEvents_parse h'
  refine ⟨text, text', htext, htext', ?_, ?_⟩
  · rw [hcanonical, hcanonical']
    constructor
    · intro heq
      rw [← payloadLines_dataFrames fromStr text, heq, payloadLines_dataFrames]
    · exact fun heq => by rw [heq]
  · exact SseParser.parse_serializeEvents fun e he =>
      SseParser.emitted_of_parse h e (List.mem_filter.1 he).1

/-- Two transcripts that differ in a comment, another field and their line ends. -/
theorem canonicalizeEvents_eq_iff_drifted :
    let events := [.comment "processing", .data "a" none]
    ∃ text text',
      Str.fromUtf8 [Str.asBytes ": processing\nevent: x\nda", Str.asBytes "ta: a\n\n"].flatten =
        some text ∧
      Str.fromUtf8 [Str.asBytes "data:a\r\n\r\n"].flatten = some text' ∧
      (canonicalizeEvents events .ignoringComments =
          canonicalizeEvents [.data "a" none] .ignoringComments ↔
        dataFrames text = dataFrames text') ∧
      SseParser.parse (fun _ => none)
          (serializeEvents (canonicalizeEvents events .ignoringComments)) =
        .ok (canonicalizeEvents events .ignoringComments) :=
  canonicalizeEvents_eq_iff (by decide +kernel) (by decide +kernel)

end SpycatcherHarness
