import SpycatcherHarness.Cassette.Types
import SpycatcherHarness.Machine.Runs
import SpycatcherHarness.Text.Strings

/-!
# Rendering recorded events as a response body

The replay server turns recorded events into event-stream bytes.  A body of at most
`eagerStreamLimitBytes` bytes is built in one buffer; a longer one is streamed, event by event,
from the event on that crosses the limit.

* `buildStreamBody_bytes` : both carry the same bytes.
* `buildStreamBody_exact` : which of the two is built, and every chunk of it.
-/

namespace SpycatcherHarness

/-- `EAGER_STREAM_LIMIT_BYTES`. -/
def eagerStreamLimitBytes : ℕ := 64 * 1024

/-- `serialize_lines`: every line behind the prefix, and a blank line at the end. -/
def serializeLines (pre : Bytes) (text : String) : Bytes :=
  ((Str.split '\n' text).flatMap fun line => pre ++ Str.asBytes line ++ [10]) ++ [10]

/-- `serialize_event`. -/
def serializeEvent : StreamEvent → Bytes
  | .comment text => serializeLines (Str.asBytes ": ") text
  | .data raw _ => serializeLines (Str.asBytes "data: ") raw

/-- The bytes of a list of events. -/
def serializeEvents (events : List StreamEvent) : Bytes := events.flatMap serializeEvent

@[simp] theorem serializeEvents_nil : serializeEvents [] = [] := rfl

@[simp] theorem serializeEvents_cons (e : StreamEvent) (events : List StreamEvent) :
    serializeEvents (e :: events) = serializeEvent e ++ serializeEvents events := rfl

/-- A response body: one buffer, or chunks sent one after another. -/
inductive Body where
  | buffered (bytes : Bytes)
  | stream (chunks : List Bytes)

/-- All the bytes of a body. -/
def Body.bytes : Body → Bytes
  | .buffered bytes => bytes
  | .stream chunks => chunks.flatten

/-- Chunks serialized while the response remains within the eager limit. -/
structure BufferedStream where
  chunks : List Bytes
  /-- Combined length of `chunks`. -/
  totalLen : ℕ

namespace BufferedStream

/-- `BufferedStream::default`. -/
def empty : BufferedStream := ⟨[], 0⟩

/-- `BufferedStream::try_buffer`: the chunk that crosses the limit, or the buffer with it. -/
def tryBuffer (b : BufferedStream) (event : StreamEvent) : Option Bytes × BufferedStream :=
  let chunk := serializeEvent event
  let nextLen := b.totalLen + chunk.length
  if nextLen > eagerStreamLimitBytes then (some chunk, b)
  else (none, ⟨b.chunks ++ [chunk], nextLen⟩)

end BufferedStream

/-- The loop of `build_stream_body`. -/
def buildStreamBodyFrom (b : BufferedStream) : List StreamEvent → Body
  | [] => .buffered b.chunks.flatten
  | event :: remaining =>
    match b.tryBuffer event with
    | (none, b') => buildStreamBodyFrom b' remaining
    | (some overflow, b') => .stream (b'.chunks ++ overflow :: remaining.map serializeEvent)

/-- `build_stream_body`. -/
def buildStreamBody (events : List StreamEvent) : Body := buildStreamBodyFrom .empty events

theorem buildStreamBodyFrom_bytes (b : BufferedStream) (events : List StreamEvent) :
    (buildStreamBodyFrom b events).bytes = b.chunks.flatten ++ serializeEvents events := by
  induction events generalizing b with
  | nil => simp [buildStreamBodyFrom, Body.bytes]
  | cons event events ih =>
    simp only [buildStreamBodyFrom, BufferedStream.tryBuffer]
    split_ifs with h
    · simp [Body.bytes, serializeEvents, List.flatMap_def]
    · simp [ih]

/-- The eager and the streamed body carry the same bytes. -/
theorem buildStreamBody_bytes (events : List StreamEvent) :
    (buildStreamBody events).bytes = serializeEvents events := by
  rw [buildStreamBody, buildStreamBodyFrom_bytes]
  rfl

/-! ### The limit -/

namespace BufferedStream

/-- The length of a buffer is that of its chunks, and within the limit. -/
structure Within (b : BufferedStream) : Prop where
  totalLen_eq : b.totalLen = b.chunks.flatten.length
  le_limit : b.totalLen ≤ eagerStreamLimitBytes

theorem within_empty : empty.Within := ⟨rfl, Nat.zero_le _⟩

/-- An event that fits is buffered. -/
theorem tryBuffer_of_le {b : BufferedStream} {event : StreamEvent}
    (h : b.totalLen + (serializeEvent event).length ≤ eagerStreamLimitBytes) :
    b.tryBuffer event = (none, ⟨b.chunks ++ [serializeEvent event],
      b.totalLen + (serializeEvent event).length⟩) :=
  if_neg (Nat.not_lt.2 h)

/-- An event that crosses the limit is handed back, and the buffer is left as it is. -/
theorem tryBuffer_of_gt {b : BufferedStream} {event : StreamEvent}
    (h : eagerStreamLimitBytes < b.totalLen + (serializeEvent event).length) :
    b.tryBuffer event = (some (serializeEvent event), b) :=
  if_pos h

/-- Handing an event to the buffer keeps it within the limit. -/
theorem Within.tryBuffer {b : BufferedStream} (h : b.Within) (event : StreamEvent) :
    (b.tryBuffer event).2.Within := by
  rcases Nat.lt_or_ge eagerStreamLimitBytes (b.totalLen + (serializeEvent event).length) with
    hgt | hle
  · rw [tryBuffer_of_gt hgt]
    exact h
  · rw [tryBuffer_of_le hle]
    refine ⟨?_, hle⟩
    rw [List.flatten_concat, List.length_append, ← h.totalLen_eq]

end BufferedStream

/-- What the loop makes of a buffer and the events that are left. -/
theorem buildStreamBodyFrom_eq {b : BufferedStream} (h : b.Within) (events : List StreamEvent) :
    buildStreamBodyFrom b events =
      if b.totalLen + (serializeEvents events).length ≤ eagerStreamLimitBytes then
        .buffered (b.chunks.flatten ++ serializeEvents events)
      else .stream (b.chunks ++ events.map serializeEvent) := by
  induction events generalizing b with
  | nil => simp [buildStreamBodyFrom, h.le_limit]
  | cons event events ih =>
    rw [buildStreamBodyFrom, serializeEvents_cons, List.length_append, ← Nat.add_assoc]
    rcases Nat.lt_or_ge eagerStreamLimitBytes (b.totalLen + (serializeEvent event).length) with
      hgt | hle
    -- this event crosses the limit, and the others follow it unbuffered
    · rw [BufferedStream.tryBuffer_of_gt hgt, if_neg (by omega)]
      rfl
    · have hnext := ih (h.tryBuffer event)
      rw [BufferedStream.tryBuffer_of_le hle] at hnext ⊢
      simp only at hnext ⊢
      rw [hnext, List.flatten_append, List.append_assoc, List.append_assoc]
      simp

/-- **Eager and streamed bodies carry the same bytes.**  A body is built in one buffer exactly if
its bytes fit the limit, and is streamed as one chunk for each event otherwise.  Either way its
bytes are those of the events in order; and whatever was handed to `try_buffer`, the length of the
buffer is that of its chunks and within the limit. -/
theorem buildStreamBody_exact (events : List StreamEvent) :
    buildStreamBody events =
        (if (events.flatMap serializeEvent).length ≤ eagerStreamLimitBytes then
          .buffered (events.flatMap serializeEvent)
        else .stream (events.map serializeEvent)) ∧
      (buildStreamBody events).bytes = events.flatMap serializeEvent ∧
      (Runs.run (fun b event => (BufferedStream.tryBuffer b event).2) .empty events).Within := by
  refine ⟨?_, buildStreamBody_bytes events, ?_⟩
  · have h := buildStreamBodyFrom_eq BufferedStream.within_empty events
    rwa [show BufferedStream.empty.totalLen = 0 from rfl, Nat.zero_add] at h
  · exact Runs.run_invariant (P := fun _ _ => True) (fun _ event h _ => h.tryBuffer event)
      BufferedStream.within_empty (Runs.along_of_forall (fun _ _ => trivial) _)

end SpycatcherHarness
