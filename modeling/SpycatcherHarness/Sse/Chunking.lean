import SpycatcherHarness.Sse.Parser

/-!
# A stream may be cut anywhere

The bytes of a stream arrive in chunks that the network chooses.  The parser's answer does not
depend on them (`SseParser.parseChunks_eq_parse`): a line is only consumed once its end can be told
for sure, so bytes that arrive later never change how earlier ones were read.  The one step behind
it is `SseParser.drain_push`: draining a longer buffer is draining the shorter one first and going
on from there, also when a line that is not UTF-8 stops it half way.

After `InvalidUtf8` the offending line stays at the front of the buffer and every later call meets
it again (`SseParser.Stuck`), so the parser never comes back to success
(`SseParser.Stuck.answers`).
-/

namespace SpycatcherHarness

namespace SseParser

variable (fromStr : String → Option Json)

/-! ### Whole streams -/

/-- Feed the chunks one after another, up to the first error, and collect the events. -/
def feedAll (p : SseParser) : List Bytes → Except SseParseError (List StreamEvent) × SseParser
  | [] => (.ok [], p)
  | chunk :: chunks =>
    match feed fromStr p chunk with
    | (.error e, p') => (.error e, p')
    | (.ok events, p') =>
      match feedAll p' chunks with
      | (.error e, p'') => (.error e, p'')
      | (.ok later, p'') => (.ok (events ++ later), p'')

/-- Feed every chunk to a fresh parser and, if none failed, finish. -/
def parseChunks (chunks : List Bytes) : Except SseParseError (List StreamEvent) :=
  match feedAll fromStr empty chunks with
  | (.error e, _) => .error e
  | (.ok events, p) => (finish fromStr p).1.map fun held => events ++ held

/-- The one-shot parse of a transcript. -/
def parse (transcript : Bytes) : Except SseParseError (List StreamEvent) :=
  parseChunks fromStr [transcript]

/-- Feeding more chunks goes on from where the first ones led. -/
theorem feedAll_append (chunks chunks' : List Bytes) : ∀ p, feedAll fromStr p (chunks ++ chunks') =
    match feedAll fromStr p chunks with
    | (.error e, p') => (.error e, p')
    | (.ok events, p') =>
      ((feedAll fromStr p' chunks').1.map fun later => events ++ later,
        (feedAll fromStr p' chunks').2) := by
  induction chunks with
  | nil =>
    intro p
    simp only [List.nil_append, feedAll]
    cases h : feedAll fromStr p chunks' with
    | mk result q => cases result <;> rfl
  | cons chunk chunks ih =>
    intro p
    simp only [List.cons_append, feedAll]
    cases hfeed : feed fromStr p chunk with
    | mk result p' =>
      cases result with
      | error e => rfl
      | ok events =>
        simp only [ih p']
        cases hall : feedAll fromStr p' chunks with
        | mk result p'' =>
          cases result with
          | error e => rfl
          | ok later =>
            cases hall' : feedAll fromStr p'' chunks' with
            | mk result q => cases result <;> simp [hall', Except.map]

/-! ### Draining a longer buffer -/

/-- What draining finds does not depend on the events before it. -/
theorem drain_append_events (before events : List StreamEvent) (p : SseParser) :
    drain fromStr (before ++ events) p =
      ((drain fromStr events p).1.map fun found => before ++ found,
        (drain fromStr events p).2) := by
  induction events, p using drain_induct fromStr with
  | stop events p h => simp [drain_stop fromStr h, Except.map]
  | invalid events p line term rest h hs => simp [drain_invalid fromStr h hs, Except.map]
  | next events p line term rest s h hs ih =>
    rw [drain_line fromStr h hs, drain_line fromStr h hs, List.append_assoc, ih]

/-- A successful drain leaves no complete line behind. -/
theorem cut_of_drain {events found : List StreamEvent} {p p' : SseParser}
    (h : drain fromStr events p = (.ok found, p')) : Lines.cut cr lf p'.buffer = none := by
  induction events, p using drain_induct fromStr with
  | stop events p hcut =>
    rw [drain_stop fromStr hcut] at h
    cases h
    exact hcut
  | invalid events p line term rest hcut hs =>
    rw [drain_invalid fromStr hcut hs] at h
    cases h
  | next events p line term rest s hcut hs ih =>
    rw [drain_line fromStr hcut hs] at h
    exact ih h

/-- **Bytes that arrive later do not change how earlier ones are read.**  Draining a longer buffer
is draining the shorter one and, if that succeeded, going on with the rest. -/
theorem drain_push (events : List StreamEvent) (p : SseParser) (bytes : Bytes) :
    drain fromStr events (p.push bytes) =
      match drain fromStr events p with
      | (.error e, p') => (.error e, p'.push bytes)
      | (.ok found, p') => drain fromStr found (p'.push bytes) := by
  induction events, p using drain_induct fromStr with
  | stop events p h => rw [drain_stop fromStr h]
  | invalid events p line term rest h hs =>
    rw [drain_invalid fromStr h hs, drain_invalid fromStr (Lines.cut_append bytes h) hs]
  | next events p line term rest s h hs ih =>
    rw [drain_line fromStr h hs, ← ih, drain_line fromStr (Lines.cut_append bytes h) hs]
    -- the longer buffer loses the same line, and what is left is the shorter rest, pushed
    have hpush : ({ p.push bytes with buffer := rest ++ bytes } : SseParser) =
        ({ p with buffer := rest } : SseParser).push bytes := rfl
    rw [hpush, consumeLine_push]

/-! ### Chunks -/

/-- A chunk may be cut in two. -/
theorem feed_append (p : SseParser) (xs ys : Bytes) :
    feed fromStr p (xs ++ ys) =
      match feed fromStr p xs with
      | (.error e, p') => (.error e, p'.push ys)
      | (.ok found, p') =>
        ((feed fromStr p' ys).1.map fun later => found ++ later, (feed fromStr p' ys).2) := by
  rw [feed_eq_drain, ← push_push, drain_push, ← feed_eq_drain]
  cases feed fromStr p xs with
  | mk result p' =>
    cases result with
    | error e => rfl
    | ok found => simpa [feed_eq_drain] using drain_append_events fromStr found [] (p'.push ys)

/-- A parser that waits for input: no complete line is buffered. -/
def Waiting (p : SseParser) : Prop := Lines.cut cr lf p.buffer = none

theorem waiting_empty : Waiting empty := rfl

theorem Waiting.feed {p p' : SseParser} {bytes : Bytes} {events : List StreamEvent}
    (h : feed fromStr p bytes = (.ok events, p')) : Waiting p' := cut_of_drain fromStr h

/-- Feeding chunk by chunk finds what feeding the whole finds, and where nothing fails it also
ends in the same state. -/
theorem feedAll_eq (chunks : List Bytes) : ∀ p, Waiting p →
    (feedAll fromStr p chunks).1 = (feed fromStr p chunks.flatten).1 ∧
      ∀ events p', feedAll fromStr p chunks = (.ok events, p') →
        feed fromStr p chunks.flatten = (.ok events, p') := by
  induction chunks with
  | nil =>
    intro p hp
    -- a waiting parser has nothing to cut
    have hfeed : feed fromStr p [] = (.ok [], p) := by
      rw [feed_eq_drain, push_nil]; exact drain_stop fromStr hp
    simp [feedAll, hfeed]
  | cons chunk chunks ih =>
    intro p _
    rw [List.flatten_cons, feed_append]
    cases hfeed : feed fromStr p chunk with
    | mk result p' =>
      cases result with
      -- the first error ends both, but the buffers differ in what came later
      | error e => simp [feedAll, hfeed]
      | ok events =>
        obtain ⟨h1, h2⟩ := ih p' (Waiting.feed fromStr hfeed)
        simp only [feedAll, hfeed]
        cases hall : feedAll fromStr p' chunks with
        | mk result p'' =>
          rw [hall] at h1
          cases result with
          | error e => simp [← h1, Except.map]
          | ok later => simp [h2 later p'' hall, Except.map]

/-- A fresh parser's answer depends on the chunks only through their concatenation. -/
theorem parseChunks_eq_parse (chunks : List Bytes) :
    parseChunks fromStr chunks = parse fromStr chunks.flatten := by
  -- both sides finish the parser that one feed of all bytes leaves
  have key : ∀ cs : List Bytes, parseChunks fromStr cs =
      match feed fromStr empty cs.flatten with
      | (.error e, _) => .error e
      | (.ok events, p) => (finish fromStr p).1.map fun held => events ++ held := by
    intro cs
    obtain ⟨h1, h2⟩ := feedAll_eq fromStr cs empty waiting_empty
    unfold parseChunks
    cases hall : feedAll fromStr empty cs with
    | mk result p =>
      cases result with
      | error e =>
        rw [hall] at h1
        cases hfeed : feed fromStr empty cs.flatten with
        | mk result' p' => rw [hfeed] at h1; cases h1; rfl
      | ok events => rw [h2 events p hall]
  rw [parse, key, key]
  simp

/-! ### After a line that is not UTF-8 -/

/-- The first buffered line is not UTF-8. -/
def Stuck (p : SseParser) : Prop :=
  ∃ line term rest, Lines.cut cr lf p.buffer = some (line, term, rest) ∧
    Str.fromUtf8 line = none

/-- Only a line that is not UTF-8 makes draining fail, and it stays at the front. -/
theorem stuck_of_drain {events : List StreamEvent} {p p' : SseParser} {e : SseParseError}
    (h : drain fromStr events p = (.error e, p')) : e = .invalidUtf8 ∧ Stuck p' := by
  induction events, p using drain_induct fromStr with
  | stop events p hcut => rw [drain_stop fromStr hcut] at h; cases h
  | invalid events p line term rest hcut hs =>
    rw [drain_invalid fromStr hcut hs] at h
    cases h
    exact ⟨rfl, line, term, rest, hcut, hs⟩
  | next events p line term rest s hcut hs ih =>
    rw [drain_line fromStr hcut hs] at h
    exact ih h

theorem Stuck.feed {p : SseParser} (h : Stuck p) (bytes : Bytes) :
    feed fromStr p bytes = (.error .invalidUtf8, p.push bytes) ∧ Stuck (p.push bytes) := by
  obtain ⟨line, term, rest, hcut, hs⟩ := h
  have hcut' := Lines.cut_append bytes hcut
  exact ⟨drain_invalid fromStr (p := p.push bytes) hcut' hs, line, term, rest ++ bytes, hcut', hs⟩

theorem Stuck.finish {p : SseParser} (h : Stuck p) :
    finish fromStr p = (.error .incompleteEvent, p) := by
  obtain ⟨line, term, rest, hcut, -⟩ := h
  have hne : p.buffer ≠ [] := by rintro hb; rw [hb] at hcut; cases hcut
  have hcr : p.buffer ≠ [cr] := by rintro hb; rw [hb] at hcut; simp [Lines.cut, cr, lf] at hcut
  simp [SseParser.finish, hne, hcr]

/-- A call of the parser. -/
inductive Call where
  | feed (bytes : Bytes)
  | finish

/-- The answers to a sequence of calls. -/
def answers (p : SseParser) : List Call → List (Call × Except SseParseError (List StreamEvent))
  | [] => []
  | .feed bytes :: calls =>
    (.feed bytes, (feed fromStr p bytes).1) :: answers (feed fromStr p bytes).2 calls
  | .finish :: calls => (.finish, (finish fromStr p).1) :: answers (finish fromStr p).2 calls

theorem Stuck.answers {p : SseParser} (h : Stuck p) (calls : List Call) :
    ∀ a ∈ answers fromStr p calls, a.2 = .error .invalidUtf8 ∨
      a.1 = .finish ∧ a.2 = .error .incompleteEvent := by
  induction calls generalizing p with
  | nil => simp [SseParser.answers]
  | cons call calls ih =>
    cases call with
    | feed bytes =>
      obtain ⟨hfeed, hstuck⟩ := h.feed fromStr bytes
      simp only [SseParser.answers, hfeed, List.mem_cons, forall_eq_or_imp]
      exact ⟨Or.inl trivial, ih hstuck⟩
    | finish =>
      simp only [SseParser.answers, h.finish fromStr, List.mem_cons, forall_eq_or_imp]
      exact ⟨Or.inr ⟨trivial, trivial⟩, ih h⟩

/-! ### Chunking independence -/

/-- **Chunking independence.**  However a byte sequence is cut into chunks, feeding them in turn
and finishing gives what feeding all at once and finishing gives; and once a feed has failed, every
later feed fails and no later finish succeeds. -/
theorem parse_independent_of_chunks :
    (∀ chunks : List Bytes, parseChunks fromStr chunks = parseChunks fromStr [chunks.flatten]) ∧
    ∀ (p p' : SseParser) (bytes : Bytes) (e : SseParseError),
      feed fromStr p bytes = (.error e, p') → e = .invalidUtf8 ∧
        ∀ calls, ∀ a ∈ answers fromStr p' calls, a.2 = .error .invalidUtf8 ∨
          a.1 = .finish ∧ a.2 = .error .incompleteEvent := by
  refine ⟨parseChunks_eq_parse fromStr, fun p p' bytes e h => ?_⟩
  obtain ⟨he, hstuck⟩ := stuck_of_drain fromStr h
  exact ⟨he, hstuck.answers fromStr⟩

/-- The continuation byte of a two-byte character does not repair the line it stands alone in. -/
theorem parse_independent_of_chunks_invalid :
    feed (fun _ => none) empty [0xA9, lf] = (.error .invalidUtf8, ⟨[0xA9, lf], []⟩) ∧
      ∀ calls, ∀ a ∈ answers (fun _ => none) ⟨[0xA9, lf], []⟩ calls,
        a.2 = .error .invalidUtf8 ∨ a.1 = .finish ∧ a.2 = .error .incompleteEvent := by
  have h : feed (fun _ => none) empty [0xA9, lf] = (.error .invalidUtf8, ⟨[0xA9, lf], []⟩) := by
    decide
  exact ⟨h, ((parse_independent_of_chunks fun _ => none).2 _ _ _ _ h).2⟩

end SseParser

end SpycatcherHarness
