import SpycatcherHarness.Cassette.Types
import SpycatcherHarness.Text.Lines
import SpycatcherHarness.Text.Strings

/-!
# The incremental event-stream parser

`SseParser` as the recorder runs it: a buffer of bytes that do not make a complete line yet, and
the `data` values that wait for a blank line.  `feed` appends a chunk and consumes every complete
line; `finish` is called at the end of the stream.

The parser is over a parameter `fromStr`, which stands for `serde_json::from_str`.  A failed call
keeps the state it has reached, as the source does: the pair of a result and the state after it.

* `lineBounds_eq_cut` : the index arithmetic of the source is the cut of `Lines.cut`.
* `popLine_cut` : what popping a line does, once and for all.
* `drain_stop`, `drain_invalid`, `drain_line` : draining a buffer line by line, and
  `drain_induct`, the induction that goes with it.
-/

namespace SpycatcherHarness

/-- The line symbols. -/
def cr : UInt8 := 13
def lf : UInt8 := 10

/-- Parser failures for malformed byte streams. -/
inductive SseParseError where
  /-- A line in the stream was not valid UTF-8. -/
  | invalidUtf8
  /-- The stream ended while a line or event was still incomplete. -/
  | incompleteEvent
  deriving DecidableEq

/-- Incremental parser for UTF-8 event streams. -/
structure SseParser where
  /-- Incomplete bytes retained across upstream chunks. -/
  buffer : Bytes
  /-- Data fields awaiting a blank line. -/
  dataLines : List String
  deriving DecidableEq

namespace SseParser

/-- `SseParser::default`. -/
def empty : SseParser := ⟨[], []⟩

/-! ### Lines -/

/-- The loop of `line_bounds`: `rest` is the buffer from `index` on. -/
def lineBoundsFrom (index : ℕ) : Bytes → Option (ℕ × ℕ)
  | [] => none
  | b :: rest =>
    if b = lf then some (index, index + 1)
    else if b = cr then
      match rest with
      | [] => none
      | n :: _ => if n = lf then some (index, index + 2) else some (index, index + 1)
    else lineBoundsFrom (index + 1) rest

/-- `line_bounds`: the offset of the first line end and the offset after it. -/
def lineBounds (buffer : Bytes) : Option (ℕ × ℕ) := lineBoundsFrom 0 buffer

/-- `SseParser::pop_line`. -/
def popLine (p : SseParser) : Except SseParseError (Option String × SseParser) :=
  match lineBounds p.buffer with
  | none => .ok (none, p)
  | some (lineEnd, drainTo) =>
    match Str.fromUtf8 (p.buffer.take lineEnd) with
    | none => .error .invalidUtf8
    | some line => .ok (some line, { p with buffer := p.buffer.drop drainTo })

/-! ### Fields and events -/

/-- `strip_optional_space`. -/
def stripOptionalSpace (value : String) : String := (Str.stripPrefix ' ' value).getD value

/-- `field_value`. -/
def fieldValue (line expectedField : String) : Option String :=
  let (field, value) := match Str.splitOnce ':' line with
    | none => (line, "")
    | some (field, value) => (field, stripOptionalSpace value)
  if field = expectedField then some value else none

section
variable (fromStr : String → Option Json)

/-- The event that pending data lines become. -/
def dataEvent (dataLines : List String) : StreamEvent :=
  .data (Str.join '\n' dataLines) (fromStr (Str.join '\n' dataLines))

/-- `SseParser::dispatch_event`: the new events, and the parser without pending data. -/
def dispatchEvent (p : SseParser) : List StreamEvent × SseParser :=
  if p.dataLines = [] then ([], p)
  else ([dataEvent fromStr p.dataLines], { p with dataLines := [] })

/-- `SseParser::consume_line`. -/
def consumeLine (p : SseParser) (line : String) : List StreamEvent × SseParser :=
  if line = "" then dispatchEvent fromStr p
  else match Str.stripPrefix ':' line with
    | some comment => ([.comment (stripOptionalSpace comment)], p)
    | none =>
      match fieldValue line "data" with
      | some value => ([], { p with dataLines := p.dataLines ++ [value] })
      | none => ([], p)

/-- The loop of `SseParser::feed`, with the events found so far.  Popping a line shortens the
buffer, so the length of the buffer is enough fuel. -/
def drainLines : ℕ → List StreamEvent → SseParser →
    Except SseParseError (List StreamEvent) × SseParser
  | 0, events, p => (.ok events, p)
  | n + 1, events, p =>
    match popLine p with
    | .error e => (.error e, p)
    | .ok (none, p') => (.ok events, p')
    | .ok (some line, p') =>
      let (new, p'') := consumeLine fromStr p' line
      drainLines n (events ++ new) p''

/-- `SseParser::feed`. -/
def feed (p : SseParser) (bytes : Bytes) : Except SseParseError (List StreamEvent) × SseParser :=
  let p' : SseParser := { p with buffer := p.buffer ++ bytes }
  drainLines fromStr p'.buffer.length [] p'

/-- `SseParser::finish`. -/
def finish (p : SseParser) : Except SseParseError (List StreamEvent) × SseParser :=
  let (events, p') :=
    -- a CR that was held back is a line end after all, and its line is blank
    if p.buffer = [cr] then dispatchEvent fromStr { p with buffer := [] } else ([], p)
  if p'.buffer = [] ∧ p'.dataLines = [] then (.ok events, p') else (.error .incompleteEvent, p')

end

/-! ### What popping a line does -/

theorem lineBoundsFrom_eq_cut (bs : Bytes) (k : ℕ) : lineBoundsFrom k bs =
    (Lines.cut cr lf bs).map fun r => (k + r.1.length, k + r.1.length + r.2.1.length) := by
  induction bs generalizing k with
  | nil => rfl
  | cons b bs ih =>
    by_cases hlf : b = lf
    · simp [lineBoundsFrom, Lines.cut, hlf]
    by_cases hcr : b = cr
    · subst hcr
      cases bs with
      | nil => simp [lineBoundsFrom, Lines.cut, hlf]
      | cons n bs =>
        by_cases hn : n = lf <;> simp [lineBoundsFrom, Lines.cut, hlf, hn]
    · rw [Lines.cut_cons_of_ne hlf hcr]
      simp only [lineBoundsFrom, hlf, hcr, ↓reduceIte, ih]
      cases Lines.cut cr lf bs with
      | none => rfl
      | some r =>
        simp only [Option.map_some, List.length_cons, Option.some.injEq, Prod.mk.injEq]
        omega

/-- The offsets of the source are those of the first cut. -/
theorem lineBounds_eq_cut (bs : Bytes) : lineBounds bs =
    (Lines.cut cr lf bs).map fun r => (r.1.length, r.1.length + r.2.1.length) := by
  unfold lineBounds
  simpa only [Nat.zero_add] using lineBoundsFrom_eq_cut bs 0

theorem popLine_none {p : SseParser} (h : Lines.cut cr lf p.buffer = none) :
    popLine p = .ok (none, p) := by
  simp [popLine, lineBounds_eq_cut, h]

/-- Popping takes the first cut off the buffer, if its line decodes. -/
theorem popLine_cut {p : SseParser} {line term rest : Bytes}
    (h : Lines.cut cr lf p.buffer = some (line, term, rest)) :
    popLine p = match Str.fromUtf8 line with
      | none => .error .invalidUtf8
      | some s => .ok (some s, { p with buffer := rest }) := by
  obtain ⟨hb, -, -⟩ := Lines.cut_eq_some h
  have htake : p.buffer.take line.length = line := by rw [hb]; exact List.take_left
  have hdrop : p.buffer.drop (line.length + term.length) = rest := by
    rw [hb, ← List.append_assoc, ← List.length_append]; exact List.drop_left
  simp only [popLine, lineBounds_eq_cut, h, Option.map_some, htake, hdrop]

/-! ### Consuming a line leaves the buffer alone -/

section
variable (fromStr : String → Option Json)

@[simp] theorem dispatchEvent_buffer (p : SseParser) :
    (dispatchEvent fromStr p).2.buffer = p.buffer := by
  unfold dispatchEvent; split_ifs <;> rfl

@[simp] theorem consumeLine_buffer (p : SseParser) (line : String) :
    (consumeLine fromStr p line).2.buffer = p.buffer := by
  unfold consumeLine
  split_ifs with h
  · exact dispatchEvent_buffer fromStr p
  · split
    · rfl
    · split <;> rfl

/-- Bytes behind the buffer. -/
def push (p : SseParser) (bytes : Bytes) : SseParser := { p with buffer := p.buffer ++ bytes }

@[simp] theorem push_buffer (p : SseParser) (bytes : Bytes) :
    (p.push bytes).buffer = p.buffer ++ bytes := rfl

@[simp] theorem push_nil (p : SseParser) : p.push [] = p := by simp [push]

@[simp] theorem push_push (p : SseParser) (xs ys : Bytes) :
    (p.push xs).push ys = p.push (xs ++ ys) := by simp [push]

theorem dispatchEvent_push (p : SseParser) (bytes : Bytes) :
    dispatchEvent fromStr (p.push bytes) =
      ((dispatchEvent fromStr p).1, (dispatchEvent fromStr p).2.push bytes) := by
  by_cases h : p.dataLines = [] <;> simp [dispatchEvent, push, h]

/-- What a line does to the pending data does not depend on the buffer. -/
theorem consumeLine_push (p : SseParser) (line : String) (bytes : Bytes) :
    consumeLine fromStr (p.push bytes) line =
      ((consumeLine fromStr p line).1, (consumeLine fromStr p line).2.push bytes) := by
  unfold consumeLine
  split_ifs with h
  · exact dispatchEvent_push fromStr p bytes
  · split
    · rfl
    · split <;> rfl

/-! ### Draining a buffer -/

theorem drainLines_none {n : ℕ} {events : List StreamEvent} {p : SseParser}
    (h : Lines.cut cr lf p.buffer = none) : drainLines fromStr n events p = (.ok events, p) := by
  cases n with
  | zero => rfl
  | succ n => simp [drainLines, popLine_none h]

/-- Any fuel from the length of the buffer on gives the same result. -/
theorem drainLines_fuel (n m : ℕ) : ∀ (events : List StreamEvent) (p : SseParser),
    p.buffer.length ≤ n → p.buffer.length ≤ m →
      drainLines fromStr n events p = drainLines fromStr m events p := by
  induction n generalizing m with
  | zero =>
    intro events p hn _
    have hp : Lines.cut cr lf p.buffer = none := by
      have hb : p.buffer = [] := List.length_eq_zero_iff.1 (by omega)
      rw [hb]; rfl
    rw [drainLines_none fromStr hp, drainLines_none fromStr hp]
  | succ n ih =>
    intro events p hn hm
    cases hcut : Lines.cut cr lf p.buffer with
    | none => rw [drainLines_none fromStr hcut, drainLines_none fromStr hcut]
    | some r =>
      obtain ⟨line, term, rest⟩ := r
      -- each line shortens the buffer, so both amounts outlast it
      have hlt := Lines.length_lt_of_cut hcut
      obtain ⟨m, rfl⟩ : ∃ k, m = k + 1 := ⟨m - 1, by omega⟩
      simp only [drainLines, popLine_cut hcut]
      cases Str.fromUtf8 line with
      | none => rfl
      | some s => exact ih m _ _ (by simp; omega) (by simp; omega)

/-- Consume every complete line of the buffer, after the events found so far. -/
def drain (events : List StreamEvent) (p : SseParser) :
    Except SseParseError (List StreamEvent) × SseParser :=
  drainLines fromStr p.buffer.length events p

theorem feed_eq_drain (p : SseParser) (bytes : Bytes) :
    feed fromStr p bytes = drain fromStr [] (p.push bytes) := rfl

/-- A buffer without a complete line is left as it is. -/
theorem drain_stop {events : List StreamEvent} {p : SseParser}
    (h : Lines.cut cr lf p.buffer = none) : drain fromStr events p = (.ok events, p) :=
  drainLines_none fromStr h

/-- A line that does not decode stays in the buffer. -/
theorem drain_invalid {events : List StreamEvent} {p : SseParser} {line term rest : Bytes}
    (h : Lines.cut cr lf p.buffer = some (line, term, rest)) (hs : Str.fromUtf8 line = none) :
    drain fromStr events p = (.error .invalidUtf8, p) := by
  have hlt := Lines.length_lt_of_cut h
  obtain ⟨n, hn⟩ : ∃ n, p.buffer.length = n + 1 := ⟨p.buffer.length - 1, by omega⟩
  simp only [drain, hn, drainLines, popLine_cut h, hs]

/-- A line that decodes is consumed, and draining goes on behind it. -/
theorem drain_line {events : List StreamEvent} {p : SseParser} {line term rest : Bytes}
    {s : String} (h : Lines.cut cr lf p.buffer = some (line, term, rest))
    (hs : Str.fromUtf8 line = some s) :
    drain fromStr events p =
      drain fromStr (events ++ (consumeLine fromStr { p with buffer := rest } s).1)
        (consumeLine fromStr { p with buffer := rest } s).2 := by
  have hlt := Lines.length_lt_of_cut h
  obtain ⟨n, hn⟩ : ∃ n, p.buffer.length = n + 1 := ⟨p.buffer.length - 1, by omega⟩
  simp only [drain, hn, drainLines, popLine_cut h, hs]
  exact drainLines_fuel fromStr _ _ _ _ (by simp; omega) (by simp)

/-- Induction on the lines that a buffer still holds. -/
theorem drain_induct {P : List StreamEvent → SseParser → Prop}
    (stop : ∀ events p, Lines.cut cr lf p.buffer = none → P events p)
    (invalid : ∀ events p line term rest, Lines.cut cr lf p.buffer = some (line, term, rest) →
      Str.fromUtf8 line = none → P events p)
    (next : ∀ events p line term rest s, Lines.cut cr lf p.buffer = some (line, term, rest) →
      Str.fromUtf8 line = some s →
      P (events ++ (consumeLine fromStr { p with buffer := rest } s).1)
        (consumeLine fromStr { p with buffer := rest } s).2 → P events p)
    (events : List StreamEvent) (p : SseParser) : P events p := by
  induction hn : p.buffer.length using Nat.strongRecOn generalizing events p with
  | _ n ih =>
    cases hcut : Lines.cut cr lf p.buffer with
    | none => exact stop events p hcut
    | some r =>
      obtain ⟨line, term, rest⟩ := r
      have hlt := Lines.length_lt_of_cut hcut
      cases hs : Str.fromUtf8 line with
      | none => exact invalid events p line term rest hcut hs
      | some s => exact next events p line term rest s hcut hs (ih _ (by simp; omega) _ _ rfl)

end

end SseParser

end SpycatcherHarness
