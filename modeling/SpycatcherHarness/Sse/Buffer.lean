import SpycatcherHarness.Sse.Chunking

/-!
# The buffer of the parser

What `feed` takes off its buffer and what it keeps.  `FeedLoop` is the loop of the source as a
relation, without the fuel of the model, and with the bytes that each `pop_line` removes; `Fed` is a
parser after a sequence of feeds.

* `FeedLoop.spec`, `feedLoop_drain`, `FeedLoop.unique` : the loop ends on every input, with what the
  model computes.
* `Fed.spec` : what has been removed and what is kept, after every sequence of feeds.
* `buffer_invariant` : nothing is lost, nothing is counted twice, and no line end is cut in two.
-/

namespace SpycatcherHarness

namespace SseParser

/-! ### Offsets -/

/-- The offsets of the source lie in the buffer. -/
theorem lineBounds_lt {buffer : Bytes} {lineEnd drainTo : ℕ}
    (h : lineBounds buffer = some (lineEnd, drainTo)) :
    lineEnd < drainTo ∧ drainTo ≤ buffer.length := by
  rw [lineBounds_eq_cut, Option.map_eq_some_iff] at h
  obtain ⟨⟨line, term, rest⟩, hcut, heq⟩ := h
  obtain ⟨hlineEnd, hdrainTo⟩ := Prod.mk.inj heq
  obtain ⟨hbuffer, -, hterm⟩ := Lines.cut_eq_some hcut
  have hpos := hterm.length_pos
  have hlength := congrArg List.length hbuffer
  simp only [List.length_append] at hlength hlineEnd hdrainTo
  omega

/-- A line and its terminator, as the offsets cut them off the buffer. -/
def removal (buffer : Bytes) (lineEnd drainTo : ℕ) : Bytes × Bytes :=
  (buffer.take lineEnd, (buffer.take drainTo).drop lineEnd)

/-- A successful pop is a cut: it removes the line with its terminator. -/
theorem popLine_eq_some {p p' : SseParser} {line : String}
    (h : popLine p = .ok (some line, p')) :
    ∃ lineEnd drainTo bytes term rest, lineBounds p.buffer = some (lineEnd, drainTo) ∧
      Lines.cut cr lf p.buffer = some (bytes, term, rest) ∧
      removal p.buffer lineEnd drainTo = (bytes, term) ∧ Str.fromUtf8 bytes = some line ∧
      p' = { p with buffer := rest } := by
  cases hcut : Lines.cut cr lf p.buffer with
  | none => simp [popLine_none hcut] at h
  | some r =>
    obtain ⟨bytes, term, rest⟩ := r
    rw [popLine_cut hcut] at h
    obtain ⟨hbuffer, -, -⟩ := Lines.cut_eq_some hcut
    have hremoval : removal p.buffer bytes.length (bytes.length + term.length) = (bytes, term) := by
      rw [removal, hbuffer, List.take_left, ← List.append_assoc, ← List.length_append,
        List.take_left, List.drop_left]
    cases hdecode : Str.fromUtf8 bytes with
    | none => simp [hdecode] at h
    | some s =>
      simp only [hdecode, Except.ok.injEq, Prod.mk.injEq, Option.some.injEq] at h
      obtain ⟨rfl, rfl⟩ := h
      exact ⟨_, _, bytes, term, rest, by rw [lineBounds_eq_cut, hcut]; rfl, rfl, hremoval,
        hdecode, rfl⟩

/-- **Every successful pop shortens the buffer.** -/
theorem popLine_shortens {p p' : SseParser} {line : String}
    (h : popLine p = .ok (some line, p')) : p'.buffer.length < p.buffer.length := by
  obtain ⟨_, _, bytes, term, rest, -, hcut, -, -, rfl⟩ := popLine_eq_some h
  exact Lines.length_lt_of_cut hcut

section
variable (fromStr : String → Option Json)

/-! ### One feed -/

/-- The loop of `feed`: pop a line and consume it, until there is none or one is not UTF-8.  Along
with the result, the lines that were removed, each with its terminator. -/
inductive FeedLoop : List StreamEvent → SseParser → List (Bytes × Bytes) →
    Except SseParseError (List StreamEvent) × SseParser → Prop
  | stop {events : List StreamEvent} {p p' : SseParser} : popLine p = .ok (none, p') →
      FeedLoop events p [] (.ok events, p')
  | invalid {events : List StreamEvent} {p : SseParser} {e : SseParseError} :
      popLine p = .error e → FeedLoop events p [] (.error e, p)
  | line {events : List StreamEvent} {p p' : SseParser} {line : String} {lineEnd drainTo : ℕ}
      {removed : List (Bytes × Bytes)}
      {result : Except SseParseError (List StreamEvent) × SseParser} :
      lineBounds p.buffer = some (lineEnd, drainTo) → popLine p = .ok (some line, p') →
      FeedLoop (events ++ (consumeLine fromStr p' line).1) (consumeLine fromStr p' line).2 removed
        result →
      FeedLoop events p (removal p.buffer lineEnd drainTo :: removed) result

/-- The loop without a line to pop keeps the parser. -/
theorem popLine_eq_none {p p' : SseParser} (h : popLine p = .ok (none, p')) :
    p' = p ∧ Lines.cut cr lf p.buffer = none := by
  cases hcut : Lines.cut cr lf p.buffer with
  | none =>
    rw [popLine_none hcut] at h
    simp only [Except.ok.injEq, Prod.mk.injEq, true_and] at h
    exact ⟨h.symm, rfl⟩
  | some r =>
    obtain ⟨bytes, term, rest⟩ := r
    rw [popLine_cut hcut] at h
    cases hdecode : Str.fromUtf8 bytes <;> simp [hdecode] at h

/-- **The loop ends on every input**, with the result that the model computes. -/
theorem feedLoop_drain (events : List StreamEvent) (p : SseParser) :
    ∃ removed, FeedLoop fromStr events p removed (drain fromStr events p) := by
  induction events, p using drain_induct fromStr with
  | stop events p hcut =>
    rw [drain_stop fromStr hcut]
    exact ⟨[], .stop (popLine_none hcut)⟩
  | invalid events p bytes term rest hcut hs =>
    rw [drain_invalid fromStr hcut hs]
    exact ⟨[], .invalid (by rw [popLine_cut hcut, hs])⟩
  | next events p bytes term rest s hcut hs ih =>
    rw [drain_line fromStr hcut hs]
    obtain ⟨removed, hloop⟩ := ih
    exact ⟨_, .line (by rw [lineBounds_eq_cut, hcut]; rfl) (by rw [popLine_cut hcut, hs]) hloop⟩

variable {fromStr}

/-- The loop can only go one way. -/
theorem FeedLoop.unique {events : List StreamEvent} {p : SseParser}
    {removed removed' : List (Bytes × Bytes)}
    {result result' : Except SseParseError (List StreamEvent) × SseParser}
    (h : FeedLoop fromStr events p removed result)
    (h' : FeedLoop fromStr events p removed' result') : removed = removed' ∧ result = result' := by
  induction h generalizing removed' result' with
  | stop hpop =>
    cases h' with
    | stop hpop' =>
      rw [hpop] at hpop'
      simp only [Except.ok.injEq, Prod.mk.injEq, true_and] at hpop'
      exact ⟨rfl, by rw [hpop']⟩
    | invalid hpop' => rw [hpop] at hpop'; cases hpop'
    | line _ hpop' _ => rw [hpop] at hpop'; simp at hpop'
  | invalid hpop =>
    cases h' with
    | stop hpop' => rw [hpop] at hpop'; cases hpop'
    | invalid hpop' =>
      rw [hpop] at hpop'
      exact ⟨rfl, by rw [Except.error.inj hpop']⟩
    | line _ hpop' _ => rw [hpop] at hpop'; cases hpop'
  | line hbounds hpop _ ih =>
    cases h' with
    | stop hpop' => rw [hpop] at hpop'; simp at hpop'
    | invalid hpop' => rw [hpop] at hpop'; cases hpop'
    | line hbounds' hpop' hloop' =>
      rw [hpop] at hpop'
      rw [hbounds] at hbounds'
      simp only [Except.ok.injEq, Prod.mk.injEq, Option.some.injEq] at hpop' hbounds'
      obtain ⟨rfl, rfl⟩ := hpop'
      obtain ⟨rfl, rfl⟩ := hbounds'
      obtain ⟨rfl, rfl⟩ := ih hloop'
      exact ⟨rfl, rfl⟩

/-- Lines that were cut off a stream, and what was left of it. -/
structure Partition (stream : Bytes) (removed : List (Bytes × Bytes)) (left : Bytes) : Prop where
  /-- Nothing is lost, and nothing is counted twice. -/
  joined : Lines.joined removed ++ left = stream
  /-- Every line was cut at a line end, and has none in it. -/
  cuts : ∀ r ∈ removed, (cr ∉ r.1 ∧ lf ∉ r.1) ∧ Lines.IsEnd cr lf r.2
  unsplit : Lines.Unsplit cr lf removed left

/-- What one feed removes and keeps. -/
theorem FeedLoop.spec {events : List StreamEvent} {p : SseParser} {removed : List (Bytes × Bytes)}
    {result : Except SseParseError (List StreamEvent) × SseParser}
    (h : FeedLoop fromStr events p removed result) :
    Partition p.buffer removed result.2.buffer ∧
      (∀ found, result.1 = .ok found → Lines.cut cr lf result.2.buffer = none) := by
  induction h with
  | stop hpop =>
    obtain ⟨rfl, hcut⟩ := popLine_eq_none hpop
    exact ⟨⟨rfl, by simp, trivial⟩, fun _ _ => hcut⟩
  | invalid _ => exact ⟨⟨rfl, by simp, trivial⟩, fun _ h => by cases h⟩
  | @line _ p _ _ _ _ removed result hbounds hpop _ ih =>
    obtain ⟨_, _, bytes, term, rest, hbounds', hcut, hremoval, -, rfl⟩ := popLine_eq_some hpop
    rw [hbounds] at hbounds'
    obtain ⟨rfl, rfl⟩ := Prod.mk.inj (Option.some.inj hbounds')
    rw [consumeLine_buffer] at ih
    obtain ⟨⟨hjoined, hcuts, hunsplit⟩, hkept⟩ := ih
    obtain ⟨hbuffer, hline, hterm⟩ := Lines.cut_eq_some hcut
    rw [hremoval]
    refine ⟨⟨?_, ?_, ?_, hunsplit⟩, hkept⟩
    · rw [Lines.joined_cons, List.append_assoc, List.append_assoc, hjoined, hbuffer]
    · intro r hr
      rcases List.mem_cons.1 hr with rfl | hr
      · exact ⟨hline, hterm⟩
      · exact hcuts r hr
    -- a `cr` alone was only cut off because the byte behind it had arrived
    · rintro rfl
      rw [hjoined]
      exact Lines.cut_cr_alone hcut (by decide)

/-! ### A sequence of feeds -/

variable (fromStr) in
/-- A fresh parser after feeding it chunks, with all that was removed from its buffer; the flag says
whether every feed has succeeded. -/
inductive Fed : List Bytes → List (Bytes × Bytes) → SseParser → Bool → Prop
  | start : Fed [] [] empty true
  | feed {chunks : List Bytes} {removed new : List (Bytes × Bytes)} {p : SseParser} {ok : Bool}
      {chunk : Bytes} {result : Except SseParseError (List StreamEvent) × SseParser} :
      Fed chunks removed p ok → FeedLoop fromStr [] (p.push chunk) new result →
      Fed (chunks ++ [chunk]) (removed ++ new) result.2 (ok && result.1.isOk)

/-- A stream goes on with what was kept of it. -/
theorem Partition.append {stream chunk left left' : Bytes} {removed new : List (Bytes × Bytes)}
    (h : Partition stream removed left) (h' : Partition (left ++ chunk) new left') :
    Partition (stream ++ chunk) (removed ++ new) left' := by
  refine ⟨?_, ?_, Lines.Unsplit.append ?_ h'.unsplit⟩
  · rw [Lines.joined_append, List.append_assoc, h'.joined, ← List.append_assoc, h.joined]
  · intro r hr
    rcases List.mem_append.1 hr with hr | hr
    · exact h.cuts r hr
    · exact h'.cuts r hr
  · rw [h'.joined]
    exact h.unsplit.push chunk

/-- **What has been removed and what is kept**, after every sequence of feeds. -/
theorem Fed.spec {chunks : List Bytes} {removed : List (Bytes × Bytes)} {p : SseParser} {ok : Bool}
    (h : Fed fromStr chunks removed p ok) :
    Partition chunks.flatten removed p.buffer ∧ (ok = true → Waiting p) := by
  induction h with
  | start => exact ⟨⟨rfl, by simp, trivial⟩, fun _ => rfl⟩
  | @feed chunks removed new p ok chunk result _ hloop ih =>
    obtain ⟨hpartition, hkept⟩ := hloop.spec
    refine ⟨?_, fun hok => ?_⟩
    · rw [List.flatten_concat]
      exact ih.1.append hpartition
    · obtain ⟨-, hresult⟩ := Bool.and_eq_true_iff.1 hok
      cases hfound : result.1 with
      | error e => simp [hfound, Except.isOk, Except.toBool] at hresult
      | ok found => exact hkept found hfound

/-- Feeding chunk by chunk without an error is a sequence of feeds that all succeed. -/
theorem Fed.feedAll {chunks done : List Bytes} {removed : List (Bytes × Bytes)}
    {p p' : SseParser} {events : List StreamEvent} (h : Fed fromStr done removed p true)
    (hall : feedAll fromStr p chunks = (.ok events, p')) :
    ∃ removed', Fed fromStr (done ++ chunks) removed' p' true := by
  induction chunks generalizing done removed p events with
  | nil =>
    obtain ⟨-, rfl⟩ := Prod.mk.inj hall
    exact ⟨removed, by rwa [List.append_nil]⟩
  | cons chunk chunks ih =>
    rw [SseParser.feedAll] at hall
    cases hfeed : SseParser.feed fromStr p chunk with
    | mk result q =>
      cases result with
      | error e => simp [hfeed] at hall
      | ok found =>
        obtain ⟨new, hloop⟩ := feedLoop_drain fromStr [] (p.push chunk)
        rw [← feed_eq_drain, hfeed] at hloop
        have hnext : Fed fromStr (done ++ [chunk]) (removed ++ new) q true := h.feed hloop
        cases hrest : SseParser.feedAll fromStr q chunks with
        | mk result q' =>
          cases result with
          | error e => simp [hfeed, hrest] at hall
          | ok later =>
            simp only [hfeed, hrest] at hall
            obtain ⟨-, rfl⟩ := Prod.mk.inj hall
            obtain ⟨removed', hfed⟩ := ih hnext hrest
            exact ⟨removed', by rwa [List.append_assoc] at hfed⟩

variable (fromStr)

/-- **The buffer of the parser**, for every stream and however it is cut into chunks.

* What has been removed from the buffer, line by line with the terminators, and what is kept are
  exactly the bytes fed, also after a feed that fails; no line has a line end in it, and no `cr`
  `lf` has been cut into two line ends.  If no feed has failed, the buffer has no `lf`, and no `cr`
  but as its last byte.
* The parsers that chunks are fed to without an error are among these.
* Every pop of a line shortens the buffer.
* The loop of a feed ends, in one way only, with the result of `feed`.
* The offsets of a line lie in the buffer. -/
theorem buffer_invariant :
    (∀ chunks removed p ok, Fed fromStr chunks removed p ok →
      Partition chunks.flatten removed p.buffer ∧
      (ok = true → lf ∉ p.buffer ∧ ∀ ys zs, p.buffer = ys ++ cr :: zs → zs = [])) ∧
    (∀ chunks events p, feedAll fromStr empty chunks = (.ok events, p) →
      ∃ removed, Fed fromStr chunks removed p true) ∧
    (∀ p p' line, popLine p = .ok (some line, p') → p'.buffer.length < p.buffer.length) ∧
    (∀ p bytes, ∃ removed, FeedLoop fromStr [] (p.push bytes) removed (feed fromStr p bytes) ∧
      ∀ removed' result, FeedLoop fromStr [] (p.push bytes) removed' result →
        removed' = removed ∧ result = feed fromStr p bytes) ∧
    ∀ buffer lineEnd drainTo, lineBounds buffer = some (lineEnd, drainTo) →
      lineEnd < drainTo ∧ drainTo ≤ buffer.length := by
  refine ⟨?_, ?_, ?_, ?_, ?_⟩
  · intro chunks removed p ok h
    obtain ⟨hpartition, hwaiting⟩ := h.spec
    exact ⟨hpartition, fun hok => Lines.cut_eq_none_iff.1 (hwaiting hok)⟩
  · intro chunks events p hall
    exact Fed.start.feedAll hall
  · intro p p' line hpop
    exact popLine_shortens hpop
  · intro p bytes
    obtain ⟨removed, hloop⟩ := feedLoop_drain fromStr [] (p.push bytes)
    exact ⟨removed, hloop, fun removed' result h => h.unique hloop⟩
  · intro buffer lineEnd drainTo h
    exact lineBounds_lt h

/-- A `cr` at the end of a chunk is held back, and turns out to be half of a line end. -/
example : (feedAll (fun _ => none) empty [[0x61, cr], [lf, 0x62]]).2.buffer = [0x62] := by decide

end

end SseParser

end SpycatcherHarness
