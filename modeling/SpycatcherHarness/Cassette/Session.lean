import SpycatcherHarness.Cassette.Filesystem
import SpycatcherHarness.Machine.Runs

/-!
# One handle on a cassette file

A `Session` is a directory and the handle that is open on the cassette file in it, if any.  A run
opens the file, appends, drops the handle and opens again, with any of the steps of a call failing,
with the program stopping inside a call, and with any file lying under the name of the temporary.

* `Session.mirrored_run` : in every state of a run the file decodes to the in-memory cassette.
* `Session.extends_run` : what the file decodes to is only ever extended.
* `Session.append_atomic` : both, with what a single append does.
-/

namespace SpycatcherHarness

open Files Store

/-- A directory, and the handle that is open on the cassette file in it. -/
structure Session where
  dir : Dir String
  handle : Option Store

namespace Session

/-- What happens to the cassette file.  Opening drops the handle that is open. -/
inductive Event where
  | openForRecord (faults : Faults)
  | append (faults : Faults) (interaction : Interaction)
  | drop
  /-- The program stops after `k` operations on the directory. -/
  | stopInOpen (faults : Faults) (k : ℕ)
  | stopInAppend (faults : Faults) (interaction : Interaction) (k : ℕ)
  /-- A file is left under the name of the temporary, or removed from there. -/
  | strayTemp (file : Option File)

variable (S : SerdeJson) (fileName : String)

def step (s : Session) : Event → Session
  | .openForRecord faults =>
    let (ops, result) := openOrCreateForRecord S faults s.dir fileName
    ⟨applyAll s.dir ops, result.toOption⟩
  | .append faults interaction =>
    match s.handle with
    | none => s
    | some store =>
      let ((ops, _), store) := Store.append S faults s.dir store interaction
      ⟨applyAll s.dir ops, some store⟩
  | .drop => { s with handle := none }
  | .stopInOpen faults k =>
    ⟨applyAll s.dir ((openOrCreateForRecord S faults s.dir fileName).1.take k), none⟩
  | .stopInAppend faults interaction k =>
    match s.handle with
    | none => s
    | some store =>
      ⟨applyAll s.dir ((Store.append S faults s.dir store interaction).1.1.take k), none⟩
  | .strayTemp file => { s with dir := Function.update s.dir (tempName fileName) file }

/-- The cassette is read back as it was written. -/
def RoundTrips (c : Cassette) : Prop := Cassette.fromReader S (c.writeTo S) = .ok c

instance (c : Cassette) : Decidable (RoundTrips S c) :=
  inferInstanceAs (Decidable (_ = _))

/-- A cassette that the event may write is read back as it was written. -/
def Writes (s : Session) : Event → Prop
  | .append _ interaction | .stopInAppend _ interaction _ =>
    match s.handle with
    | none => True
    | some store => RoundTrips S (store.cassette.append interaction)
  | _ => True

instance (s : Session) : (e : Event) → Decidable (Writes S s e)
  | .append _ i | .stopInAppend _ i _ =>
    match h : s.handle with
    | none => .isTrue (by simp [Writes, h])
    | some store =>
      decidable_of_iff (RoundTrips S (store.cassette.append i)) (by simp [Writes, h])
  | .openForRecord _ | .drop | .stopInOpen _ _ | .strayTemp _ => .isTrue trivial

/-- What the cassette file decodes to. -/
def decoded (dir : Dir String) : Option Cassette :=
  (content dir fileName).bind fun bytes => (Cassette.fromReader S bytes).toOption

/-- An open handle is on the cassette file, and the file decodes to its in-memory cassette. -/
def Mirrored (s : Session) : Prop :=
  ∀ store, s.handle = some store →
    store.fileName = fileName ∧ decoded S fileName s.dir = some store.cassette

/-- What the file decoded to has been kept, in order, at the front of what it decodes to. -/
def Extends (s s' : Session) : Prop :=
  ∀ c, decoded S fileName s.dir = some c →
    ∃ c', decoded S fileName s'.dir = some c' ∧ c.interactions <+: c'.interactions

variable {S fileName}

theorem decoded_congr {dir dir' : Dir String} (h : content dir' fileName = content dir fileName) :
    decoded S fileName dir' = decoded S fileName dir := by rw [decoded, h, decoded]

theorem decoded_of_read {dir : Dir String} {bytes : Bytes} {c : Cassette}
    (h : content dir fileName = some bytes) (hc : Cassette.fromReader S bytes = .ok c) :
    decoded S fileName dir = some c := by
  simp [decoded, h, hc, Except.toOption]

theorem decoded_of_roundTrips {dir : Dir String} {c : Cassette} (hc : RoundTrips S c)
    (h : content dir fileName = some (c.writeTo S)) : decoded S fileName dir = some c :=
  decoded_of_read h hc

theorem Extends.refl (s : Session) : Extends S fileName s s :=
  fun c hc => ⟨c, hc, List.prefix_rfl⟩

theorem Extends.trans {s t u : Session} (hst : Extends S fileName s t)
    (htu : Extends S fileName t u) : Extends S fileName s u := by
  intro c hc
  obtain ⟨d, hd, hcd⟩ := hst c hc
  obtain ⟨e, he, hde⟩ := htu d hd
  exact ⟨e, he, hcd.trans hde⟩

theorem extends_of_content {s s' : Session}
    (h : content s'.dir fileName = content s.dir fileName) : Extends S fileName s s' :=
  fun c hc => ⟨c, by rw [decoded_congr h, hc], List.prefix_rfl⟩

/-- A file that was not there has nothing to keep. -/
theorem extends_of_absent {s s' : Session} (h : content s.dir fileName = none) :
    Extends S fileName s s' := by
  intro c hc
  simp [decoded, h] at hc

/-- The document of an extended in-memory cassette keeps what the file held. -/
theorem extends_of_append {s s' : Session} {store : Store} {i : Interaction}
    (hstore : decoded S fileName s.dir = some store.cassette)
    (hkept : RoundTrips S (store.cassette.append i))
    (h : content s'.dir fileName = some ((store.cassette.append i).writeTo S)) :
    Extends S fileName s s' := by
  intro c hc
  obtain rfl : store.cassette = c := Option.some.inj (hstore.symm.trans hc)
  exact ⟨_, decoded_of_roundTrips hkept h, by simp⟩

theorem decoded_append_none {s : Session} {store : Store} {i : Interaction}
    (hhandle : s.handle = some store) (hname : store.fileName = fileName)
    (hkept : RoundTrips S (store.cassette.append i)) :
    decoded S fileName (step S fileName s (.append .none i)).dir =
      some (store.cassette.append i) := by
  obtain ⟨ops, heq, hops⟩ := append_none S s.dir store i
  subst hname
  simp only [step, hhandle, heq]
  exact decoded_of_roundTrips hkept hops

/-! ### Runs -/

/-- Nothing is asked of a session without a handle. -/
theorem mirrored_none (dir : Dir String) : Mirrored S fileName ⟨dir, none⟩ := by
  rintro store ⟨⟩

/-- What one event keeps. -/
theorem step_keeps (hnew : RoundTrips S .new) (s : Session) (e : Event)
    (hs : Mirrored S fileName s) (he : Writes S s e) :
    Mirrored S fileName (step S fileName s e) ∧ Extends S fileName s (step S fileName s e) := by
  cases e with
  | openForRecord faults =>
    simp only [step]
    -- an existing file is read, an absent one is created, and a failure leaves it alone
    rcases openOrCreateForRecord_spec S faults s.dir fileName with
      ⟨bytes, c, hfile, hc, heq⟩ | ⟨ops, hfile, heq, hops⟩ | ⟨ops, e, heq, hops⟩
    · rw [heq]
      refine ⟨?_, extends_of_content rfl⟩
      rintro store ⟨⟩
      exact ⟨rfl, decoded_of_read hfile hc⟩
    · rw [heq]
      refine ⟨?_, extends_of_absent hfile⟩
      rintro store ⟨⟩
      exact ⟨rfl, decoded_of_roundTrips hnew hops⟩
    · rw [heq]
      exact ⟨mirrored_none _, extends_of_content hops⟩
  | append faults i =>
    cases hhandle : s.handle with
    | none =>
      have hstep : step S fileName s (.append faults i) = s := by simp [step, hhandle]
      rw [hstep]
      exact ⟨hs, .refl s⟩
    | some store =>
      obtain ⟨rfl, hstore⟩ := hs store hhandle
      simp only [Writes, hhandle] at he
      simp only [step, hhandle]
      rcases append_spec S faults s.dir store i with ⟨ops, heq, hops⟩ | ⟨ops, e, heq, hops⟩
      · rw [heq]
        refine ⟨?_, extends_of_append hstore he hops⟩
        rintro store' ⟨⟩
        exact ⟨rfl, decoded_of_roundTrips he hops⟩
      · rw [heq]
        refine ⟨?_, extends_of_content hops⟩
        rintro store' ⟨⟩
        exact ⟨rfl, (decoded_congr hops).trans hstore⟩
  | drop => exact ⟨mirrored_none s.dir, .refl s⟩
  | stopInOpen faults k =>
    refine ⟨mirrored_none _, ?_⟩
    rcases openOrCreateForRecord_take S faults s.dir fileName k with h | ⟨habsent, -⟩
    · exact extends_of_content h
    · exact extends_of_absent habsent
  | stopInAppend faults i k =>
    cases hhandle : s.handle with
    | none =>
      have hstep : step S fileName s (.stopInAppend faults i k) = s := by simp [step, hhandle]
      rw [hstep]
      exact ⟨hs, .refl s⟩
    | some store =>
      obtain ⟨rfl, hstore⟩ := hs store hhandle
      simp only [Writes, hhandle] at he
      simp only [step, hhandle]
      refine ⟨mirrored_none _, ?_⟩
      -- the handle is gone, and the file is the old document or the new one
      rcases append_take S faults s.dir store i k with h | h
      · exact extends_of_content h
      · exact extends_of_append hstore he h
  | strayTemp file =>
    have hcontent : content (Function.update s.dir (tempName fileName) file) fileName =
        content s.dir fileName := by simp [content, tempName_ne]
    refine ⟨fun store h => ⟨(hs store h).1, ?_⟩, extends_of_content hcontent⟩
    exact (decoded_congr hcontent).trans (hs store h).2

variable (hnew : RoundTrips S .new)

include hnew

/-- In every state of a run the file decodes to the in-memory cassette. -/
theorem mirrored_run {s : Session} (hs : Mirrored S fileName s) {es : List Event}
    (h : Runs.Along (step S fileName) (Writes S) s es) :
    Mirrored S fileName (Runs.run (step S fileName) s es) :=
  Runs.run_invariant (fun s e hs he => (step_keeps hnew s e hs he).1) hs h

/-- What the file decodes to at one time is kept at the front of what it decodes to later. -/
theorem extends_run {s : Session} (hs : Mirrored S fileName s) {es : List Event}
    (h : Runs.Along (step S fileName) (Writes S) s es) :
    Extends S fileName s (Runs.run (step S fileName) s es) :=
  Runs.run_rel Extends.refl (fun _ _ _ => Extends.trans) (step_keeps hnew) hs h

/-- **Appends are atomic, and a session only extends its cassette.**  After any run from any
directory with no handle open, an append that fails leaves the in-memory cassette and the file as
they were, one that succeeds extends the in-memory cassette by the interaction and leaves its
document in the file, and a program that stops inside an append leaves the old content or the new
document.  The file decodes to the in-memory cassette, and what it decoded to at any earlier time
of the run is still there, in order. -/
theorem append_atomic (dir : Dir String) (es : List Event)
    (h : Runs.Along (step S fileName) (Writes S) ⟨dir, none⟩ es) :
    let s := Runs.run (step S fileName) ⟨dir, none⟩ es
    (∀ store, s.handle = some store → ∀ faults i,
      let ((ops, result), store') := Store.append S faults s.dir store i
      (∀ e, result = .error e →
        store' = store ∧ content (applyAll s.dir ops) fileName = content s.dir fileName) ∧
      (result = .ok () → store' = { store with cassette := store.cassette.append i } ∧
        content (applyAll s.dir ops) fileName = some ((store.cassette.append i).writeTo S)) ∧
      ∀ k, content (applyAll s.dir (ops.take k)) fileName = content s.dir fileName ∨
        content (applyAll s.dir (ops.take k)) fileName =
          some ((store.cassette.append i).writeTo S)) ∧
    Mirrored S fileName s ∧
    ∀ before after, es = before ++ after →
      Extends S fileName (Runs.run (step S fileName) ⟨dir, none⟩ before) s := by
  have hstart : Mirrored S fileName ⟨dir, none⟩ := fun store h => (nomatch h)
  have hmirrored := mirrored_run hnew hstart h
  refine ⟨?_, hmirrored, ?_⟩
  · intro store hstore faults i
    obtain ⟨rfl, -⟩ := hmirrored store hstore
    have htake := append_take S faults
      (Runs.run (step S store.fileName) ⟨dir, none⟩ es).dir store i
    rcases append_spec S faults (Runs.run (step S store.fileName) ⟨dir, none⟩ es).dir store i with
      ⟨ops, heq, hops⟩ | ⟨ops, e, heq, hops⟩
    · rw [heq] at htake ⊢
      exact ⟨fun e he => (nomatch he), fun _ => ⟨rfl, hops⟩, htake⟩
    · rw [heq] at htake ⊢
      exact ⟨fun _ _ => ⟨rfl, hops⟩, fun he => (nomatch he), htake⟩
  · rintro before after rfl
    obtain ⟨hbefore, hafter⟩ := Runs.along_append.1 h
    rw [Runs.run_append]
    exact extends_run hnew (mirrored_run hnew hstart hbefore) hafter

omit hnew

/-- An append whose write fails after four bytes, one that succeeds, and one that is cut short. -/
theorem append_atomic_cut_short :
    let i : Interaction :=
      ⟨⟨"POST", "/v1/chat/completions", "", [], Str.asBytes "\x7b\x7d", some (.object []), none,
          none⟩,
        .nonStream 200 [] (Str.asBytes "\x7b\x7d") (some (.object [])), ⟨"chat", "up", "now", 3⟩⟩
    let before : List Event := [.openForRecord .none,
      .append { Faults.none with write := some (4, .other), remove := true } i] ++ [.append .none i]
    let after : List Event := [.stopInAppend .none i 9, .openForRecord .none]
    decoded .exact "c.json" (Runs.run (step .exact "c.json") ⟨fun _ => none, none⟩ before).dir =
        some ⟨1, [i]⟩ ∧
      ∃ c, decoded .exact "c.json"
          (Runs.run (step .exact "c.json") ⟨fun _ => none, none⟩ (before ++ after)).dir = some c ∧
        [i] <+: c.interactions := by
  intro i before after
  have hnew : RoundTrips .exact .new := Cassette.fromReader_exact (by decide +kernel) rfl
  have hone : RoundTrips .exact ⟨1, [i]⟩ :=
    Cassette.fromReader_exact (by decide +kernel) rfl
  have htwo : RoundTrips .exact ⟨1, [i, i]⟩ :=
    Cassette.fromReader_exact (by decide +kernel) rfl
  have hdecoded : decoded .exact "c.json"
      (Runs.run (step .exact "c.json") ⟨fun _ => none, none⟩ before).dir = some ⟨1, [i]⟩ := by
    have hhandle : (Runs.run (step .exact "c.json") ⟨fun _ => none, none⟩ [.openForRecord .none,
        .append { Faults.none with write := some (4, .other), remove := true } i]).handle =
        some ⟨"c.json", .new⟩ := by decide +kernel
    rw [Runs.run_concat]
    exact decoded_append_none hhandle rfl hone
  refine ⟨hdecoded, ?_⟩
  have hrun : Runs.Along (step .exact "c.json") (Writes .exact) ⟨fun _ => none, none⟩
      (before ++ after) := ⟨trivial, hone, hone, htwo, trivial, trivial⟩
  exact (append_atomic hnew (fun _ => none) (before ++ after) hrun).2.2 before after rfl _ hdecoded

end Session

end SpycatcherHarness
