import Mathlib.Logic.Relation
import SpycatcherHarness.Cassette.Filesystem
import SpycatcherHarness.Machine.Runs

/-!
# Two handles on one cassette file

Two harness instances may record to the same path.  Each handle rewrites the whole document from
its own in-memory cassette, and nothing locks the file.  `Shared` is a directory with both handles,
and a run interleaves whole openings, probes and appends, none of which fails.

A `View` says what a handle knows: it is `stale` from the moment the other handle appends until it
is opened again or appends itself.

* `Shared.interactions_of_not_append` : opening and probing keep every interaction.
* `Shared.appends_kept_iff` : the file holds every acknowledged interaction exactly if no append
  went through a stale handle.
-/

namespace SpycatcherHarness

open Files Store

/-! ### Interactions written and read again -/

/-- Interactions that have been written and read any number of times. -/
def Kept (is js : List Interaction) : Prop :=
  List.Forall₂ (Relation.ReflTransGen Interaction.Reread) is js

namespace Kept

theorem refl (is : List Interaction) : Kept is is :=
  List.forall₂_same.2 fun _ _ => .refl

theorem of_reread {c c' : Cassette} (h : c.Reread c') : Kept c.interactions c'.interactions :=
  h.interactions.imp fun _ _ => .single

theorem trans {is js ks : List Interaction} (h : Kept is js) (h' : Kept js ks) : Kept is ks := by
  induction h generalizing ks with
  | nil => exact h'
  | cons hij _ ih =>
    cases h' with
    | cons hjk hrest => exact .cons (hij.trans hjk) (ih hrest)

theorem concat {is js : List Interaction} (h : Kept is js) (i : Interaction) :
    Kept (is ++ [i]) (js ++ [i]) :=
  List.rel_append h (.cons .refl .nil)

theorem length_eq {is js : List Interaction} (h : Kept is js) : is.length = js.length :=
  List.Forall₂.length_eq h

end Kept

/-- If `p`, what is held has kept everything; otherwise something is missing. -/
def KeptIff (p : Prop) (total held : List Interaction) : Prop :=
  (p → Kept total held) ∧ (¬ p → held.length < total.length)

namespace KeptIff

variable {p q : Prop} {total held held' : List Interaction}

theorem length_le (h : KeptIff p total held) : held.length ≤ total.length := by
  by_cases hp : p
  · exact (h.1 hp).length_eq.ge
  · exact (h.2 hp).le

theorem kept (h : KeptIff p total held) (hkept : Kept held held') : KeptIff p total held' :=
  ⟨fun hp => (h.1 hp).trans hkept, fun hp => hkept.length_eq ▸ h.2 hp⟩

/-- Both sides are extended. -/
theorem concat (h : KeptIff p total held) (i : Interaction) :
    KeptIff p (total ++ [i]) (held ++ [i]) :=
  ⟨fun hp => (h.1 hp).concat i, fun hp => by simpa using h.2 hp⟩

/-- Only the total is extended. -/
theorem behind (h : KeptIff p total held) (i : Interaction) (hq : ¬ q) :
    KeptIff q (total ++ [i]) held :=
  ⟨fun h' => absurd h' hq, fun _ => by simpa using Nat.lt_succ_of_le h.length_le⟩

theorem congr (h : KeptIff p total held) (hpq : p ↔ q) : KeptIff q total held :=
  ⟨fun hq => h.1 (hpq.2 hq), fun hq => h.2 fun hp => hq (hpq.1 hp)⟩

theorem iff (h : KeptIff p total held) : Kept total held ↔ p := by
  by_cases hp : p
  · exact ⟨fun _ => hp, h.1⟩
  · exact ⟨fun hkept => absurd hkept.length_eq (h.2 hp).ne', fun h' => absurd h' hp⟩

end KeptIff

/-! ### The machine -/

/-- A directory and the handles that two instances have open on the cassette file in it. -/
structure Shared where
  dir : Dir String
  handles : Bool → Option Store

namespace Shared

inductive Event where
  | openForRecord (who : Bool)
  | probe
  | append (who : Bool) (interaction : Interaction)

variable (S : SerdeJson) (fileName : String)

def step (s : Shared) : Event → Shared
  | .openForRecord who =>
    let (ops, result) := openOrCreateForRecord S .none s.dir fileName
    ⟨applyAll s.dir ops, Function.update s.handles who result.toOption⟩
  | .probe =>
    { s with dir := applyAll s.dir (probeRecordWriteAccess S .none .none s.dir fileName).1 }
  | .append who interaction =>
    match s.handles who with
    | none => s
    | some store =>
      let ((ops, _), store) := Store.append S .none s.dir store interaction
      ⟨applyAll s.dir ops, Function.update s.handles who (some store)⟩

/-- The interactions that a step acknowledges. -/
def acknowledged (s : Shared) : Event → List Interaction
  | .append who interaction =>
    match s.handles who with
    | none => []
    | some store =>
      match Store.append S .none s.dir store interaction with
      | ((_, .ok ()), _) => [interaction]
      | ((_, .error _), _) => []
  | _ => []

/-- The interactions in the file.  A file that is not there has none. -/
def interactions (dir : Dir String) : Option (List Interaction) :=
  match content dir fileName with
  | none => some []
  | some bytes => (Cassette.fromReader S bytes).toOption.map Cassette.interactions

/-- No handle is open. -/
def start (dir : Dir String) : Shared := ⟨dir, fun _ => none⟩

/-! ### What a handle knows -/

inductive View where
  | closed
  | current
  /-- The other handle has appended since. -/
  | stale
  deriving DecidableEq

def View.step (views : Bool → View) : Event → Bool → View
  | .openForRecord who => Function.update views who .current
  | .probe => views
  | .append who _ =>
    if views who = .closed then views
    else fun w =>
      if w = who then .current else if views w = .closed then .closed else .stale

/-- An append does not go through a stale handle. -/
def View.UpToDate (views : Bool → View) : Event → Prop
  | .append who _ => views who ≠ .stale
  | _ => True

instance (views : Bool → View) : (e : Event) → Decidable (View.UpToDate views e)
  | .append who _ => inferInstanceAs (Decidable (views who ≠ .stale))
  | .openForRecord _ | .probe => .isTrue trivial

/-- What the handles know after a run in which none was open at first. -/
def views (es : List Event) : Bool → View := Runs.run View.step (fun _ => .closed) es

/-- No append of the run goes through a stale handle. -/
def AllUpToDate (es : List Event) : Prop :=
  Runs.Along View.step View.UpToDate (fun _ => .closed) es

instance (es : List Event) : Decidable (AllUpToDate es) :=
  inferInstanceAs (Decidable (Runs.Along _ _ _ _))

theorem views_concat (es : List Event) (e : Event) :
    views (es ++ [e]) = View.step (views es) e := Runs.run_concat _ _ _

theorem allUpToDate_concat (es : List Event) (e : Event) :
    AllUpToDate (es ++ [e]) ↔ AllUpToDate es ∧ View.UpToDate (views es) e := Runs.along_concat

variable {S fileName}

/-! ### What the file holds -/

theorem interactions_of_some {dir : Dir String} {bytes : Bytes} {c : Cassette}
    (hfile : content dir fileName = some bytes) (hc : Cassette.fromReader S bytes = .ok c) :
    interactions S fileName dir = some c.interactions := by
  simp [interactions, hfile, hc, Except.toOption]

theorem exists_of_interactions {dir : Dir String} {bytes : Bytes} {is : List Interaction}
    (hfile : content dir fileName = some bytes) (h : interactions S fileName dir = some is) :
    ∃ c, Cassette.fromReader S bytes = .ok c ∧ c.interactions = is := by
  simp only [interactions, hfile] at h
  cases hc : Cassette.fromReader S bytes with
  | error e => simp [hc, Except.toOption] at h
  | ok c => exact ⟨c, rfl, by simpa [hc, Except.toOption] using h⟩

theorem interactions_of_none {dir : Dir String} (h : content dir fileName = none) :
    interactions S fileName dir = some [] := by simp [interactions, h]

variable (hS : S.Lawful)

include hS

/-- The document of a cassette that can be stored keeps its interactions. -/
theorem interactions_of_writeTo {dir : Dir String} {c : Cassette} (hc : c.Storable)
    (hfile : content dir fileName = some (c.writeTo S)) :
    ∃ is, interactions S fileName dir = some is ∧ Kept c.interactions is := by
  obtain ⟨c', hread, hreread⟩ := hc.fromReader_writeTo hS
  exact ⟨c'.interactions, interactions_of_some hfile hread, .of_reread hreread⟩

/-- **Opening and probing remove nothing.** -/
theorem interactions_of_not_append {s : Shared} {is : List Interaction}
    (h : interactions S fileName s.dir = some is) (e : Event)
    (he : ∀ who i, e ≠ .append who i) :
    ∃ js, interactions S fileName (step S fileName s e).dir = some js ∧ Kept is js := by
  -- an absent file counts as no interactions, and is created
  cases hfile : content s.dir fileName with
  | none =>
    obtain rfl : [] = is := Option.some.inj ((interactions_of_none hfile).symm.trans h)
    obtain ⟨ops, hopen, hops⟩ := openOrCreateForRecord_none_of_none S hfile
    cases e with
    | openForRecord who =>
      have hdir : (step S fileName s (.openForRecord who)).dir = applyAll s.dir ops := by
        simp [step, hopen]
      rw [hdir]
      exact interactions_of_writeTo hS Cassette.storable_new hops
    | probe =>
      exact interactions_of_writeTo hS Cassette.storable_new (probeRecordWriteAccess_none S hopen)
    | append who i => exact absurd rfl (he who i)
  | some bytes =>
    obtain ⟨c, hc, rfl⟩ := exists_of_interactions hfile h
    have hopen := openOrCreateForRecord_none_of_some S hfile hc
    cases e with
    | openForRecord who =>
      have hdir : (step S fileName s (.openForRecord who)).dir = s.dir := by simp [step, hopen]
      rw [hdir]
      exact ⟨_, h, .refl _⟩
    | probe =>
      exact interactions_of_writeTo hS (Cassette.storable_of_fromReader hc)
        (probeRecordWriteAccess_none S hopen)
    | append who i => exact absurd rfl (he who i)

/-! ### Runs -/

omit hS in
/-- What an append does: nothing without a handle, and otherwise it replaces the file by the
handle's cassette and the interaction. -/
theorem append_cases (s : Shared) (who : Bool) (i : Interaction) :
    (s.handles who = none ∧ step S fileName s (.append who i) = s ∧
      acknowledged S s (.append who i) = []) ∨
    ∃ store, s.handles who = some store ∧
      (step S fileName s (.append who i)).handles =
        Function.update s.handles who (some { store with cassette := store.cassette.append i }) ∧
      content (step S fileName s (.append who i)).dir store.fileName =
        some ((store.cassette.append i).writeTo S) ∧
      acknowledged S s (.append who i) = [i] := by
  cases hhandle : s.handles who with
  | none => exact Or.inl ⟨rfl, by simp [step, hhandle], by simp [acknowledged, hhandle]⟩
  | some store =>
    obtain ⟨ops, heq, hops⟩ := append_none S s.dir store i
    exact Or.inr ⟨store, rfl, by simp [step, hhandle, heq],
      by simpa [step, hhandle, heq] using hops, by simp [acknowledged, hhandle, heq]⟩

variable (S fileName) in
/-- What a run from `init` keeps: the file, and each handle that is not stale, hold every
acknowledged interaction if no append went through a stale handle, and too few otherwise. -/
structure Holds (total : List Interaction) (es : List Event) (s : Shared) : Prop where
  file : ∃ is, interactions S fileName s.dir = some is ∧ KeptIff (AllUpToDate es) total is
  absent : content s.dir fileName = none → total = []
  /-- A handle is on the cassette file. -/
  handle : ∀ who store, s.handles who = some store →
    store.fileName = fileName ∧ store.cassette.Storable ∧ content s.dir fileName ≠ none
  known : ∀ who store, s.handles who = some store →
    KeptIff (AllUpToDate es ∧ views es who = .current) total store.cassette.interactions
  closed : ∀ who, s.handles who = none ↔ views es who = .closed

omit hS in
/-- Both handles stay what they are, and so does what the file is known to hold. -/
theorem Holds.of_unchanged {total : List Interaction} {es es' : List Event} {s s' : Shared}
    (h : Holds S fileName total es s) (hclean : AllUpToDate es ↔ AllUpToDate es')
    (hviews : views es' = views es) (hhandles : s'.handles = s.handles)
    (hfile : ∃ is, interactions S fileName s'.dir = some is ∧ KeptIff (AllUpToDate es) total is)
    (hpresent : content s.dir fileName ≠ none → content s'.dir fileName ≠ none) :
    Holds S fileName total es' s' := by
  obtain ⟨is, his, hkept⟩ := hfile
  refine ⟨⟨is, his, hkept.congr hclean⟩, fun hn => h.absent ?_, ?_, ?_, ?_⟩
  · by_contra hthere
    exact hpresent hthere hn
  · intro w store hstore
    rw [hhandles] at hstore
    obtain ⟨hname, hstorable, hthere⟩ := h.handle w store hstore
    exact ⟨hname, hstorable, hpresent hthere⟩
  · intro w store hstore
    rw [hhandles] at hstore
    exact (h.known w store hstore).congr (by rw [hviews, hclean])
  · intro w
    rw [hhandles, hviews]
    exact h.closed w

omit hS in
/-- One handle is opened or appends, and the other stays what it is. -/
theorem Holds.of_update {total total' : List Interaction} {es es' : List Event} {s s' : Shared}
    (h : Holds S fileName total es s) {who : Bool} {c : Cassette}
    (hfile : ∃ is, interactions S fileName s'.dir = some is ∧ KeptIff (AllUpToDate es') total' is)
    (hpresent : content s'.dir fileName ≠ none) (hstorable : c.Storable)
    (hhandles : s'.handles = Function.update s.handles who (some ⟨fileName, c⟩))
    (hwho : KeptIff (AllUpToDate es' ∧ views es' who = .current) total' c.interactions)
    (hopen : views es' who ≠ .closed)
    (hother : ∀ w, w ≠ who → ∀ store, s.handles w = some store →
      KeptIff (AllUpToDate es' ∧ views es' w = .current) total' store.cassette.interactions)
    (hclosed : ∀ w, w ≠ who → (views es' w = .closed ↔ views es w = .closed)) :
    Holds S fileName total' es' s' := by
  refine ⟨hfile, fun hn => absurd hn hpresent, ?_, ?_, ?_⟩
  · intro w store hstore
    rw [hhandles] at hstore
    by_cases hw : w = who
    · subst hw
      obtain rfl : ⟨fileName, c⟩ = store := by simpa using hstore
      exact ⟨rfl, hstorable, hpresent⟩
    · rw [Function.update_of_ne hw] at hstore
      exact ⟨(h.handle w store hstore).1, (h.handle w store hstore).2.1, hpresent⟩
  · intro w store hstore
    rw [hhandles] at hstore
    by_cases hw : w = who
    · subst hw
      obtain rfl : ⟨fileName, c⟩ = store := by simpa using hstore
      exact hwho
    · rw [Function.update_of_ne hw] at hstore
      exact hother w hw store hstore
  · intro w
    rw [hhandles]
    by_cases hw : w = who
    · subst hw
      simpa using hopen
    · rw [Function.update_of_ne hw, h.closed w, hclosed w hw]

theorem Holds.openForRecord {total : List Interaction} {es : List Event} {s : Shared}
    (h : Holds S fileName total es s) (who : Bool) :
    Holds S fileName total (es ++ [.openForRecord who])
      (step S fileName s (.openForRecord who)) := by
  obtain ⟨is, hfile, hkept⟩ := h.file
  have hclean : AllUpToDate es ↔ AllUpToDate (es ++ [.openForRecord who]) := by
    simp [allUpToDate_concat, View.UpToDate]
  have hviews : views (es ++ [.openForRecord who]) = Function.update (views es) who .current := by
    rw [views_concat, View.step]
  obtain ⟨js, hfile', hkept'⟩ :=
    interactions_of_not_append hS hfile (.openForRecord who) (by simp)
  -- the handle is the one the file now decodes to, if only floats were to change
  have hopened : ∃ c, c.Storable ∧ Kept is c.interactions ∧
      (step S fileName s (.openForRecord who)).handles =
        Function.update s.handles who (some ⟨fileName, c⟩) ∧
      content (step S fileName s (.openForRecord who)).dir fileName ≠ none := by
    cases hcontent : content s.dir fileName with
    | none =>
      obtain rfl : [] = is := Option.some.inj ((interactions_of_none hcontent).symm.trans hfile)
      obtain ⟨ops, hopen, hops⟩ := openOrCreateForRecord_none_of_none S hcontent
      exact ⟨.new, Cassette.storable_new, .refl _, by simp [step, hopen, Except.toOption],
        by simp [step, hopen, hops]⟩
    | some bytes =>
      obtain ⟨c, hc, rfl⟩ := exists_of_interactions hcontent hfile
      have hopen := openOrCreateForRecord_none_of_some S hcontent hc
      exact ⟨c, Cassette.storable_of_fromReader hc, .refl _,
        by simp [step, hopen, Except.toOption], by simp [step, hopen, hcontent]⟩
  obtain ⟨c, hstorable, hknown, hhandles, hpresent⟩ := hopened
  refine h.of_update ⟨js, hfile', (hkept.kept hkept').congr hclean⟩ hpresent hstorable hhandles
    ?_ (by simp [hviews]) ?_ ?_
  · exact (hkept.kept hknown).congr (by simp [hviews, ← hclean])
  · exact fun w hw store hstore =>
      (h.known w store hstore).congr (by simp [hviews, hw, ← hclean])
  · exact fun w hw => by simp [hviews, hw]

theorem Holds.probe {total : List Interaction} {es : List Event} {s : Shared}
    (h : Holds S fileName total es s) :
    Holds S fileName total (es ++ [.probe]) (step S fileName s .probe) := by
  obtain ⟨is, hfile, hkept⟩ := h.file
  have hclean : AllUpToDate es ↔ AllUpToDate (es ++ [.probe]) := by
    simp [allUpToDate_concat, View.UpToDate]
  have hviews : views (es ++ [.probe]) = views es := by rw [views_concat, View.step]
  obtain ⟨js, hfile', hkept'⟩ := interactions_of_not_append hS hfile .probe (by simp)
  have hpresent : content (step S fileName s .probe).dir fileName ≠ none := by
    cases hcontent : content s.dir fileName with
    | none =>
      obtain ⟨ops, hopen, -⟩ := openOrCreateForRecord_none_of_none S hcontent
      simp [step, probeRecordWriteAccess_none S hopen]
    | some bytes =>
      obtain ⟨c, hc, -⟩ := exists_of_interactions hcontent hfile
      simp [step, probeRecordWriteAccess_none S (openOrCreateForRecord_none_of_some S hcontent hc)]
  exact h.of_unchanged hclean hviews rfl ⟨js, hfile', hkept.kept hkept'⟩ fun _ => hpresent

theorem Holds.append {total : List Interaction} {es : List Event} {s : Shared}
    (h : Holds S fileName total es s) (who : Bool) {i : Interaction}
    (hi : i.Wf ∧ i.DepthLe Cassette.eventDepth) :
    Holds S fileName (total ++ acknowledged S s (.append who i)) (es ++ [.append who i])
      (step S fileName s (.append who i)) := by
  rcases @append_cases S fileName s who i with
    ⟨hhandle, hstep, hack⟩ | ⟨store, hhandle, hhandles, hcontent, hack⟩
  -- without a handle nothing happens
  · have hclosed : views es who = .closed := (h.closed who).1 hhandle
    have hclean : AllUpToDate es ↔ AllUpToDate (es ++ [.append who i]) := by
      simp [allUpToDate_concat, View.UpToDate, hclosed]
    have hviews : views (es ++ [.append who i]) = views es := by
      rw [views_concat, View.step, if_pos hclosed]
    rw [hstep, hack, List.append_nil]
    exact h.of_unchanged hclean hviews rfl h.file id
  · obtain ⟨rfl, hstorable, -⟩ := h.handle who store hhandle
    have hopen : views es who ≠ .closed := fun hc => by simp [(h.closed who).2 hc] at hhandle
    have hclean : (AllUpToDate es ∧ views es who = .current) ↔
        AllUpToDate (es ++ [.append who i]) := by
      rw [allUpToDate_concat]
      cases hview : views es who <;> simp_all [View.UpToDate]
    have hviews : views (es ++ [.append who i]) = fun w =>
        if w = who then .current else if views es w = .closed then .closed else .stale := by
      rw [views_concat, View.step, if_neg hopen]
    have hknown := (h.known who store hhandle).concat i
    obtain ⟨is, hfile, hkept⟩ := interactions_of_writeTo hS (hstorable.append hi) hcontent
    have hpresent :
        content (step S store.fileName s (.append who i)).dir store.fileName ≠ none := by
      simp [hcontent]
    rw [hack]
    refine h.of_update ⟨is, hfile, (hknown.kept hkept).congr hclean⟩ hpresent
      (hstorable.append hi) hhandles ?_ (by simp [hviews]) ?_ ?_
    · exact hknown.congr (by simp [hviews, ← hclean])
    · -- what the other handle holds lacks the interaction from now on
      intro w hw store' hstore'
      refine (h.known w store' hstore').behind i ?_
      simp only [hviews, if_neg hw]
      split_ifs <;> simp
    · intro w hw
      simp only [hviews, if_neg hw]
      split_ifs with hc <;> simp [hc]

/-- **Acknowledged interactions are kept as long as no append goes through a stale handle.**  After
any run of openings, probes and appends of two handles on one path, the file holds what it held at
first followed by every acknowledged interaction, each once and in order, exactly if every append
went through a handle that had been opened, or had itself appended, since the other handle's last
append.  Whatever the run, opening and probing remove nothing. -/
theorem appends_kept_iff {dir : Dir String} {init : List Interaction}
    (hinit : interactions S fileName dir = some init) (es : List Event)
    (hes : ∀ who i, Event.append who i ∈ es → i.Wf ∧ i.DepthLe Cassette.eventDepth) :
    let s := Runs.run (step S fileName) (start dir) es
    let acked := Runs.collect (step S fileName) (acknowledged S) (start dir) es
    ((∃ is, interactions S fileName s.dir = some is ∧ Kept (init ++ acked) is) ↔
      AllUpToDate es) ∧
    ∀ e, (∀ who i, e ≠ .append who i) → ∀ is, interactions S fileName s.dir = some is →
      ∃ js, interactions S fileName (step S fileName s e).dir = some js ∧ Kept is js := by
  have hholds : Holds S fileName
      (init ++ Runs.collect (step S fileName) (acknowledged S) (start dir) es) es
      (Runs.run (step S fileName) (start dir) es) := by
    refine Runs.run_history (s := start dir)
      (P := fun _ e => ∀ who i, e = .append who i → i.Wf ∧ i.DepthLe Cassette.eventDepth)
      (I := fun es s => Holds S fileName
        (init ++ Runs.collect (step S fileName) (acknowledged S) (start dir) es) es s)
      ?_ ?_ es (Runs.along_of_forall ?_ _)
    · refine ⟨⟨init, hinit, fun _ => by simpa [Runs.collect] using Kept.refl init,
        fun h => absurd trivial h⟩, ?_, fun _ _ h => (nomatch h), fun _ _ h => (nomatch h),
        fun _ => iff_of_true rfl rfl⟩
      intro habsent
      simpa [Runs.collect] using
        (Option.some.inj ((interactions_of_none habsent).symm.trans hinit)).symm
    · intro es e h hev
      rw [Runs.collect_concat, ← List.append_assoc]
      cases e with
      | openForRecord who => simpa [acknowledged] using h.openForRecord hS who
      | probe => simpa [acknowledged] using h.probe hS
      | append who i => exact h.append hS who (hev who i rfl)
    · rintro e he who i rfl
      exact hes who i he
  refine ⟨?_, fun e he is his => interactions_of_not_append hS his e he⟩
  obtain ⟨is, hfile, hkept⟩ := hholds.file
  rw [← hkept.iff]
  constructor
  · rintro ⟨js, hjs, hkeptjs⟩
    obtain rfl : is = js := Option.some.inj (hfile.symm.trans hjs)
    exact hkeptjs
  · exact fun h => ⟨is, hfile, h⟩

omit hS

/-- The second handle is opened, and the path is probed, before the first append. -/
theorem appends_kept_iff_probed :
    let exchange (body : String) : Interaction :=
      ⟨⟨"POST", "/v1/chat/completions", "", [], Str.asBytes body, none, none, none⟩,
        .nonStream 200 [] [] none, ⟨"chat", "up", "now", 0⟩⟩
    let es : List Event := [.openForRecord false, .openForRecord true, .probe,
      .append true (exchange "a"), .append true (exchange "b")]
    let s := Runs.run (step .exact "c.json") (start fun _ => none) es
    ∃ is, interactions .exact "c.json" s.dir = some is ∧
      Kept ([] ++ [exchange "a", exchange "b"]) is := by
  intro exchange es s
  have hacked : Runs.collect (step .exact "c.json") (acknowledged .exact) (start fun _ => none) es =
      [exchange "a", exchange "b"] := by decide +kernel
  rw [← hacked]
  have hinit : interactions .exact "c.json" (fun _ => none) = some [] := rfl
  refine (appends_kept_iff SerdeJson.exact_lawful hinit es ?_).1.2 (by decide)
  simp only [es, List.mem_cons, reduceCtorEq, Event.append.injEq, List.not_mem_nil, or_false,
    false_or]
  rintro who i (⟨-, rfl⟩ | ⟨-, rfl⟩) <;>
    exact ⟨⟨by simp [exchange, Codec.WfOption], by simp [exchange, Codec.WfOption],
      by simp [exchange, RecordedResponse.Wf, Codec.WfOption]⟩,
      ⟨by simp [exchange, Codec.DepthLe], by simp [exchange, Codec.DepthLe],
      by simp [exchange, RecordedResponse.DepthLe, Codec.DepthLe]⟩⟩

/-- Two handles are opened on a path and both append: both appends are acknowledged, and the file
holds the second interaction only. -/
theorem append_lost :
    let exchange (body : String) : Interaction :=
      ⟨⟨"POST", "/v1/chat/completions", "", [], Str.asBytes body, none, none, none⟩,
        .nonStream 200 [] [] none, ⟨"chat", "up", "now", 0⟩⟩
    let es : List Event := [.openForRecord false, .openForRecord true,
      .append false (exchange "a")] ++ [.append true (exchange "b")]
    let s := Runs.run (step .exact "c.json") (start fun _ => none) es
    interactions .exact "c.json" (fun _ => none) = some [] ∧
      Runs.collect (step .exact "c.json") (acknowledged .exact) (start fun _ => none) es =
        [exchange "a", exchange "b"] ∧
      interactions .exact "c.json" s.dir = some [exchange "b"] := by
  intro exchange es s
  refine ⟨rfl, by decide +kernel, ?_⟩
  have hhandle : (Runs.run (step .exact "c.json") (start fun _ => none) [.openForRecord false,
      .openForRecord true, .append false (exchange "a")]).handles true = some ⟨"c.json", .new⟩ := by
    decide +kernel
  rcases @append_cases .exact "c.json" (Runs.run (step .exact "c.json")
    (start fun _ => none) [.openForRecord false, .openForRecord true,
      .append false (exchange "a")]) true (exchange "b") with
    ⟨hnone, -, -⟩ | ⟨store, hstore, -, hcontent, -⟩
  · rw [hhandle] at hnone
    cases hnone
  · obtain rfl : ⟨"c.json", .new⟩ = store := Option.some.inj (hhandle.symm.trans hstore)
    have hread := Cassette.fromReader_exact (c := ⟨1, [exchange "b"]⟩) (by decide +kernel) rfl
    rw [show s = _ from Runs.run_concat _ _ _]
    exact interactions_of_some hcontent hread

end Shared

end SpycatcherHarness
