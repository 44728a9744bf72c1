import SpycatcherHarness.Cassette.Canonical.RemovalOrder
import SpycatcherHarness.Cassette.Canonical.Request
import SpycatcherHarness.Cassette.Diff.Changes

/-!
# Reading a summary back

A summary is written for people: its lines are joined by line feeds, and a path is its keys joined
by dots, with the indices in brackets.  Strings are quoted, so that a value never breaks a line.
Keys are written as they are, and they come from the client.

* `Diff.split_canonicalDiffSummary` : where no key breaks a line, there is one line for each change.
* `Diff.place_eq_of_renderPath` : places whose keys hold neither dots nor inner brackets are told
  apart by their paths.
* `Diff.canonicalDiffSummary_read_back` : what a summary of two canonical requests says.
* `Diff.not_read_back` : keys with a dot, with a bracket and with a line feed.
-/

namespace SpycatcherHarness

open Canonical

/-! ### Blocks -/

section
variable {α : Type*} {p : α → Bool}

/-- A delimiter and what follows it up to the next one. -/
def Block (p : α → Bool) (block : List α) : Prop :=
  ∃ c cs, block = c :: cs ∧ p c = true ∧ ∀ d ∈ cs, p d = false

theorem takeWhile_append_blocks {cs : List α} {blocks : List (List α)}
    (hcs : ∀ d ∈ cs, p d = false) (hblocks : ∀ b ∈ blocks, Block p b) :
    (cs ++ blocks.flatten).takeWhile (fun d => !p d) = cs := by
  rw [List.takeWhile_append_of_pos fun d hd => by rw [hcs d hd]; rfl]
  cases blocks with
  | nil => simp
  | cons b blocks =>
    obtain ⟨c, ds, rfl, hc, -⟩ := hblocks b List.mem_cons_self
    rw [List.flatten_cons, List.cons_append, List.takeWhile_cons_of_neg (by simp [hc]),
      List.append_nil]

/-- A text is cut into blocks in one way only. -/
theorem flatten_blocks_injective {xs ys : List (List α)} (hxs : ∀ b ∈ xs, Block p b)
    (hys : ∀ b ∈ ys, Block p b) (h : xs.flatten = ys.flatten) : xs = ys := by
  induction xs generalizing ys with
  | nil =>
    cases ys with
    | nil => rfl
    | cons b ys =>
      obtain ⟨c, cs, rfl, -⟩ := hys b List.mem_cons_self
      cases h
  | cons b xs ih =>
    obtain ⟨⟨c, cs, rfl, hc, hcs⟩, hxs'⟩ := List.forall_mem_cons.1 hxs
    cases ys with
    | nil => cases h
    | cons b' ys =>
      obtain ⟨⟨c', cs', rfl, -, hcs'⟩, hys'⟩ := List.forall_mem_cons.1 hys
      rw [List.flatten_cons, List.flatten_cons, List.cons_append, List.cons_append,
        List.cons.injEq] at h
      obtain ⟨rfl, hrest⟩ := h
      -- the first block ends where the next delimiter stands
      have hhead : cs = cs' := by
        rw [← takeWhile_append_blocks hcs hxs', hrest, takeWhile_append_blocks hcs' hys']
      subst hhead
      rw [ih hxs' hys' (List.append_cancel_left hrest)]

end

namespace Diff

/-! ### Paths -/

/-- A segment behind what comes before it. -/
def mark (segment : String) : List Char :=
  if (Str.stripPrefix '[' segment).isSome then segment.toList else '.' :: segment.toList

theorem toList_formatPath {pre : String} (hpre : pre ≠ "") (segment : String) :
    (formatPath pre segment).toList = pre.toList ++ mark segment := by
  have hempty : pre.isEmpty = false := by simpa using hpre
  unfold formatPath mark
  rw [hempty]
  split_ifs <;> simp_all

theorem toList_renderPath {pre : String} (hpre : pre ≠ "") (place : List Step) :
    (renderPath pre place).toList =
      pre.toList ++ (place.map fun step => mark step.segment).flatten := by
  induction place generalizing pre with
  | nil => simp [renderPath]
  | cons step place ih =>
    have hne : formatPath pre step.segment ≠ "" := by
      intro h
      have hnil := congrArg String.toList h
      rw [toList_formatPath hpre] at hnil
      exact hpre (String.toList_eq_nil_iff.1 (List.append_eq_nil_iff.1 hnil).1)
    have hrec := ih hne
    rw [toList_formatPath hpre] at hrec
    rw [List.map_cons, List.flatten_cons, ← List.append_assoc, ← hrec]
    rfl

/-- Different segments are marked differently. -/
theorem mark_injective : Function.Injective mark := by
  have hsome : ∀ s : String, (Str.stripPrefix '[' s).isSome → ∃ cs, s.toList = '[' :: cs := by
    intro s hs
    obtain ⟨t, ht⟩ := Option.isSome_iff_exists.1 hs
    exact ⟨_, Str.stripPrefix_eq_some_iff.1 ht⟩
  intro s t h
  unfold mark at h
  split_ifs at h with hs ht ht
  · exact String.toList_inj.1 h
  · obtain ⟨cs, hcs⟩ := hsome s hs
    rw [hcs] at h
    cases h
  · obtain ⟨cs, hcs⟩ := hsome t ht
    rw [hcs] at h
    cases h
  · exact String.toList_inj.1 (List.cons.inj h).2

/-- A key without dots, and without brackets behind its first character. -/
def Step.Plain : Step → Prop
  | .key name => '.' ∉ name.toList ∧ '[' ∉ name.toList.tail
  | .index _ => True

instance (step : Step) : Decidable step.Plain :=
  match step with
  | .key name => inferInstanceAs (Decidable ('.' ∉ name.toList ∧ '[' ∉ name.toList.tail))
  | .index _ => inferInstanceAs (Decidable True)

/-- What separates the segments of a path. -/
def delimiter (c : Char) : Bool := c == '.' || c == '['

theorem delimiter_eq_false_iff {c : Char} : delimiter c = false ↔ c ≠ '.' ∧ c ≠ '[' := by
  simp [delimiter]

theorem toList_indexSegment (i : ℕ) :
    (indexSegment i).toList = '[' :: (i.repr.toList ++ [']']) := by
  simp [indexSegment]

theorem block_mark {step : Step} (h : step.Plain) : Block delimiter (mark step.segment) := by
  cases step with
  | key name =>
    obtain ⟨hdot, hbracket⟩ := h
    rw [Step.segment, mark, Str.stripPrefix]
    cases hname : name.toList with
    | nil => exact ⟨'.', [], rfl, rfl, fun d hd => absurd hd List.not_mem_nil⟩
    | cons c cs =>
      rw [hname, List.mem_cons, not_or] at hdot
      rw [hname, List.tail_cons] at hbracket
      have hcs : ∀ d ∈ cs, delimiter d = false := fun d hd =>
        delimiter_eq_false_iff.2 ⟨fun h => hdot.2 (h ▸ hd), fun h => hbracket (h ▸ hd)⟩
      by_cases hc : c = '['
      · exact ⟨c, cs, by simp [hc], by simp [hc, delimiter], hcs⟩
      · refine ⟨'.', c :: cs, by simp [hc], rfl, List.forall_mem_cons.2 ⟨?_, hcs⟩⟩
        exact delimiter_eq_false_iff.2 ⟨Ne.symm hdot.1, hc⟩
  | index i =>
    have hprefix : Str.stripPrefix '[' (indexSegment i) = some (i.repr ++ "]") :=
      Str.stripPrefix_eq_some_iff.2 (by rw [toList_indexSegment, String.toList_append]; rfl)
    rw [Step.segment, mark, hprefix]
    refine ⟨'[', i.repr.toList ++ [']'], toList_indexSegment i, rfl, fun d hd => ?_⟩
    rcases List.mem_append.1 hd with hd | hd
    · rw [Nat.toList_repr] at hd
      have hdigit := Nat.isDigit_of_mem_toDigits (by decide) (by decide) hd
      refine delimiter_eq_false_iff.2 ⟨?_, ?_⟩ <;> (rintro rfl; cases hdigit)
    · rw [List.mem_singleton.1 hd]
      rfl

/-- Places whose keys can be told apart, below a root that is no index, are told apart by the
segments in their paths. -/
theorem map_segment_of_renderPath {root root' : String} {place other : List Step}
    (hroot : root ≠ "" ∧ mark root = '.' :: root.toList)
    (hroot' : root' ≠ "" ∧ mark root' = '.' :: root'.toList)
    (hplace : ∀ step ∈ Step.key root :: place, step.Plain)
    (hother : ∀ step ∈ Step.key root' :: other, step.Plain)
    (h : renderPath "" (.key root :: place) = renderPath "" (.key root' :: other)) :
    (Step.key root :: place).map Step.segment = (Step.key root' :: other).map Step.segment := by
  -- with a dot before it, a path is the blocks of its segments
  have hpath : ∀ {root : String} (place : List Step),
      root ≠ "" ∧ mark root = '.' :: root.toList →
      '.' :: (renderPath "" (.key root :: place)).toList =
        ((Step.key root :: place).map fun step => mark step.segment).flatten := by
    rintro root place ⟨hne, hmark⟩
    have hcons : renderPath "" (.key root :: place) = renderPath root place := rfl
    rw [hcons, toList_renderPath hne, List.map_cons, List.flatten_cons, Step.segment, hmark,
      List.cons_append]
  have hblocks : ∀ {steps : List Step}, (∀ step ∈ steps, step.Plain) →
      ∀ b ∈ steps.map fun step => mark step.segment, Block delimiter b := by
    intro steps hsteps b hb
    obtain ⟨step, hstep, rfl⟩ := List.mem_map.1 hb
    exact block_mark (hsteps step hstep)
  have hmap : ∀ steps : List Step, (steps.map fun step => mark step.segment) =
      (steps.map Step.segment).map mark := by
    intro steps
    rw [List.map_map]
    rfl
  have hflatten := (hpath place hroot).symm.trans ((congrArg _ (congrArg _ h)).trans
    (hpath other hroot'))
  have hmarks := flatten_blocks_injective (hblocks hplace) (hblocks hother) hflatten
  rw [hmap, hmap] at hmarks
  exact mark_injective.list_map hmarks

/-! ### Places -/

/-- What a step leads to. -/
def child : Json → Step → Option Json
  | .object es, .key name => Json.lookup name es
  | .array xs, .index i => xs[i]?
  | _, _ => none

/-- The first step of a place is a key in an object and an index in an array. -/
theorem step_of_differs {v w : Json} {step : Step} {place : List Step} {kind : Kind}
    (h : Differs v w (step :: place) kind) :
    (∃ es name, v = .object es ∧ step = .key name) ∨ ∃ xs i, v = .array xs ∧ step = .index i := by
  cases h with
  | removedKey | addedKey | underKey => exact .inl ⟨_, _, rfl, rfl⟩
  | removedItem | addedItem | underItem => exact .inr ⟨_, _, rfl, rfl⟩

/-- A place that goes on leads through both values. -/
theorem child_of_differs {v w : Json} {step next : Step} {place : List Step} {kind : Kind}
    (h : Differs v w (step :: next :: place) kind) :
    ∃ v' w', child v step = some v' ∧ child w step = some w' ∧
      Differs v' w' (next :: place) kind := by
  cases h with
  | underKey hv hw h => exact ⟨_, _, hv, hw, h⟩
  | underItem hv hw h => exact ⟨_, _, hv, hw, h⟩

theorem indexSegment_injective : Function.Injective indexSegment := by
  intro i j h
  have hchars := congrArg String.toList h
  rw [toList_indexSegment, toList_indexSegment] at hchars
  exact repr_injective (String.toList_inj.1 (List.append_cancel_right (List.cons.inj hchars).2))

/-- Differences between the same two values whose places have the same segments are at the same
place. -/
theorem place_eq_of_map_segment {v w : Json} {place other : List Step} {kind kind' : Kind}
    (h : Differs v w place kind) (h' : Differs v w other kind')
    (heq : place.map Step.segment = other.map Step.segment) : place = other := by
  induction place generalizing v w other with
  | nil => exact (List.map_eq_nil_iff.1 heq.symm).symm
  | cons step place ih =>
    cases other with
    | nil => cases heq
    | cons step' other =>
      rw [List.map_cons, List.map_cons, List.cons.injEq] at heq
      obtain ⟨hsegment, hrest⟩ := heq
      have hstep : step = step' := by
        rcases step_of_differs h with ⟨es, name, rfl, rfl⟩ | ⟨xs, i, rfl, rfl⟩
        · rcases step_of_differs h' with ⟨fs, name', -, rfl⟩ | ⟨ys, j, hv, -⟩
          · exact congrArg Step.key hsegment
          · cases hv
        · rcases step_of_differs h' with ⟨fs, name', hv, -⟩ | ⟨ys, j, -, rfl⟩
          · cases hv
          · exact congrArg Step.index (indexSegment_injective hsegment)
      subst hstep
      cases place with
      | nil => rw [List.map_eq_nil_iff.1 hrest.symm]
      | cons next place =>
        cases other with
        | nil => cases hrest
        | cons next' other =>
          -- both places go on below the same two values
          obtain ⟨v', w', hv, hw, hbelow⟩ := child_of_differs h
          obtain ⟨v'', w'', hv', hw', hbelow'⟩ := child_of_differs h'
          obtain rfl := Option.some.inj (hv.symm.trans hv')
          obtain rfl := Option.some.inj (hw.symm.trans hw')
          rw [ih hbelow hbelow' hrest]

/-- The keys of a canonical request. -/
def requestKeys : List String := ["method", "path", "canonical_query", "canonical_body"]

theorem requestKeys_mark : ∀ root ∈ requestKeys, root ≠ "" ∧ mark root = '.' :: root.toList := by
  decide

/-- Two canonical requests differ below their keys. -/
theorem root_of_differs {c d : CanonicalRequest} {place : List Step} {kind : Kind}
    (h : Differs (canonicalRequestValue c) (canonicalRequestValue d) place kind) :
    ∃ root ∈ requestKeys, ∃ rest, place = .key root :: rest := by
  have hkeys : ∀ {c : CanonicalRequest} {name v},
      child (canonicalRequestValue c) (.key name) = some v → name ∈ requestKeys := by
    intro c name v hlookup
    exact List.mem_map_of_mem (f := Prod.fst) (Json.mem_of_lookup hlookup)
  unfold canonicalRequestValue at h
  cases h with
  | changed _ hsame => cases hsame
  | removedKey hsome _ => exact ⟨_, hkeys hsome, _, rfl⟩
  | addedKey _ hsome => exact ⟨_, hkeys hsome, _, rfl⟩
  | underKey hsome _ _ => exact ⟨_, hkeys hsome, _, rfl⟩

/-- **Paths tell places apart.**  Two differences between canonical requests whose places have the
same path are at the same place, unless a key in one of them has a dot, or a bracket behind its
first character. -/
theorem place_eq_of_renderPath {c d : CanonicalRequest} {place other : List Step}
    {kind kind' : Kind}
    (h : Differs (canonicalRequestValue c) (canonicalRequestValue d) place kind)
    (h' : Differs (canonicalRequestValue c) (canonicalRequestValue d) other kind')
    (hplace : ∀ step ∈ place, step.Plain) (hother : ∀ step ∈ other, step.Plain)
    (heq : renderPath "" place = renderPath "" other) : place = other := by
  obtain ⟨root, hroot, rest, rfl⟩ := root_of_differs h
  obtain ⟨root', hroot', rest', rfl⟩ := root_of_differs h'
  exact place_eq_of_map_segment h h' (map_segment_of_renderPath (requestKeys_mark root hroot)
    (requestKeys_mark root' hroot') hplace hother heq)

/-! ### Lines -/

/-- A key without line feeds. -/
def Step.OneLine : Step → Prop
  | .key name => '\n' ∉ name.toList
  | .index _ => True

instance (step : Step) : Decidable step.OneLine :=
  match step with
  | .key name => inferInstanceAs (Decidable ('\n' ∉ name.toList))
  | .index _ => inferInstanceAs (Decidable True)

theorem not_mem_indexSegment (i : ℕ) : '\n' ∉ (indexSegment i).toList := by
  intro h
  rw [toList_indexSegment, Nat.toList_repr] at h
  have hmem : '\n' ∈ Nat.toDigits 10 i := by simpa using h
  cases Nat.isDigit_of_mem_toDigits (by decide) (by decide) hmem

theorem not_mem_compactValueString (v : Json) : '\n' ∉ (compactValueString v).toList := by
  cases v with
  | string s =>
    rw [compactValueString, String.toList_ofList]
    exact Json.not_mem_quote s
  | number n => exact fun h => by cases Number.isNumberChar_toText n _ h
  | bool b => cases b <;> decide
  | null => decide
  | array xs =>
    rw [compactValueString]
    decide
  | object es =>
    rw [compactValueString]
    decide

theorem not_mem_formatPath {pre segment : String} (hpre : '\n' ∉ pre.toList)
    (hsegment : '\n' ∉ segment.toList) : '\n' ∉ (formatPath pre segment).toList := by
  unfold formatPath
  split_ifs <;> simp [hpre, hsegment]

theorem not_mem_renderPath {pre : String} {place : List Step} (hpre : '\n' ∉ pre.toList)
    (hplace : ∀ step ∈ place, step.OneLine) : '\n' ∉ (renderPath pre place).toList := by
  induction place generalizing pre with
  | nil => exact hpre
  | cons step place ih =>
    obtain ⟨hstep, hplace⟩ := List.forall_mem_cons.1 hplace
    refine ih (not_mem_formatPath hpre ?_) hplace
    cases step with
    | key name => exact hstep
    | index i => exact not_mem_indexSegment i

/-- The line of a change whose keys have no line feeds is one line. -/
theorem not_mem_render {change : Change} (h : ∀ step ∈ change.place, step.OneLine) :
    '\n' ∉ (render "" change).toList := by
  have hempty : '\n' ∉ "".toList := by decide
  have hpath := not_mem_renderPath hempty h
  obtain ⟨place, kind⟩ := change
  cases kind with
  | removed => simpa [render, removed] using hpath
  | added value => simpa [render, added, not_mem_compactValueString] using hpath
  | changed expected observed =>
    simp only [render, diffScalarOrTypeMismatch]
    split_ifs <;> simp [not_mem_compactValueString, hpath]

/-- A summary of changes whose keys have no line feeds is split into the lines of the changes. -/
theorem split_canonicalDiffSummary {expected observed : Json}
    (hne : changes expected observed ≠ [])
    (hkeys : ∀ change ∈ changes expected observed, ∀ step ∈ change.place, step.OneLine) :
    Str.split '\n' (canonicalDiffSummary expected observed) =
      (changes expected observed).map (render "") := by
  have hjoin : ∀ lines : List String, "\n".intercalate lines = Str.join '\n' lines := by
    intro lines
    rw [← String.toList_inj, String.toList_intercalate]
    exact String.toList_ofList.symm
  rw [canonicalDiffSummary, diffRecursive_eq, hjoin]
  refine Str.split_join (by simpa using hne) fun line hline => ?_
  obtain ⟨change, hchange, rfl⟩ := List.mem_map.1 hline
  exact not_mem_render (hkeys change hchange)

/-! ### Both together -/

/-- **Reading back.**  The summary of two canonical requests is empty exactly if there is no
difference.  Otherwise, where no changed place has a key with a line feed, its lines are exactly
one for each difference, each with its label; and differences at different places have different
paths, unless a key in one of the places has a dot, or a bracket behind its first character. -/
theorem canonicalDiffSummary_read_back {c d : CanonicalRequest} (hc : c.Wf) (hd : d.Wf) :
    let expected := canonicalRequestValue c
    let observed := canonicalRequestValue d
    (∀ place kind, ⟨place, kind⟩ ∈ changes expected observed ↔
      Differs expected observed place kind) ∧
    ((changes expected observed).map Change.place).Nodup ∧
    (canonicalDiffSummary expected observed = "" ↔ changes expected observed = []) ∧
    (changes expected observed ≠ [] →
      (∀ change ∈ changes expected observed, ∀ step ∈ change.place, step.OneLine) →
      Str.split '\n' (canonicalDiffSummary expected observed) =
        (changes expected observed).map (render "")) ∧
    (∀ change ∈ changes expected observed, Labelled (render "" change)) ∧
    ∀ change ∈ changes expected observed, ∀ change' ∈ changes expected observed,
      (∀ step ∈ change.place, step.Plain) → (∀ step ∈ change'.place, step.Plain) →
      change.place ≠ change'.place → renderPath "" change.place ≠ renderPath "" change'.place := by
  intro expected observed
  have hmem : ∀ place kind, ⟨place, kind⟩ ∈ changes expected observed ↔
      Differs expected observed place kind := fun place kind =>
    mem_changes (canonicalRequestValue_wf hc) (canonicalRequestValue_wf hd) (Or.inr rfl)
  refine ⟨hmem, nodup_changes (canonicalRequestValue_wf hc) (canonicalRequestValue_wf hd),
    canonicalDiffSummary_eq_empty_iff, split_canonicalDiffSummary,
    fun change _ => labelled_render "" change, ?_⟩
  intro change hchange change' hchange' hplain hplain' hne heq
  exact hne (place_eq_of_renderPath ((hmem _ _).1 hchange) ((hmem _ _).1 hchange') hplain hplain'
    heq)

/-- A null and a line feed in an array are read back. -/
theorem canonicalDiffSummary_read_back_items :
    let canonical (v : Json) : CanonicalRequest :=
      ⟨"POST", "/v1/chat/completions", "", some (.object [("x", .array [.null, v])])⟩
    let differences : List Change := changes (canonicalRequestValue (canonical .null))
      (canonicalRequestValue (canonical (.string "\n")))
    Str.split '\n' (canonicalDiffSummary (canonicalRequestValue (canonical .null))
      (canonicalRequestValue (canonical (.string "\n")))) = differences.map (render "") ∧
    differences.map (render "") = ["changed: canonical_body.x[1]: null -> \"\\n\""] := by
  intro canonical differences
  have hnull : (canonical .null).Wf := by rintro _ ⟨⟩; decide
  have hstring : (canonical (.string "\n")).Wf := by rintro _ ⟨⟩; decide
  obtain ⟨-, -, -, hsplit, -⟩ := canonicalDiffSummary_read_back hnull hstring
  exact ⟨hsplit (by decide +kernel) (by decide +kernel), by decide +kernel⟩

/-- A key with a dot and a key with a bracket have the path of another place, and a key with a line
feed breaks its line in two. -/
theorem not_read_back :
    let canonical (body : Json) : Json :=
      canonicalRequestValue ⟨"POST", "/v1/chat/completions", "", some body⟩
    let differences (body : Json → Json) : List Change :=
      changes (canonical (body .null)) (canonical (body (.bool true)))
    let Ambiguous (body : Json → Json) : Prop :=
      ∃ change ∈ differences body, ∃ change' ∈ differences body,
        change.place ≠ change'.place ∧ renderPath "" change.place = renderPath "" change'.place
    let broken (v : Json) : Json := .object [("a\nb", v)]
    Ambiguous (fun v => .object [("a", .object [("b", v)]), ("a.b", v)]) ∧
    Ambiguous (fun v => .object [("a", .array [v]), ("a[0]", v)]) ∧
    (differences broken).length = 1 ∧
    Str.split '\n' (canonicalDiffSummary (canonical (broken .null))
      (canonical (broken (.bool true)))) = ["changed: canonical_body.a", "b: null -> true"] := by
  decide +kernel

end Diff

end SpycatcherHarness
