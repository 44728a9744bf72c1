import SpycatcherHarness.Cassette.Canonical.Prune

/-!
# Which ignored paths are errors

Configured paths are checked before any request is seen, and walked in the body of every request.

* `Canonical.prune_of_addresses` : a path that addresses nothing in a body changes nothing in it.
* `validationDecides_iff` : the check alone decides whether canonicalizing fails, except where a
  path that passed it reaches an array with a token that is no index.
* `not_validationDecides` : such a path and body.
-/

namespace SpycatcherHarness

namespace Canonical

/-- Walking the tokens in a value ends at a node of it. -/
inductive Addresses : List PointerToken → Json → Prop
  | root {v : Json} : Addresses [] v
  | item {i : ℕ} {rest : List PointerToken} {items : List Json} {next : Json} :
      items[i]? = some next → Addresses rest next → Addresses (i.repr :: rest) (.array items)
  | entry {key : PointerToken} {rest : List PointerToken} {es : List (String × Json)}
      {next : Json} : Json.lookup key es = some next → Addresses rest next →
      Addresses (key :: rest) (.object es)

/-- Pruning looks only at places that a value has. -/
theorem prune_of_addresses {v : Json} (hv : v.Wf) :
    ∀ {gone gone' : List PointerToken → Bool},
      (∀ place, Addresses place v → gone place = gone' place) → prune gone v = prune gone' v := by
  induction v using Json.induct with
  | null | bool b | number n | string s => intro gone gone' _; rfl
  | array xs ih =>
    intro gone gone' h
    rw [prune, prune, pruneItems_congr_item fun j x hx => ?_]
    have hmem := List.mem_of_getElem? hx
    rw [Nat.zero_add]
    exact ⟨h _ (.item hx .root),
      ih x hmem (Json.wf_array.1 hv x hmem) fun place hplace => h _ (.item hx hplace)⟩
  | object es ih =>
    intro gone gone' h
    obtain ⟨hkeys, hwf⟩ := Json.wf_object.1 hv
    have hlookup : ∀ e ∈ es, Json.lookup e.1 es = some e.2 := fun e he =>
      (lookup_eq_some_iff hkeys).2 he
    rw [prune, prune, pruneEntries_eq, pruneEntries_eq,
      List.filter_congr fun e he => by rw [h _ (.entry (hlookup e he) .root)]]
    congr 1
    refine List.map_congr_left fun e he => ?_
    have he := List.mem_of_mem_filter he
    rw [ih e he (hwf e he) fun place hplace => h _ (.entry (hlookup e he) hplace)]

end Canonical

open Canonical

/-- The check of the configured paths alone decides whether canonicalizing a request fails. -/
structure ValidationDecides (request : RecordedRequest) (ignoreConfig : IgnorePathConfig) :
    Prop where
  /-- A configuration that passes the check never fails. -/
  accepted : validateIgnorePaths ignoreConfig = .ok () →
    ∃ canonical, canonicalize request ignoreConfig = .ok canonical
  /-- A path that addresses nothing in the body changes nothing. -/
  unmatched : validateIgnorePaths ignoreConfig = .ok () → ∀ before path after,
    ignoreConfig.ignoredBodyPaths = before ++ path :: after →
    (∀ body tokens, request.parsedJson = some body → parseJsonPointer path = some tokens →
      ¬ Addresses tokens body) →
    canonicalize request ignoreConfig = canonicalize request ⟨before ++ after⟩
  /-- A path is reported exactly for the configurations that do not pass the check. -/
  rejected : (∃ path, canonicalize request ignoreConfig = .error (.invalidPointerPath path)) ↔
    ∃ path, validateIgnorePaths ignoreConfig = .error (.invalidPointerPath path)

/-! ### The check and the walk -/

/-- The canonical form of a request with a canonical body. -/
def withCanonicalBody (request : RecordedRequest) (canonicalBody : Option Json) :
    CanonicalRequest :=
  { canonicalForm request with canonicalBody }

theorem canonicalize_of_none {request : RecordedRequest} {ignoreConfig : IgnorePathConfig}
    (h : validateIgnorePaths ignoreConfig = .ok ()) (hbody : request.parsedJson = none) :
    canonicalize request ignoreConfig = .ok (withCanonicalBody request none) := by
  rw [canonicalize, h, hbody]
  rfl

theorem canonicalize_of_some {request : RecordedRequest} {ignoreConfig : IgnorePathConfig}
    {body : Json} (h : validateIgnorePaths ignoreConfig = .ok ())
    (hbody : request.parsedJson = some body) : canonicalize request ignoreConfig =
      (canonicalizeBody body ignoreConfig.ignoredBodyPaths).map fun v =>
        withCanonicalBody request (some v) := by
  rw [canonicalize, h, hbody]
  simp only [bind, Except.bind]
  cases canonicalizeBody body ignoreConfig.ignoredBodyPaths <;> rfl

theorem canonicalize_of_rejected {request : RecordedRequest} {ignoreConfig : IgnorePathConfig} {e}
    (h : validateIgnorePaths ignoreConfig = .error e) :
    canonicalize request ignoreConfig = .error e := by
  rw [canonicalize, h]
  rfl

/-- Without a misaddressed path, the canonical body is the pruned body with sorted keys. -/
theorem canonicalizeBody_of_addressed {body : Json} {paths : List String} (hbody : body.Wf)
    (hpaths : validateIgnorePaths ⟨paths⟩ = .ok ()) (h : ¬ SomeMisaddressed paths body) :
    canonicalizeBody body paths = .ok (sortJsonValue (prune (addressed paths) body)) := by
  have hparse : ∀ path ∈ paths, (parseJsonPointer path).isSome := fun path hpath =>
    parseJsonPointer_isSome (validateIgnorePaths_eq_ok.1 hpaths path hpath)
  exact ((canonicalizeBody_cases hbody hparse).resolve_right fun hbad => h hbad.1).2

theorem validateIgnorePaths_of_subset {paths others : List String}
    (h : validateIgnorePaths ⟨paths⟩ = .ok ()) (hsub : ∀ path ∈ others, path ∈ paths) :
    validateIgnorePaths ⟨others⟩ = .ok () :=
  validateIgnorePaths_eq_ok.2 fun path hpath => validateIgnorePaths_eq_ok.1 h path (hsub path hpath)

/-- A path that addresses nothing in a body can be left out. -/
theorem canonicalizeBody_unmatched {body : Json} {before after : List String} {path : String}
    (hbody : body.Wf) (hpaths : validateIgnorePaths ⟨before ++ path :: after⟩ = .ok ())
    (h : ¬ SomeMisaddressed (before ++ path :: after) body)
    (hunmatched : ∀ tokens, parseJsonPointer path = some tokens → ¬ Addresses tokens body) :
    canonicalizeBody body (before ++ path :: after) = canonicalizeBody body (before ++ after) := by
  have hsub : ∀ p ∈ before ++ after, p ∈ before ++ path :: after :=
    (List.Sublist.append_left (List.sublist_cons_self path after) before).subset
  have hrest := validateIgnorePaths_of_subset hpaths hsub
  have haddressed : ¬ SomeMisaddressed (before ++ after) body := fun ⟨p, hp, hbad⟩ =>
    h ⟨p, hsub p hp, hbad⟩
  rw [canonicalizeBody_of_addressed hbody hpaths h,
    canonicalizeBody_of_addressed hbody hrest haddressed]
  congr 2
  refine prune_of_addresses hbody fun place hplace => ?_
  have hpath : parseJsonPointer path ≠ some place := fun hp => hunmatched place hp hplace
  simp [addressed, hpath]

/-- **When the check decides.**  It does exactly if no path that passed it, walked in the request's
body, reaches an array with a token that is no index. -/
theorem validationDecides_iff {request : RecordedRequest} (ignoreConfig : IgnorePathConfig)
    (hbody : ∀ body, request.parsedJson = some body → body.Wf) :
    ValidationDecides request ignoreConfig ↔
      (validateIgnorePaths ignoreConfig = .ok () → ∀ body, request.parsedJson = some body →
        ∀ path ∈ ignoreConfig.ignoredBodyPaths, ∀ tokens, parseJsonPointer path = some tokens →
          ¬ Misaddressed tokens body) := by
  constructor
  · rintro ⟨haccepted, -, -⟩ hvalid body hparsed path hpath tokens htokens hbad
    obtain ⟨canonical, hcanonical⟩ := haccepted hvalid
    obtain ⟨e, he⟩ := (canonicalizeBody_simultaneous (hbody body hparsed) hvalid).2.2.2
      ⟨path, hpath, tokens, htokens, hbad⟩
    rw [canonicalize_of_some hvalid hparsed, he] at hcanonical
    cases hcanonical
  · intro h
    have haccepted : validateIgnorePaths ignoreConfig = .ok () →
        ∃ canonical, canonicalize request ignoreConfig = .ok canonical := by
      intro hvalid
      cases hparsed : request.parsedJson with
      | none => exact ⟨_, canonicalize_of_none hvalid hparsed⟩
      | some body =>
        have hok := canonicalizeBody_of_addressed (hbody body hparsed) hvalid
          fun ⟨path, hpath, tokens, htokens, hbad⟩ =>
            h hvalid body hparsed path hpath tokens htokens hbad
        exact ⟨_, by rw [canonicalize_of_some hvalid hparsed, hok]; rfl⟩
    refine ⟨haccepted, ?_, ?_⟩
    · obtain ⟨paths⟩ := ignoreConfig
      rintro hvalid before path after rfl hunmatched
      have hrest := validateIgnorePaths_of_subset hvalid
        (List.Sublist.append_left (List.sublist_cons_self path after) before).subset
      cases hparsed : request.parsedJson with
      | none => rw [canonicalize_of_none hvalid hparsed, canonicalize_of_none hrest hparsed]
      | some body =>
        have heq := canonicalizeBody_unmatched (hbody body hparsed) hvalid
          (fun ⟨path, hpath, tokens, htokens, hbad⟩ =>
            h hvalid body hparsed path hpath tokens htokens hbad)
          fun tokens htokens => hunmatched body tokens hparsed htokens
        rw [canonicalize_of_some hvalid hparsed, canonicalize_of_some hrest hparsed, heq]
    · constructor
      · rintro ⟨path, herr⟩
        cases hvalid : validateIgnorePaths ignoreConfig with
        | ok _ =>
          obtain ⟨canonical, hcanonical⟩ := haccepted hvalid
          rw [hcanonical] at herr
          cases herr
        | error e => exact ⟨e.1, rfl⟩
      · rintro ⟨path, hvalid⟩
        exact ⟨path, canonicalize_of_rejected hvalid⟩

/-- A path into an object that is met as a path into an object. -/
theorem validationDecides_iff_object :
    ValidationDecides ⟨"POST", "/v1", "", [], [], some (.object [("a", .object [])]), none, none⟩
      ⟨["/a/b"]⟩ := by
  refine (validationDecides_iff ⟨["/a/b"]⟩ (by rintro _ ⟨⟩; decide)).2 ?_
  rintro - _ ⟨⟩ path hpath tokens htokens hbad
  obtain rfl := List.mem_singleton.1 hpath
  obtain rfl : tokens = ["a", "b"] := Option.some.inj (htokens.symm.trans (by decide +kernel))
  obtain ⟨next, hnext, hbad⟩ := misaddressed_object.1 hbad
  obtain rfl : next = .object [] := Option.some.inj (hnext.symm.trans (by decide))
  obtain ⟨_, hnone, -⟩ := misaddressed_object.1 hbad
  cases hnone

/-- The same path, met where the request has a list: it passes the check, and every such request
is an error. -/
theorem not_validationDecides :
    validateIgnorePaths ⟨["/a/b"]⟩ = .ok () ∧
      canonicalize
          ⟨"POST", "/v1", "", [], [], some (.object [("a", .array [.null])]), none, none⟩
          ⟨["/a/b"]⟩ = .error (.invalidPointerPath "/a/b") ∧
      ¬ ValidationDecides
          ⟨"POST", "/v1", "", [], [], some (.object [("a", .array [.null])]), none, none⟩
          ⟨["/a/b"]⟩ := by
  have hvalid : validateIgnorePaths ⟨["/a/b"]⟩ = .ok () := by decide +kernel
  have herr : canonicalize
      ⟨"POST", "/v1", "", [], [], some (.object [("a", .array [.null])]), none, none⟩
      ⟨["/a/b"]⟩ = .error (.invalidPointerPath "/a/b") := by decide +kernel
  refine ⟨hvalid, herr, fun h => ?_⟩
  obtain ⟨canonical, hcanonical⟩ := h.accepted hvalid
  rw [herr] at hcanonical
  cases hcanonical

end SpycatcherHarness
