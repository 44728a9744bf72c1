import SpycatcherHarness.Cassette.Canonical.Removal
import SpycatcherHarness.Cassette.Types
import SpycatcherHarness.Crypto.Sha256

/-!
# Canonical requests and their hashes

A recorded request is reduced to a method in upper case, a path, a canonical query and a canonical
body, and hashed over the text of these four as one JSON object.  The hash function is a parameter
`sha256`.

* `preimage_eq_iff` : the hashed bytes determine the four parts, except that a request without a
  body is hashed like a request with the body `null`.
* `preimage_unambiguous` : so it is for every request with a canonical body, and the hashed bytes
  are a JSON text that is read back as the four parts.
* `preimage_canonicalForm` : what that says about the requests themselves.
-/

namespace SpycatcherHarness

open Canonical

/-- Request-body fields ignored during canonicalization, as JSON Pointers. -/
structure IgnorePathConfig where
  ignoredBodyPaths : List String

/-- `IgnorePathConfig::default`. -/
def IgnorePathConfig.default : IgnorePathConfig := ⟨[]⟩

/-- A request reduced to a deterministic shape for matching and hashing. -/
structure CanonicalRequest where
  /-- Method in upper case. -/
  method : String
  path : String
  /-- Query parameters sorted by key then value and re-encoded. -/
  canonicalQuery : String
  /-- Canonical body with sorted keys and ignored paths removed. -/
  canonicalBody : Option Json
  deriving DecidableEq

/-- `str::to_ascii_uppercase`. -/
def toAsciiUppercase (s : String) : String := String.ofList (s.toList.map Char.toUpper)

/-- `is_valid_ignore_path`. -/
def isValidIgnorePath (path : String) : Bool :=
  path != "" && (Str.stripPrefix '/' path).isSome && isValidJsonPointer path

/-- `validate_ignore_paths`: the first path that is not valid is reported. -/
def validateIgnorePaths (ignoreConfig : IgnorePathConfig) : Except CanonicalError Unit :=
  ignoreConfig.ignoredBodyPaths.forM fun path =>
    if isValidIgnorePath path then .ok () else .error (.invalidPointerPath path)

/-- `canonicalize`. -/
def canonicalize (request : RecordedRequest) (ignoreConfig : IgnorePathConfig) :
    Except CanonicalError CanonicalRequest := do
  validateIgnorePaths ignoreConfig
  let canonicalBody ← match request.parsedJson with
    | none => pure none
    | some body => (canonicalizeBody body ignoreConfig.ignoredBodyPaths).map some
  pure
    { method := toAsciiUppercase request.method
      path := request.path
      canonicalQuery := Query.canonicalizeQuery request.query
      canonicalBody }

/-- `canonical_request_value`: an absent body is written as `null`. -/
def canonicalRequestValue (canonical : CanonicalRequest) : Json :=
  .object [
    ("method", .string canonical.method),
    ("path", .string canonical.path),
    ("canonical_query", .string canonical.canonicalQuery),
    ("canonical_body", canonical.canonicalBody.getD .null)]

/-- The bytes that `stable_hash` hashes. -/
def preimage (canonical : CanonicalRequest) : Bytes :=
  Str.asBytes (serializeJsonCanonical (canonicalRequestValue canonical))

section
variable (sha256 : Bytes → Bytes)

/-- `stable_hash`. -/
def stableHash (canonical : CanonicalRequest) : String :=
  Hex.encodeHex (sha256 (preimage canonical))

/-- `RecordedRequest::populate_canonical_fields`. -/
def populateCanonicalFields (request : RecordedRequest) (ignoreConfig : IgnorePathConfig) :
    Except CanonicalError RecordedRequest :=
  (canonicalize request ignoreConfig).map fun canonical =>
    { request with
      stableHash := some (stableHash sha256 canonical)
      canonicalRequest := some (canonicalRequestValue canonical) }

end

/-! ### Without ignored paths -/

/-- The canonical form of a request when no path is ignored. -/
def canonicalForm (request : RecordedRequest) : CanonicalRequest where
  method := toAsciiUppercase request.method
  path := request.path
  canonicalQuery := Query.canonicalizeQuery request.query
  canonicalBody := request.parsedJson.map sortJsonValue

theorem canonicalize_default (request : RecordedRequest) :
    canonicalize request .default = .ok (canonicalForm request) := by
  cases h : request.parsedJson <;>
    simp [canonicalize, canonicalForm, validateIgnorePaths, IgnorePathConfig.default, h,
      canonicalizeBody_nil, Except.map, pure, Except.pure, bind, Except.bind]

/-- Filling in the canonical fields never fails when no path is ignored. -/
theorem populateCanonicalFields_default (sha256 : Bytes → Bytes) (request : RecordedRequest) :
    populateCanonicalFields sha256 request .default = .ok
      { request with
        stableHash := some (stableHash sha256 (canonicalForm request))
        canonicalRequest := some (canonicalRequestValue (canonicalForm request)) } := by
  simp [populateCanonicalFields, canonicalize_default, Except.map]

/-! ### The hashed bytes -/

/-- The body of a canonical request has distinct keys. -/
def CanonicalRequest.Wf (canonical : CanonicalRequest) : Prop :=
  ∀ body, canonical.canonicalBody = some body → body.Wf

theorem canonicalForm_wf {request : RecordedRequest}
    (h : ∀ body, request.parsedJson = some body → body.Wf) : (canonicalForm request).Wf := by
  intro body hbody
  obtain ⟨v, hv, rfl⟩ := Option.map_eq_some_iff.1 hbody
  exact sortJsonValue_wf (h v hv)

theorem canonicalRequestValue_wf {canonical : CanonicalRequest} (h : canonical.Wf) :
    (canonicalRequestValue canonical).Wf := by
  have hbody : (canonical.canonicalBody.getD .null).Wf := by
    cases hb : canonical.canonicalBody with
    | none => trivial
    | some body => exact h body hb
  rw [canonicalRequestValue, Json.wf_object]
  exact ⟨by simp, by simpa using ⟨trivial, trivial, trivial, hbody⟩⟩

/-- The hashed bytes determine the four parts, an absent body counting as `null`. -/
theorem preimage_eq_iff {a b : CanonicalRequest} (ha : a.Wf) (hb : b.Wf) :
    preimage a = preimage b ↔ a.method = b.method ∧ a.path = b.path ∧
      a.canonicalQuery = b.canonicalQuery ∧
      a.canonicalBody.getD .null = b.canonicalBody.getD .null := by
  constructor
  · intro h
    have hvalue := serializeJsonCanonical_injective (canonicalRequestValue_wf ha)
      (canonicalRequestValue_wf hb) (Str.asBytes_injective h)
    simpa [canonicalRequestValue] using hvalue
  · rintro ⟨h1, h2, h3, h4⟩
    simp [preimage, canonicalRequestValue, h1, h2, h3, h4]

/-- The hashed bytes are the compact JSON text of the four parts. -/
theorem parse_preimage {canonical : CanonicalRequest} (h : canonical.Wf) {d : ℕ}
    (hd : (canonicalRequestValue canonical).depth ≤ d) :
    (Str.fromUtf8 (preimage canonical)).bind (fun text => Json.parse d text.toList) =
      some (canonicalRequestValue canonical) := by
  rw [preimage, Str.fromUtf8_asBytes, Option.bind_some, serializeJsonCanonical,
    String.toList_ofList, writeJsonCanonical_eq _ 0]
  exact Json.parse_write Json.compact (canonicalRequestValue_wf h) hd 0

/-- Two requests hashed over the same bytes: the same method up to ASCII case, the same path, the
same decoded query pairs, and bodies that are the same value up to key order, where a missing
body counts as `null`. -/
theorem preimage_canonicalForm {q r : RecordedRequest}
    (hq : ∀ body, q.parsedJson = some body → body.Wf)
    (hr : ∀ body, r.parsedJson = some body → body.Wf)
    (h : preimage (canonicalForm q) = preimage (canonicalForm r)) :
    toAsciiUppercase q.method = toAsciiUppercase r.method ∧ q.path = r.path ∧
      (Query.decodedPairs q.query).Perm (Query.decodedPairs r.query) ∧
      Json.KeyEquiv (q.parsedJson.getD .null) (r.parsedJson.getD .null) := by
  obtain ⟨h1, h2, h3, h4⟩ := (preimage_eq_iff (canonicalForm_wf hq) (canonicalForm_wf hr)).1 h
  refine ⟨h1, h2, Query.canonicalizeQuery_eq_iff.1 h3, keyEquiv_of_sortJsonValue _ ?_⟩
  have hgetD : ∀ o : Option Json,
      (o.map sortJsonValue).getD .null = sortJsonValue (o.getD .null) := by
    intro o; cases o <;> rfl
  simpa only [canonicalForm, hgetD] using h4

/-! ### Canonical bodies -/

/-- The body is absent or an output of `canonicalize_body`, whatever paths were ignored. -/
def CanonicalRequest.Canonicalized (canonical : CanonicalRequest) : Prop :=
  ∀ body, canonical.canonicalBody = some body →
    ∃ (source : Json) (ignoredBodyPaths : List String),
      source.Wf ∧ canonicalizeBody source ignoredBodyPaths = .ok body

theorem CanonicalRequest.Canonicalized.wf {canonical : CanonicalRequest}
    (h : canonical.Canonicalized) : canonical.Wf := by
  intro body hbody
  obtain ⟨source, ignoredBodyPaths, hsource, hcanonical⟩ := h body hbody
  exact canonicalizeBody_wf hsource hcanonical

/-- **The hashed bytes are unambiguous.**  Two requests are hashed over the same bytes exactly if
their four parts are the same, an absent body counting as `null` and numbers as their text
(`Number.toText_injective`).  The bytes are a JSON text, which a reader that accepts its nesting
reads as the object with the four parts. -/
theorem preimage_unambiguous {a b : CanonicalRequest} (ha : a.Canonicalized)
    (hb : b.Canonicalized) :
    (preimage a = preimage b ↔ a.method = b.method ∧ a.path = b.path ∧
      a.canonicalQuery = b.canonicalQuery ∧
      a.canonicalBody.getD .null = b.canonicalBody.getD .null) ∧
    ∀ d, (canonicalRequestValue a).depth ≤ d →
      (Str.fromUtf8 (preimage a)).bind (fun text => Json.parse d text.toList) =
        some (.object [("method", .string a.method), ("path", .string a.path),
          ("canonical_query", .string a.canonicalQuery),
          ("canonical_body", a.canonicalBody.getD .null)]) :=
  ⟨preimage_eq_iff ha.wf hb.wf, fun _ hd => parse_preimage ha.wf hd⟩

/-- A body with an escaped text, made by ignoring a path, against no body at all. -/
theorem preimage_unambiguous_removed :
    preimage ⟨"POST", "/a\"b", "", some (.object [("k\n", .string "\x01\\")])⟩ ≠
      preimage ⟨"POST", "/a\"b", "", none⟩ := by
  have hsource : canonicalizeBody (.object [("k\n", .string "\x01\\"), ("id", .null)]) ["/id"] =
      .ok (.object [("k\n", .string "\x01\\")]) := by decide +kernel
  have hiff := (preimage_unambiguous
    (a := ⟨"POST", "/a\"b", "", some (.object [("k\n", .string "\x01\\")])⟩)
    (b := ⟨"POST", "/a\"b", "", none⟩)
    (by rintro _ ⟨⟩; exact ⟨_, _, by decide, hsource⟩) (by rintro _ ⟨⟩)).1
  exact fun h => by simpa using (hiff.1 h).2.2.2

end SpycatcherHarness
