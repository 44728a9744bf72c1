import Mathlib.Data.List.DropRight
import SpycatcherHarness.Server.Record

/-!
# Header selection

Which headers of a request or a response are recorded, forwarded and proxied.  The four selectors
share `selectHeadersUnified`: it leaves out a fixed list of names, what the caller excludes, and
whatever a `Connection` header names, and keeps the order and the duplicates.  Redaction comes after
that, and for recording only.

* `mem_parseConnectionTokens` : a `Connection` header names exactly its comma-separated tokens,
  trimmed and in lower case, whatever bytes stand between them.
* `selectHeadersUnified_eq`, `redactHeaders_select` : what is selected, and what is left of that.
-/

namespace SpycatcherHarness

/-! ### Header maps -/

/-- A character of a header name in lower case. -/
def isHeaderNameChar (c : Char) : Bool :=
  c.isLower || c.isDigit || "!#$%&'*+-.^_`|~".toList.contains c

/-- `HeaderName`, which is kept in lower case. -/
structure HeaderName where
  asStr : String
  nonempty : asStr ≠ ""
  chars : asStr.toList.all isHeaderNameChar = true

/-- `HeaderMap`: its names and values, in iteration order. -/
abbrev HeaderMap := List (HeaderName × Bytes)

/-- `HeaderMap::get_all`. -/
def HeaderMap.getAll (headers : HeaderMap) (name : String) : List Bytes :=
  (headers.filter fun header => header.1.asStr == name).map Prod.snd

/-- `HOP_BY_HOP_HEADERS`. -/
def hopByHopHeaders : List String :=
  ["connection", "keep-alive", "proxy-authenticate", "proxy-authorization", "te", "trailer",
    "transfer-encoding", "upgrade"]

/-- `REQUEST_ONLY_EXCLUDED_HEADERS`. -/
def requestOnlyExcludedHeaders : List String := ["host", "content-length", "accept-encoding"]

/-- `RESPONSE_ONLY_EXCLUDED_HEADERS`. -/
def responseOnlyExcludedHeaders : List String := ["content-length"]

/-! ### Connection tokens -/

/-- `u8::is_ascii_whitespace`. -/
def isAsciiWhitespace (byte : UInt8) : Bool :=
  byte == 0x20 || byte == 0x09 || byte == 0x0A || byte == 0x0C || byte == 0x0D

/-- `u8::to_ascii_lowercase`. -/
def byteToAsciiLowercase (byte : UInt8) : UInt8 :=
  if 0x41 ≤ byte && byte ≤ 0x5A then byte + 0x20 else byte

/-- `str::to_ascii_lowercase`. -/
def toAsciiLowercase (s : String) : String := String.ofList (s.toList.map Char.toLower)

/-- `Iterator::rposition`. -/
def rposition {α : Type} (p : α → Bool) (l : List α) : Option ℕ :=
  (l.reverse.findIdx? p).map fun i => l.length - 1 - i

/-- `lowercase_trimmed_ascii_token`. -/
def lowercaseTrimmedAsciiToken (token : Bytes) : String :=
  let start := token.findIdx fun byte => !isAsciiWhitespace byte
  let stop :=
    match rposition (fun byte => !isAsciiWhitespace byte) token with
    | none => start
    | some position => position + 1
  Str.fromUtf8Lossy (((token.take stop).drop start).map byteToAsciiLowercase)

/-- `parse_connection_tokens`. -/
def parseConnectionTokens (headers : HeaderMap) : List String :=
  (((headers.getAll "connection").flatMap fun value => value.splitOn 0x2C).map
    lowercaseTrimmedAsciiToken).filter fun token => token != ""

/-- `build_disallowed_set`. -/
def buildDisallowedSet (headers : HeaderMap) (excluded : List String) : List String :=
  parseConnectionTokens headers ++ (hopByHopHeaders ++ excluded).map toAsciiLowercase

/-! ### Values and selectors -/

/-- `HeaderValue::to_str`: only visible ASCII and tabs are text. -/
def headerToStr (value : Bytes) : Option String :=
  if value.all fun byte => 0x20 ≤ byte && byte < 0x7F || byte == 0x09 then
    some (String.ofList (value.map fun byte => Char.ofNat byte.toNat))
  else none

/-- An upper-case hexadecimal digit. -/
def upperHexDigit (n : ℕ) : Char := "0123456789ABCDEF".toList.getD n '0'

/-- `percent_encode` with `NON_ALPHANUMERIC`. -/
def percentEncode (value : Bytes) : String :=
  String.ofList <| value.flatMap fun byte =>
    if (Char.ofNat byte.toNat).isAlphanum then [Char.ofNat byte.toNat]
    else ['%', upperHexDigit (byte.toNat / 16), upperHexDigit (byte.toNat % 16)]

/-- `header_value_string`. -/
def headerValueString (value : Bytes) : String := (headerToStr value).getD (percentEncode value)

/-- `select_headers_unified`. -/
def selectHeadersUnified {V : Type} (headers : HeaderMap) (excluded : List String)
    (mapValue : Bytes → V) : List (String × V) :=
  let disallowed := buildDisallowedSet headers excluded
  (headers.filter fun header => !disallowed.contains header.1.asStr).map fun header =>
    (header.1.asStr, mapValue header.2)

/-- `selected_headers`. -/
def selectedHeaders (headers : HeaderMap) (excluded : List String) : Headers :=
  selectHeadersUnified headers excluded headerValueString

/-- `selected_header_bytes`. -/
def selectedHeaderBytes (headers : HeaderMap) (excluded : List String) : List (String × Bytes) :=
  selectHeadersUnified headers excluded id

/-- `selected_request_headers`. -/
def selectedRequestHeaders (headers : HeaderMap) : Headers :=
  selectedHeaders headers requestOnlyExcludedHeaders

/-- `selected_forward_headers`. -/
def selectedForwardHeaders (headers : HeaderMap) : List (String × Bytes) :=
  selectedHeaderBytes headers requestOnlyExcludedHeaders

/-- `selected_response_headers`. -/
def selectedResponseHeaders (headers : HeaderMap) : Headers :=
  selectedHeaders headers responseOnlyExcludedHeaders

/-- `selected_response_proxy_headers`. -/
def selectedResponseProxyHeaders (headers : HeaderMap) : List (String × Bytes) :=
  selectedHeaderBytes headers responseOnlyExcludedHeaders

/-! ### Trimming -/

/-- A token without the white space around it. -/
def trimAsciiWhitespace (token : Bytes) : Bytes :=
  (token.dropWhile isAsciiWhitespace).rdropWhile isAsciiWhitespace

/-- Up to the last element that is not dropped at the end. -/
theorem take_rposition {α : Type} {p : α → Bool} {l : List α} {i : ℕ}
    (h : rposition (fun a => !p a) l = some i) : l.take (i + 1) = l.rdropWhile p := by
  simp only [rposition, Option.map_eq_some_iff] at h
  obtain ⟨j, hj, rfl⟩ := h
  obtain ⟨hlt, hfind⟩ := List.findIdx?_eq_some_iff_findIdx_eq.1 hj
  rw [List.length_reverse] at hlt
  have hstop : l.length - 1 - j + 1 = l.length - j := by omega
  rw [List.rdropWhile, List.dropWhile_eq_drop_findIdx_not, hfind, List.drop_reverse,
    List.reverse_reverse, hstop]

theorem rdropWhile_cons {α : Type} (p : α → Bool) (a : α) (l : List α) :
    (a :: l).rdropWhile p =
      if l.rdropWhile p = [] ∧ p a = true then [] else a :: l.rdropWhile p := by
  simp only [List.rdropWhile, List.reverse_cons, List.dropWhile_append, List.isEmpty_iff,
    List.reverse_eq_nil_iff]
  by_cases hl : l.reverse.dropWhile p = []
  · cases ha : p a <;> simp [hl, ha]
  · simp [hl]

/-- What is dropped at the front does not depend on what is dropped at the end. -/
theorem drop_findIdx_rdropWhile {α : Type} (p : α → Bool) (l : List α) :
    (l.rdropWhile p).drop (l.findIdx fun a => !p a) = (l.dropWhile p).rdropWhile p := by
  induction l with
  | nil => rfl
  | cons a l ih =>
    cases ha : p a with
    | false => simp [List.findIdx_cons, ha]
    | true =>
      rw [rdropWhile_cons, List.findIdx_cons, List.dropWhile_cons_of_pos ha, ← ih]
      by_cases hl : l.rdropWhile p = []
      · simp [hl, ha]
      · simp [hl, ha]

/-- A token is trimmed at both ends and put in lower case. -/
theorem lowercaseTrimmedAsciiToken_eq (token : Bytes) :
    lowercaseTrimmedAsciiToken token =
      Str.fromUtf8Lossy ((trimAsciiWhitespace token).map byteToAsciiLowercase) := by
  unfold lowercaseTrimmedAsciiToken
  rw [trimAsciiWhitespace, ← drop_findIdx_rdropWhile]
  cases hposition : rposition (fun byte => !isAsciiWhitespace byte) token with
  -- nothing but white space
  | none =>
    have hspace : token.rdropWhile isAsciiWhitespace = [] := by
      simp only [rposition, Option.map_eq_none_iff, List.findIdx?_eq_none_iff] at hposition
      refine List.rdropWhile_eq_nil_iff.2 fun byte hbyte => ?_
      simpa using hposition byte (List.mem_reverse.2 hbyte)
    simp [hspace]
  | some position =>
    simp only
    rw [take_rposition hposition]

/-! ### What a `Connection` header names -/

/-- A `Connection` header names the header: one of its comma-separated tokens is the name, without
the white space around it and in lower case. -/
def NamedByConnection (headers : HeaderMap) (name : HeaderName) : Prop :=
  ∃ value ∈ headers.getAll "connection", ∃ token ∈ value.splitOn 0x2C,
    (trimAsciiWhitespace token).map byteToAsciiLowercase ≠ [] ∧
      (trimAsciiWhitespace token).map byteToAsciiLowercase = Str.asBytes name.asStr

instance (headers : HeaderMap) (name : HeaderName) : Decidable (NamedByConnection headers name) :=
  inferInstanceAs (Decidable (∃ value ∈ _, ∃ token ∈ _, _ ∧ _))

theorem HeaderName.not_replacement (name : HeaderName) :
    Utf8.replacementCharacter ∉ name.asStr.toList := by
  intro h
  exact absurd (List.all_eq_true.1 name.chars _ h) (by decide)

/-- A character that is no capital letter is its own lower case. -/
theorem toLower_of_not_capital {c : Char} (h : ¬ ('A'.val ≤ c.val ∧ c.val ≤ 'Z'.val)) :
    c.toLower = c :=
  dif_neg h

theorem toLower_eq_of_isHeaderNameChar {c : Char} (h : isHeaderNameChar c = true) :
    c.toLower = c := by
  have hsymbols : "!#$%&'*+-.^_`|~".toList.all (fun d => d.toLower == d) = true := by decide
  have hza : 'Z'.val.toNat < 'a'.val.toNat := by decide
  have h9A : '9'.val.toNat < 'A'.val.toNat := by decide
  simp only [isHeaderNameChar, Bool.or_eq_true, or_assoc, List.contains_iff_mem] at h
  rcases h with h | h | h
  · have hlower : 'a'.val ≤ c.val := of_decide_eq_true (Bool.and_eq_true_iff.1 h).1
    refine toLower_of_not_capital fun hc => ?_
    have h1 := UInt32.le_iff_toNat_le.1 hlower
    have h2 := UInt32.le_iff_toNat_le.1 hc.2
    omega
  · have hdigit : c.val ≤ '9'.val := of_decide_eq_true (Bool.and_eq_true_iff.1 h).2
    refine toLower_of_not_capital fun hc => ?_
    have h1 := UInt32.le_iff_toNat_le.1 hdigit
    have h2 := UInt32.le_iff_toNat_le.1 hc.1
    omega
  · exact beq_iff_eq.1 (List.all_eq_true.1 hsymbols c h)

/-- A header's name is in lower case. -/
theorem HeaderName.map_toLower (name : HeaderName) :
    name.asStr.toList.map Char.toLower = name.asStr.toList :=
  (List.map_congr_left fun c hc =>
    toLower_eq_of_isHeaderNameChar (List.all_eq_true.1 name.chars c hc)).trans (List.map_id' _)

/-- A token is a header's name exactly if its bytes are: a byte that is not UTF-8 leaves a
replacement character, which no name has. -/
theorem lowercaseTrimmedAsciiToken_eq_name (token : Bytes) (name : HeaderName) :
    lowercaseTrimmedAsciiToken token = name.asStr ↔
      (trimAsciiWhitespace token).map byteToAsciiLowercase = Str.asBytes name.asStr := by
  rw [lowercaseTrimmedAsciiToken_eq, Str.fromUtf8Lossy_eq_iff name.not_replacement]

theorem mem_parseConnectionTokens (headers : HeaderMap) (name : HeaderName) :
    name.asStr ∈ parseConnectionTokens headers ↔ NamedByConnection headers name := by
  have hne : Str.asBytes name.asStr ≠ [] := by
    intro h
    exact name.nonempty (Str.asBytes_injective h)
  simp only [parseConnectionTokens, List.mem_filter, List.mem_map, List.mem_flatMap,
    lowercaseTrimmedAsciiToken_eq_name, NamedByConnection]
  constructor
  · rintro ⟨⟨token, ⟨value, hvalue, htoken⟩, heq⟩, -⟩
    exact ⟨value, hvalue, token, htoken, by rw [heq]; exact hne, heq⟩
  · rintro ⟨value, hvalue, token, htoken, -, heq⟩
    exact ⟨⟨token, ⟨value, hvalue, htoken⟩, heq⟩, bne_iff_ne.2 name.nonempty⟩

/-! ### What is selected -/

/-- A header is permitted if neither the fixed lists nor a `Connection` header exclude it. -/
structure Permitted (headers : HeaderMap) (excluded : List String) (name : HeaderName) : Prop where
  hopByHop : name.asStr ∉ hopByHopHeaders
  excluded : name.asStr ∉ excluded
  connection : ¬ NamedByConnection headers name

/-- A header is redacted if its name is configured to be dropped, in whatever case. -/
def Redacted (redaction : RedactionConfig) (name : HeaderName) : Prop :=
  ∃ entry ∈ redaction.dropHeaders, entry.toList.map Char.toLower = name.asStr.toList

theorem permitted_iff {headers : HeaderMap} {excluded : List String} {name : HeaderName} :
    Permitted headers excluded name ↔ name.asStr ∉ hopByHopHeaders ∧ name.asStr ∉ excluded ∧
      ¬ NamedByConnection headers name :=
  ⟨fun h => ⟨h.1, h.2, h.3⟩, fun h => ⟨h.1, h.2.1, h.2.2⟩⟩

instance (headers : HeaderMap) (excluded : List String) (name : HeaderName) :
    Decidable (Permitted headers excluded name) :=
  decidable_of_iff _ permitted_iff.symm

instance (redaction : RedactionConfig) (name : HeaderName) :
    Decidable (Redacted redaction name) :=
  inferInstanceAs (Decidable (∃ entry ∈ _, _))

theorem shouldPersistHeader_iff (redaction : RedactionConfig) (name : HeaderName) :
    shouldPersistHeader name.asStr redaction = true ↔ ¬ Redacted redaction name := by
  simp [shouldPersistHeader, eqIgnoreAsciiCase, name.map_toLower, Redacted]

/-- The fixed lists are in lower case. -/
theorem mem_buildDisallowedSet {headers : HeaderMap} {excluded : List String} {name : HeaderName}
    (hlower : excluded.map toAsciiLowercase = excluded) :
    name.asStr ∈ buildDisallowedSet headers excluded ↔ ¬ Permitted headers excluded name := by
  have hhop : hopByHopHeaders.map toAsciiLowercase = hopByHopHeaders := by decide
  rw [buildDisallowedSet, List.map_append, hhop, hlower, List.mem_append, List.mem_append,
    mem_parseConnectionTokens, permitted_iff]
  tauto

theorem lower_requestOnly :
    requestOnlyExcludedHeaders.map toAsciiLowercase = requestOnlyExcludedHeaders := by decide

theorem lower_responseOnly :
    responseOnlyExcludedHeaders.map toAsciiLowercase = responseOnlyExcludedHeaders := by decide

/-- **The permitted headers are selected**, with their order and their duplicates. -/
theorem selectHeadersUnified_eq {V : Type} (headers : HeaderMap) {excluded : List String}
    (hlower : excluded.map toAsciiLowercase = excluded) (mapValue : Bytes → V) :
    selectHeadersUnified headers excluded mapValue =
      (headers.filter fun header => Permitted headers excluded header.1).map fun header =>
        (header.1.asStr, mapValue header.2) := by
  simp only [selectHeadersUnified]
  congr 2
  funext header
  rw [Bool.eq_iff_iff, Bool.not_eq_true', decide_eq_true_iff, ← Bool.not_eq_true,
    List.contains_iff_mem, mem_buildDisallowedSet hlower, not_not]

/-- The headers that are recorded of a header map. -/
def persistedHeaders (redaction : RedactionConfig) (excluded : List String)
    (headers : HeaderMap) : Headers :=
  (headers.filter fun header =>
    Permitted headers excluded header.1 ∧ ¬ Redacted redaction header.1).map fun header =>
      (header.1.asStr, headerValueString header.2)

/-- What redaction leaves of the selected headers. -/
theorem redactHeaders_select (redaction : RedactionConfig) (headers : HeaderMap)
    {excluded : List String} (hlower : excluded.map toAsciiLowercase = excluded) :
    redactHeaders (selectedHeaders headers excluded) redaction =
      persistedHeaders redaction excluded headers := by
  have hkeep : ((fun header : String × String => shouldPersistHeader header.1 redaction) ∘
      fun header : HeaderName × Bytes => (header.1.asStr, headerValueString header.2)) =
      fun header => decide (¬ Redacted redaction header.1) := by
    funext header
    rw [Bool.eq_iff_iff, decide_eq_true_iff]
    exact shouldPersistHeader_iff redaction header.1
  rw [redactHeaders, selectedHeaders, selectHeadersUnified_eq headers hlower, List.filter_map,
    List.filter_filter, hkeep, persistedHeaders]
  simp only [← Bool.decide_and, and_comm]

/-! ### Header maps that differ in removed values -/

/-- The header maps have the same names in the same order, and the same values except where a header
other than `Connection` is not recorded. -/
def AgreeOnPersisted (redaction : RedactionConfig) (excluded : List String)
    (headers headers' : HeaderMap) : Prop :=
  List.Forall₂ (fun header header' => header.1 = header'.1 ∧
    (header.2 = header'.2 ∨ header.1.asStr ≠ "connection" ∧
      ¬ (Permitted headers excluded header.1 ∧ ¬ Redacted redaction header.1))) headers headers'

/-- Where two header maps agree, a selection by name is the same. -/
theorem map_filter_congr {V : Type} (keep : HeaderName → Bool) {headers headers' : HeaderMap}
    (h : List.Forall₂ (fun header header' => header.1 = header'.1 ∧
      (keep header.1 = true → header.2 = header'.2)) headers headers')
    (f : HeaderName × Bytes → V) :
    (headers.filter fun header => keep header.1).map f =
      (headers'.filter fun header => keep header.1).map f := by
  induction h with
  | nil => rfl
  | @cons header header' headers headers' hhead _ ih =>
    obtain ⟨hname, hvalue⟩ := hhead
    cases hkeep : keep header.1 with
    | false => simp [hkeep, ← hname, ih]
    | true =>
      have heq : header = header' := Prod.ext hname (hvalue hkeep)
      simp [← heq, hkeep, ih]

theorem AgreeOnPersisted.getAll_connection {redaction : RedactionConfig} {excluded : List String}
    {headers headers' : HeaderMap} (h : AgreeOnPersisted redaction excluded headers headers') :
    headers.getAll "connection" = headers'.getAll "connection" := by
  refine map_filter_congr (fun name => name.asStr == "connection") ?_ Prod.snd
  refine h.imp fun header header' ⟨hname, hvalue⟩ => ⟨hname, fun hkeep => ?_⟩
  rcases hvalue with hvalue | ⟨hne, -⟩
  · exact hvalue
  · exact absurd (beq_iff_eq.1 hkeep) hne

/-- **The values of removed headers do not matter**. -/
theorem AgreeOnPersisted.persistedHeaders_eq {redaction : RedactionConfig}
    {excluded : List String} {headers headers' : HeaderMap}
    (h : AgreeOnPersisted redaction excluded headers headers') :
    persistedHeaders redaction excluded headers = persistedHeaders redaction excluded headers' := by
  have hpermitted : ∀ name, Permitted headers' excluded name ↔ Permitted headers excluded name := by
    intro name
    rw [permitted_iff, permitted_iff, NamedByConnection, NamedByConnection, h.getAll_connection]
  simp only [persistedHeaders, hpermitted]
  refine map_filter_congr
    (fun name => decide (Permitted headers excluded name ∧ ¬ Redacted redaction name)) ?_ _
  refine h.imp fun header header' ⟨hname, hvalue⟩ => ⟨hname, fun hkeep => ?_⟩
  rcases hvalue with hvalue | ⟨-, hremoved⟩
  · exact hvalue
  · exact absurd (of_decide_eq_true hkeep) hremoved

end SpycatcherHarness
