import SpycatcherHarness.Server.Upstream

/-!
# Responses of the HTTP adapters

Both adapters turn a status number and a list of header texts into a response: a number that is no
status becomes 502, and a header that is none is dropped.  The header map of the response keeps the
values of a name together.

* `valuesOf_appendHeader`, `valuesOf_insertHeader` : what both do to the values of a name.
* `appendHeader_concat` : a header whose name stands last, or nowhere, goes to the end.
* `headerTexts_collectHeaders` : headers that come from a header map are all kept, in order.
* `headerValueString_valid` : so are those that come from a cassette.
-/

namespace SpycatcherHarness

/-! ### Status codes -/

/-- `StatusCode`. -/
structure StatusCode where
  asU16 : UInt16
  valid : 100 ≤ asU16 ∧ asU16 < 1000
  deriving DecidableEq

namespace StatusCode

/-- `StatusCode::from_u16`. -/
def fromU16 (status : UInt16) : Option StatusCode :=
  if h : 100 ≤ status ∧ status < 1000 then some ⟨status, h⟩ else none

/-- `StatusCode::BAD_GATEWAY`. -/
def badGateway : StatusCode := ⟨502, by decide⟩

/-- `StatusCode::CONFLICT`. -/
def conflict : StatusCode := ⟨409, by decide⟩

/-- `StatusCode::NOT_IMPLEMENTED`. -/
def notImplemented : StatusCode := ⟨501, by decide⟩

/-- `StatusCode::BAD_REQUEST`. -/
def badRequest : StatusCode := ⟨400, by decide⟩

end StatusCode

/-- The status that a number stands for from 100 to 599, and 502 else. -/
def boundedStatusCode (status : UInt16) : StatusCode :=
  if 100 ≤ status ∧ status ≤ 599 then (StatusCode.fromU16 status).getD .badGateway
  else .badGateway

/-- `proxy_status_code`. -/
def proxyStatusCode (status : UInt16) : StatusCode := boundedStatusCode status

/-- `replay_status_code`. -/
def replayStatusCode (status : UInt16) : StatusCode := boundedStatusCode status

/-- The number that is sent for a status number. -/
theorem asU16_boundedStatusCode (status : UInt16) :
    (boundedStatusCode status).asU16 =
      if 100 ≤ status ∧ status ≤ 599 then status else 502 := by
  unfold boundedStatusCode
  split_ifs with h
  · have hvalid : 100 ≤ status ∧ status < 1000 := by
      have hlast := UInt16.le_iff_toNat_le.1 h.2
      refine ⟨h.1, UInt16.lt_iff_toNat_lt.2 ?_⟩
      simp only [UInt16.reduceToNat] at hlast ⊢
      omega
    rw [StatusCode.fromU16, dif_pos hvalid, Option.getD_some]
  · rfl

/-! ### Header maps -/

/-- The headers of a response, in iteration order. -/
abbrev ResponseHeaders := List (HeaderName × HeaderValue)

/-- `HeaderMap::append`: a value goes behind the others of its name. -/
def appendHeader (headers : ResponseHeaders) (name : HeaderName) (value : HeaderValue) :
    ResponseHeaders :=
  match headers with
  | [] => [(name, value)]
  | header :: headers =>
    if header.1.asStr = name.asStr ∧ ∀ later ∈ headers, later.1.asStr ≠ name.asStr then
      header :: (name, value) :: headers
    else header :: appendHeader headers name value

/-- `axum::http::Response`, over a type of bodies. -/
structure Response (β : Type) where
  status : StatusCode
  headers : ResponseHeaders
  body : β

/-- The header that a name and the bytes of a value make, if they make one. -/
def validHeader (header : String × Bytes) : Option (HeaderName × HeaderValue) :=
  match HeaderName.tryFrom header.1, HeaderValue.fromBytes header.2 with
  | some name, some value => some (name, value)
  | _, _ => none

/-- A header of a response: one that is none is dropped. -/
def addValidHeader (built : ResponseHeaders) (header : String × Bytes) : ResponseHeaders :=
  match validHeader header with
  | some (name, value) => appendHeader built name value
  | none => built

theorem addValidHeader_none {header : String × Bytes} (h : validHeader header = none)
    (built : ResponseHeaders) : addValidHeader built header = built := by
  rw [addValidHeader, h]

theorem addValidHeader_some {header : String × Bytes} {valid : HeaderName × HeaderValue}
    (h : validHeader header = some valid) (built : ResponseHeaders) :
    addValidHeader built header = appendHeader built valid.1 valid.2 := by
  rw [addValidHeader, h]

/-- The loop that collects the headers of a response. -/
def collectHeaders (headers : List (String × Bytes)) : ResponseHeaders :=
  headers.foldl addValidHeader []

/-- `HeaderMap::insert`: the value takes the place of all others of its name. -/
def insertHeader (headers : ResponseHeaders) (name : HeaderName) (value : HeaderValue) :
    ResponseHeaders :=
  match headers with
  | [] => [(name, value)]
  | header :: headers =>
    if header.1.asStr = name.asStr then
      (name, value) :: headers.filter fun later => later.1.asStr ≠ name.asStr
    else header :: insertHeader headers name value

/-- `HeaderMap::get_all`. -/
def valuesOf (headers : ResponseHeaders) (name : HeaderName) : List HeaderValue :=
  (headers.filter fun header => header.1.asStr = name.asStr).map Prod.snd

/-! ### Values of a name -/

theorem valuesOf_cons (header : HeaderName × HeaderValue) (headers : ResponseHeaders)
    (name : HeaderName) :
    valuesOf (header :: headers) name =
      (if header.1.asStr = name.asStr then [header.2] else []) ++ valuesOf headers name := by
  unfold valuesOf
  rw [List.filter_cons]
  split_ifs with h h' h'
  · rfl
  · exact absurd (of_decide_eq_true h) h'
  · exact absurd (decide_eq_true h') h
  · rfl

theorem valuesOf_eq_nil_iff {headers : ResponseHeaders} {name : HeaderName} :
    valuesOf headers name = [] ↔ ∀ header ∈ headers, header.1.asStr ≠ name.asStr := by
  simp [valuesOf]

/-- A value that is appended comes last of its name, and nothing else changes. -/
theorem valuesOf_appendHeader (headers : ResponseHeaders) (name : HeaderName)
    (value : HeaderValue) (other : HeaderName) :
    valuesOf (appendHeader headers name value) other =
      valuesOf headers other ++ if name.asStr = other.asStr then [value] else [] := by
  induction headers with
  | nil =>
    have hnil : valuesOf [] other = [] := rfl
    rw [appendHeader, valuesOf_cons, hnil, List.append_nil, List.nil_append]
  | cons header headers ih =>
    rw [appendHeader]
    split_ifs with hlast hother
    -- behind the last value of the name there is no other
    · have hnone : valuesOf headers other = [] :=
        valuesOf_eq_nil_iff.2 fun later hlater h => hlast.2 later hlater (h.trans hother.symm)
      rw [valuesOf_cons, valuesOf_cons, valuesOf_cons, hnone, if_pos hother, List.append_nil,
        List.append_nil]
    · rw [valuesOf_cons, valuesOf_cons, valuesOf_cons, if_neg hother, List.nil_append,
        List.append_nil]
    · rename_i hother
      rw [valuesOf_cons, ih, if_pos hother, valuesOf_cons, List.append_assoc]
    · rename_i hother
      rw [valuesOf_cons, ih, if_neg hother, valuesOf_cons, List.append_assoc]

/-- A value that is inserted is the only one of its name. -/
theorem valuesOf_insertHeader (headers : ResponseHeaders) (name : HeaderName)
    (value : HeaderValue) (other : HeaderName) :
    valuesOf (insertHeader headers name value) other =
      if name.asStr = other.asStr then [value] else valuesOf headers other := by
  induction headers with
  | nil => rw [insertHeader, valuesOf_cons]; split_ifs <;> rfl
  | cons header headers ih =>
    rw [insertHeader]
    split_ifs with hsame hother hother
    · have hnone :
          valuesOf (headers.filter fun later => later.1.asStr ≠ name.asStr) other = [] := by
        refine valuesOf_eq_nil_iff.2 fun later hlater h => ?_
        exact of_decide_eq_true (List.mem_filter.1 hlater).2 (h.trans hother.symm)
      rw [valuesOf_cons, hnone, if_pos hother, List.append_nil]
    · have hkeep : valuesOf (headers.filter fun later => later.1.asStr ≠ name.asStr) other =
          valuesOf headers other := by
        rw [valuesOf, valuesOf, List.filter_filter]
        congr 1
        refine List.filter_congr fun later _ => ?_
        rw [Bool.and_eq_left_iff_imp]
        intro h
        exact decide_eq_true fun h' => hother (h'.symm.trans (of_decide_eq_true h))
      rw [valuesOf_cons, valuesOf_cons, hkeep, if_neg hother, if_neg (hsame ▸ hother)]
    · have hne : header.1.asStr ≠ other.asStr := fun h => hsame (h.trans hother.symm)
      rw [valuesOf_cons, ih, if_pos hother, if_neg hne, List.nil_append]
    · rw [valuesOf_cons, valuesOf_cons, ih, if_neg hother]

/-- The values of a name that a list of texts gives it. -/
theorem valuesOf_collectHeaders (headers : List (String × Bytes)) (name : HeaderName) :
    valuesOf (collectHeaders headers) name = valuesOf (headers.filterMap validHeader) name := by
  have hfold : ∀ built : ResponseHeaders,
      valuesOf (headers.foldl addValidHeader built) name =
        valuesOf built name ++ valuesOf (headers.filterMap validHeader) name := by
    induction headers with
    | nil => intro built; simp [valuesOf]
    | cons header headers ih =>
      intro built
      rw [List.foldl_cons, ih]
      cases hvalid : validHeader header with
      | none => rw [List.filterMap_cons_none hvalid, addValidHeader_none hvalid]
      | some valid =>
        rw [List.filterMap_cons_some hvalid, addValidHeader_some hvalid, valuesOf_cons,
          valuesOf_appendHeader, List.append_assoc]
  exact hfold []

/-! ### Names that stand together -/

/-- Equal entries stand next to each other. -/
def Grouped : List String → Prop
  | [] => True
  | name :: names => (name ∈ names → names.head? = some name) ∧ Grouped names

instance : (names : List String) → Decidable (Grouped names)
  | [] => .isTrue trivial
  | _ :: names =>
    have : Decidable (Grouped names) := instDecidableGrouped names
    inferInstanceAs (Decidable (_ ∧ Grouped names))

/-- What is left of entries that stand together stands together. -/
theorem Grouped.filter {names : List String} (h : Grouped names) (keep : String → Bool) :
    Grouped (names.filter keep) := by
  induction names with
  | nil => trivial
  | cons name names ih =>
    rw [List.filter_cons]
    split_ifs with hkeep
    · refine ⟨fun hmem => ?_, ih h.2⟩
      obtain ⟨rest, rfl⟩ := List.head?_eq_some_iff.1 (h.1 (List.mem_filter.1 hmem).1)
      rw [List.filter_cons_of_pos hkeep, List.head?_cons]
    · exact ih h.2

/-- The front of entries that stand together stands together. -/
theorem Grouped.of_append {names rest : List String} (h : Grouped (names ++ rest)) :
    Grouped names := by
  induction names with
  | nil => trivial
  | cons name names ih =>
    refine ⟨fun hmem => ?_, ih h.2⟩
    have hhead := h.1 (List.mem_append_left _ hmem)
    obtain ⟨first, names, rfl⟩ := List.exists_cons_of_ne_nil (List.ne_nil_of_mem hmem)
    exact hhead

/-- A header whose name stands last, or nowhere, goes to the end. -/
theorem appendHeader_concat {headers : ResponseHeaders} {name : HeaderName} (value : HeaderValue)
    (h : Grouped (headers.map (fun header => header.1.asStr) ++ [name.asStr])) :
    appendHeader headers name value = headers ++ [(name, value)] := by
  induction headers with
  | nil => rfl
  | cons header headers ih =>
    rw [appendHeader]
    split_ifs with hlast
    -- nothing can follow the last header of the name
    · have hnil : headers = [] := by
        by_contra hne
        obtain ⟨next, rest, rfl⟩ := List.exists_cons_of_ne_nil hne
        have hhead : some next.1.asStr = some header.1.asStr :=
          h.1 (List.mem_append_right _ (List.mem_singleton.2 hlast.1))
        exact hlast.2 next List.mem_cons_self ((Option.some.inj hhead).trans hlast.1)
      rw [hnil]
      rfl
    · rw [ih h.2, List.cons_append]

/-- Headers whose names stand together are kept as they are. -/
theorem foldl_appendHeader {built headers : ResponseHeaders}
    (h : Grouped ((built ++ headers).map fun header => header.1.asStr)) :
    headers.foldl (fun built header => appendHeader built header.1 header.2) built =
      built ++ headers := by
  induction headers generalizing built with
  | nil => simp
  | cons header headers ih =>
    have hsplit : built ++ header :: headers = built ++ [header] ++ headers := by simp
    rw [hsplit] at h ⊢
    have hfront : Grouped ((built ++ [header]).map fun header => header.1.asStr) := by
      rw [List.map_append] at h
      exact h.of_append
    rw [List.map_append] at hfront
    rw [List.foldl_cons, appendHeader_concat header.2 hfront, ih h]

/-! ### Headers that are kept -/

/-- A header map as the HTTP crate holds it: its names are not too long, its values are header
values, and those of a name stand together. -/
structure HeaderMap.Wf (headers : HeaderMap) : Prop where
  names : ∀ header ∈ headers, header.1.asStr.toList.length ≤ 65535
  values : ∀ header ∈ headers, header.2.all isHeaderValueByte = true
  grouped : Grouped (headers.map fun header => header.1.asStr)

/-- A header that a name and the bytes of a value spell. -/
def Spelled (header : String × Bytes) : Prop :=
  ∃ name : HeaderName, name.asStr = header.1 ∧ name.asStr.toList.length ≤ 65535 ∧
    header.2.all isHeaderValueByte = true

theorem HeaderName.tryFrom_asStr {name : HeaderName} (h : name.asStr.toList.length ≤ 65535) :
    HeaderName.tryFrom name.asStr = some name := by
  have hvalid : toAsciiLowercase name.asStr ≠ "" ∧ name.asStr.toList.length ≤ 65535 ∧
      (toAsciiLowercase name.asStr).toList.all isHeaderNameChar = true := by
    rw [toAsciiLowercase_asStr]
    exact ⟨name.nonempty, h, name.chars⟩
  rw [tryFrom, dif_pos hvalid, Option.some.injEq]
  exact HeaderName.eq_of_asStr (toAsciiLowercase_asStr name)

theorem validHeader_spelled {header : String × Bytes} (h : Spelled header) :
    ∃ name value, validHeader header = some (name, value) ∧ name.asStr = header.1 ∧
      value.bytes = header.2 := by
  obtain ⟨name, hname, hlength, hvalue⟩ := h
  have htry := HeaderName.tryFrom_asStr hlength
  rw [hname] at htry
  exact ⟨name, ⟨header.2, hvalue⟩, by rw [validHeader, htry, HeaderValue.fromBytes, dif_pos hvalue],
    hname, rfl⟩

/-- Headers that are headers, one by one. -/
theorem exists_validHeaders {headers : List (String × Bytes)}
    (h : ∀ header ∈ headers, Spelled header) :
    ∃ valid : ResponseHeaders, headerTexts valid = headers ∧
      headers.map validHeader = valid.map some := by
  induction headers with
  | nil => exact ⟨[], rfl, rfl⟩
  | cons header headers ih =>
    rw [List.forall_mem_cons] at h
    obtain ⟨name, value, hheader, hname, hvalue⟩ := validHeader_spelled h.1
    obtain ⟨valid, htexts, hmap⟩ := ih h.2
    refine ⟨(name, value) :: valid, ?_, ?_⟩
    · rw [← htexts, headerTexts, List.map_cons, hname, hvalue]
      rfl
    · rw [List.map_cons, List.map_cons, hheader, hmap]

/-- The loop appends the headers that the texts make. -/
theorem foldl_validHeader {headers : List (String × Bytes)} {valid : ResponseHeaders}
    (h : headers.map validHeader = valid.map some) (built : ResponseHeaders) :
    headers.foldl addValidHeader built =
      valid.foldl (fun built header => appendHeader built header.1 header.2) built := by
  induction headers generalizing valid built with
  | nil =>
    rw [List.map_nil, eq_comm, List.map_eq_nil_iff] at h
    rw [h]
    rfl
  | cons header headers ih =>
    cases valid with
    | nil => cases h
    | cons first valid =>
      rw [List.map_cons, List.map_cons, List.cons.injEq] at h
      rw [List.foldl_cons, List.foldl_cons, addValidHeader_some h.1]
      exact ih h.2 _

/-- **Headers that are headers are all kept**, in order, if those of a name stand together. -/
theorem headerTexts_collectHeaders {headers : List (String × Bytes)}
    (hspelled : ∀ header ∈ headers, Spelled header) (hgrouped : Grouped (headers.map Prod.fst)) :
    headerTexts (collectHeaders headers) = headers := by
  obtain ⟨valid, rfl, hmap⟩ := exists_validHeaders hspelled
  have hnames :
      Grouped (([] ++ valid).map fun header : HeaderName × HeaderValue => header.1.asStr) := by
    rw [headerTexts, List.map_map] at hgrouped
    exact hgrouped
  rw [collectHeaders, foldl_validHeader hmap, foldl_appendHeader hnames, List.nil_append]

/-! ### Selected headers -/

/-- ASCII characters are encoded byte by byte. -/
theorem encode_ascii {cs : List Char} (h : ∀ c ∈ cs, c.toNat ≤ 127) :
    Utf8.encode cs = cs.map charByte := by
  induction cs with
  | nil => rfl
  | cons c cs ih =>
    rw [List.forall_mem_cons] at h
    rw [Utf8.encode_cons, Utf8.utf8EncodeChar_ascii h.1, ih h.2]
    rfl

/-- A text is recorded as the bytes that it has. -/
theorem asBytes_of_headerToStr {value : Bytes} {s : String} (h : headerToStr value = some s) :
    Str.asBytes s = value := by
  unfold headerToStr at h
  split_ifs at h with htext
  have hchars : s = String.ofList (value.map byteChar) := (Option.some.inj h).symm
  have hascii : ∀ c ∈ value.map byteChar, c.toNat ≤ 127 := by
    intro c hc
    obtain ⟨byte, hbyte, rfl⟩ := List.mem_map.1 hc
    have hrange := List.all_eq_true.1 htext byte hbyte
    simp only [Bool.or_eq_true, Bool.and_eq_true, decide_eq_true_eq, beq_iff_eq] at hrange
    rw [toNat_byteChar]
    rcases hrange with ⟨-, hlt⟩ | rfl
    · have hlt' := UInt8.lt_iff_toNat_lt.1 hlt
      simp only [UInt8.reduceToNat] at hlt'
      omega
    · decide
  rw [hchars, Str.asBytes_ofList, encode_ascii hascii, List.map_map]
  refine (List.map_congr_left fun byte _ => ?_).trans (List.map_id' _)
  rw [Function.comp_apply, charByte, toNat_byteChar, UInt8.ofNat_toNat]

/-- **What is recorded of a header value is a header value.** -/
theorem headerValueString_valid {value : Bytes} (h : value.all isHeaderValueByte = true) :
    (Str.asBytes (headerValueString value)).all isHeaderValueByte = true := by
  cases htext : headerToStr value with
  | some s => rwa [headerValueString, htext, Option.getD_some, asBytes_of_headerToStr htext]
  | none =>
    have hascii : ∀ c ∈ value.flatMap escapeByte, c.toNat ≤ 127 := by
      intro c hc
      obtain ⟨hback, -, -, hlt⟩ := mem_escapes hc
      have hlt' := UInt8.lt_iff_toNat_lt.1 hlt
      simp only [UInt8.reduceToNat] at hlt'
      rw [← hback, toNat_byteChar]
      omega
    rw [headerValueString, htext, Option.getD_none, percentEncode_eq, Str.asBytes_ofList,
      encode_ascii hascii, List.all_map, List.all_eq_true]
    exact fun c hc => (mem_escapes hc).2.1

/-- A selection of a header map has names that stand together. -/
theorem HeaderMap.Wf.grouped_select {V : Type} {headers : HeaderMap} (h : headers.Wf)
    {excluded : List String} (mapValue : Bytes → V) :
    Grouped ((selectHeadersUnified headers excluded mapValue).map Prod.fst) := by
  have hnames : (selectHeadersUnified headers excluded mapValue).map Prod.fst =
      (headers.map fun header => header.1.asStr).filter fun name =>
        !(buildDisallowedSet headers excluded).contains name := by
    simp only [selectHeadersUnified, List.map_map, List.filter_map, Function.comp_def]
  rw [hnames]
  exact h.grouped.filter _

/-- What is selected of a header map for passing on are headers. -/
theorem HeaderMap.Wf.spelled_select {headers : HeaderMap} (h : headers.Wf)
    {excluded : List String} :
    ∀ header ∈ selectedHeaderBytes headers excluded, Spelled header := by
  intro header hheader
  obtain ⟨raw, hraw, rfl⟩ := List.mem_map.1 hheader
  have hmem := (List.mem_filter.1 hraw).1
  exact ⟨raw.1, rfl, h.names raw hmem, h.values raw hmem⟩

/-- So are those that are recorded of it. -/
theorem HeaderMap.Wf.spelled_recorded {headers : HeaderMap} (h : headers.Wf)
    {excluded : List String} :
    ∀ header ∈ selectedHeaders headers excluded, Spelled (header.1, Str.asBytes header.2) := by
  intro header hheader
  obtain ⟨raw, hraw, rfl⟩ := List.mem_map.1 hheader
  have hmem := (List.mem_filter.1 hraw).1
  exact ⟨raw.1, rfl, h.names raw hmem, headerValueString_valid (h.values raw hmem)⟩

end SpycatcherHarness
