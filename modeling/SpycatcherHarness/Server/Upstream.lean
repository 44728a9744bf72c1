import SpycatcherHarness.Config
import SpycatcherHarness.Server.Capture
import SpycatcherHarness.Server.HeaderValues

/-!
# The request to the upstream

How the upstream client builds its request: the bearer of the configured key, then the forwarded
headers of the client, then the configured extra headers.  Credentials of the client and of the
extra headers are left out, and an extra header that could change the framing or the routing is an
error.

The URL and HTTP crates are parameters.  A request builder is the request so far or the error that
sending it reports; a header is appended.  A user name and a password in the base URL are a
credential that nothing leaves out: the HTTP crate makes a header of them.

* `appendHeaders_spec` : what both loops over headers do when they succeed.
* `buildUpstreamRequest_spec` : the headers of a request that has been built.
* `outbound_headers_iff` : one credential, and which headers reach the upstream.
-/

namespace SpycatcherHarness

/-! ### Names and values of outbound headers -/

/-- `HeaderName::try_from`: a name is put in lower case. -/
def HeaderName.tryFrom (name : String) : Option HeaderName :=
  if h : toAsciiLowercase name ≠ "" ∧ name.toList.length ≤ 65535 ∧
      (toAsciiLowercase name).toList.all isHeaderNameChar = true then
    some ⟨toAsciiLowercase name, h.1, h.2.2⟩
  else none

/-- `HeaderValue::from_bytes`. -/
def HeaderValue.fromBytes (bytes : Bytes) : Option HeaderValue :=
  if h : bytes.all isHeaderValueByte = true then some ⟨bytes, h⟩ else none

theorem HeaderName.asStr_of_tryFrom {raw : String} {name : HeaderName}
    (h : HeaderName.tryFrom raw = some name) : name.asStr = toAsciiLowercase raw := by
  unfold tryFrom at h
  split_ifs at h
  rw [← Option.some.inj h]

theorem HeaderValue.bytes_of_fromBytes {bytes : Bytes} {value : HeaderValue}
    (h : HeaderValue.fromBytes bytes = some value) : value.bytes = bytes := by
  unfold fromBytes at h
  split_ifs at h
  rw [← Option.some.inj h]

/-- `axum::http::header::AUTHORIZATION`. -/
def authorization : HeaderName := ⟨"authorization", by decide, by decide⟩

/-! ### Crates -/

/-- A request as it is handed to the network. -/
structure OutboundRequest (Url : Type) where
  url : Url
  headers : List (HeaderName × HeaderValue)
  body : Bytes

/-- `reqwest::RequestBuilder`: the request so far, or the error that sending it reports. -/
structure RequestBuilder (Url : Type) where
  request : Except String (OutboundRequest Url)

/-- What the harness uses of the URL crate. -/
structure UrlCrate (Url : Type) where
  /-- The `Debug` text. -/
  debug : Url → String
  /-- The path segments, unless the URL cannot be a base. -/
  pathSegments : Url → Option (List String)
  setPathSegments : Url → List String → Url
  query : Url → Option String
  setQuery : Url → String → Url
  /-- There is a user name or a password, as the HTTP crate reads them. -/
  hasCredentials : Url → Bool

/-- What the harness uses of the HTTP crates and of the network. -/
structure HttpCrates (Url Body : Type) where
  /-- `Client::post`. -/
  post : Url → RequestBuilder Url
  /-- The reply to a request that is sent. -/
  reply : OutboundRequest Url → Except String (UpstreamReply Body)
  /-- The texts of their errors. -/
  invalidHeaderName : String
  invalidHeaderValue : String
  builderError : String
  /-- The `Debug` text of a string. -/
  debug : String → String

/-- What is relied on.  A request begins at its URL, without headers and without a body; but
credentials in the URL are taken out of it and make a header.  The path and the query of a URL have
nothing to do with them. -/
structure HttpCrates.Lawful {Url Body : Type} (H : HttpCrates Url Body) (U : UrlCrate Url) :
    Prop where
  plain : ∀ url start, U.hasCredentials url = false → (H.post url).request = .ok start →
    start = ⟨url, [], []⟩
  signed : ∀ url start, U.hasCredentials url = true → (H.post url).request = .ok start →
    ∃ basic, start.headers = [(authorization, basic)]
  setPathSegments : ∀ url segments,
    U.hasCredentials (U.setPathSegments url segments) = U.hasCredentials url
  setQuery : ∀ url query, U.hasCredentials (U.setQuery url query) = U.hasCredentials url

namespace RequestBuilder

variable {Url : Type}

/-- `RequestBuilder::header`, for a name and a value that have been checked. -/
def header (builder : RequestBuilder Url) (name : HeaderName) (value : HeaderValue) :
    RequestBuilder Url :=
  ⟨builder.request.map fun request =>
    { request with headers := request.headers ++ [(name, value)] }⟩

/-- `RequestBuilder::bearer_auth`: a token that is no header value spoils the request. -/
def bearerAuth (builder : RequestBuilder Url) (builderError token : String) :
    RequestBuilder Url :=
  match HeaderValue.fromBytes (Str.asBytes ("Bearer " ++ token)) with
  | some value => builder.header authorization value
  | none => ⟨builder.request.bind fun _ => .error builderError⟩

/-- `RequestBuilder::body`. -/
def body (builder : RequestBuilder Url) (bytes : Bytes) : RequestBuilder Url :=
  ⟨builder.request.map fun request => { request with body := bytes }⟩

end RequestBuilder

/-! ### Building the request -/

/-- `FORBIDDEN_EXTRA_HEADERS`. -/
def forbiddenExtraHeaders : List String :=
  ["host", "connection", "keep-alive", "proxy-authenticate", "proxy-authorization", "te",
    "trailer", "transfer-encoding", "upgrade", "content-length", "accept-encoding"]

/-- `should_forward_header`. -/
def shouldForwardHeader (name : String) : Bool := !eqIgnoreAsciiCase name "authorization"

/-- `is_forbidden_extra_header`. -/
def isForbiddenExtraHeader (name : String) : Bool :=
  forbiddenExtraHeaders.any fun forbidden => eqIgnoreAsciiCase forbidden name

/-- `ChatCompletionsRequest`. -/
structure ChatCompletionsRequest (Url : Type) where
  config : UpstreamConfig Url
  apiKey : String
  /-- Selected inbound request headers to forward upstream as raw bytes. -/
  headers : List (String × Bytes)
  body : Bytes
  query : String

variable {Url Body : Type} (H : HttpCrates Url Body)

/-- `to_outbound_header`. -/
def toOutboundHeader (name : String) (value : Bytes) :
    HarnessResult (HeaderName × HeaderValue) :=
  match HeaderName.tryFrom name with
  | none => .error (.invalidConfig
      ("invalid outbound header name " ++ H.debug name ++ ": " ++ H.invalidHeaderName))
  | some headerName =>
    match HeaderValue.fromBytes value with
    | none => .error (.invalidConfig
        ("invalid outbound header value for " ++ H.debug name ++ ": " ++ H.invalidHeaderValue))
    | some headerValue => .ok (headerName, headerValue)

/-- The loop that both kinds of headers are added in: credentials are passed over, the other names
are checked. -/
def appendHeaders (check : String → HarnessResult Unit) :
    RequestBuilder Url → List (String × Bytes) → HarnessResult (RequestBuilder Url)
  | builder, [] => .ok builder
  | builder, (name, value) :: headers =>
    if !shouldForwardHeader name then appendHeaders check builder headers
    else
      match check name with
      | .error e => .error e
      | .ok () =>
        match toOutboundHeader H name value with
        | .error e => .error e
        | .ok (headerName, headerValue) =>
          appendHeaders check (builder.header headerName headerValue) headers

/-- `apply_forwarded_headers`. -/
def applyForwardedHeaders (builder : RequestBuilder Url) (headers : List (String × Bytes)) :
    HarnessResult (RequestBuilder Url) :=
  appendHeaders H (fun _ => .ok ()) builder headers

/-- The entries of the extra headers, with the bytes of their values. -/
def BTreeMap.asBytes (extraHeaders : BTreeMap) : List (String × Bytes) :=
  extraHeaders.entries.map fun entry => (entry.1, Str.asBytes entry.2)

/-- `apply_extra_headers`. -/
def applyExtraHeaders (builder : RequestBuilder Url) (extraHeaders : BTreeMap) :
    HarnessResult (RequestBuilder Url) :=
  appendHeaders H
    (fun name =>
      if isForbiddenExtraHeader name then
        .error (.invalidConfig ("extra header " ++ H.debug name ++ " is not allowed"))
      else .ok ())
    builder extraHeaders.asBytes

/-- `chat_completions_url`. -/
def chatCompletionsUrl (U : UrlCrate Url) (baseUrl : Url) (query : String) : HarnessResult Url :=
  match U.pathSegments baseUrl with
  | none => .error (.invalidConfig
      ("upstream base URL " ++ U.debug baseUrl ++ " cannot be a base URL"))
  | some segments =>
    -- an empty last segment is dropped
    let kept := if segments.getLast? = some "" then segments.dropLast else segments
    let url := U.setPathSegments baseUrl (kept ++ ["chat", "completions"])
    if query = "" then .ok url
    else
      match U.query url with
      | some existing => .ok (U.setQuery url (existing ++ "&" ++ query))
      | none => .ok (U.setQuery url query)

/-- The builder that `execute_upstream_request_with_client` arrives at. -/
def buildUpstreamRequest (U : UrlCrate Url) (request : ChatCompletionsRequest Url) :
    HarnessResult (RequestBuilder Url) := do
  let url ← chatCompletionsUrl U request.config.baseUrl request.query
  let authedBuilder := (H.post url).bearerAuth H.builderError request.apiKey
  let forwardedBuilder ← applyForwardedHeaders H authedBuilder request.headers
  let extraBuilder ← applyExtraHeaders H forwardedBuilder request.config.extraHeaders
  .ok (extraBuilder.body request.body)

/-- `execute_upstream_request_with_client`: the requests that are sent, and the result. -/
def executeUpstreamRequest (U : UrlCrate Url) (request : ChatCompletionsRequest Url) :
    List (OutboundRequest Url) ×
      HarnessResult (UInt16 × Headers × List (String × Bytes) × UpstreamReply Body) :=
  match buildUpstreamRequest H U request with
  | .error e => ([], .error e)
  | .ok builder =>
    match builder.request with
    | .error source => ([], .error (.upstreamRequestFailed source))
    | .ok outbound =>
      match H.reply outbound with
      | .error source => ([outbound], .error (.upstreamRequestFailed source))
      | .ok response =>
        ([outbound], .ok (response.status, selectedResponseHeaders response.headers,
          selectedResponseProxyHeaders response.headers, response))

/-! ### Names in any case -/

theorem toAsciiLowercase_asStr (name : HeaderName) : toAsciiLowercase name.asStr = name.asStr := by
  rw [toAsciiLowercase, name.map_toLower, String.ofList_toList]

theorem eqIgnoreAsciiCase_iff {s t : String} :
    eqIgnoreAsciiCase s t = true ↔ toAsciiLowercase s = toAsciiLowercase t := by
  rw [eqIgnoreAsciiCase, beq_iff_eq, toAsciiLowercase, toAsciiLowercase]
  exact ⟨fun h => congrArg String.ofList h, fun h => String.ofList_injective h⟩

/-- A header is passed over if it is a credential, in whatever case. -/
theorem shouldForwardHeader_iff {name : String} :
    shouldForwardHeader name = true ↔ toAsciiLowercase name ≠ "authorization" := by
  have hlower : toAsciiLowercase "authorization" = "authorization" := by decide
  rw [shouldForwardHeader, Bool.not_eq_true', ← Bool.not_eq_true, eqIgnoreAsciiCase_iff, hlower]

theorem isForbiddenExtraHeader_iff {name : String} :
    isForbiddenExtraHeader name = true ↔ toAsciiLowercase name ∈ forbiddenExtraHeaders := by
  have hlower : forbiddenExtraHeaders.map toAsciiLowercase = forbiddenExtraHeaders := by decide
  rw [isForbiddenExtraHeader, List.any_eq_true]
  simp only [eqIgnoreAsciiCase_iff]
  conv_rhs => rw [← hlower]
  exact List.mem_map.symm

/-! ### What is appended -/

/-- The names and the bytes of outbound headers. -/
def headerTexts (headers : List (HeaderName × HeaderValue)) : List (String × Bytes) :=
  headers.map fun header => (header.1.asStr, header.2.bytes)

/-- The headers of a list that are passed on, with their names in lower case. -/
def passedOn (headers : List (String × Bytes)) : List (String × Bytes) :=
  (headers.filter fun header => shouldForwardHeader header.1).map fun header =>
    (toAsciiLowercase header.1, header.2)

/-- Headers behind those of a builder. -/
def RequestBuilder.append (builder : RequestBuilder Url)
    (headers : List (HeaderName × HeaderValue)) : RequestBuilder Url :=
  ⟨builder.request.map fun request => { request with headers := request.headers ++ headers }⟩

theorem RequestBuilder.append_nil (builder : RequestBuilder Url) : builder.append [] = builder := by
  cases builder with
  | mk request => cases request <;> simp [append, Except.map]

theorem RequestBuilder.header_append (builder : RequestBuilder Url) (name : HeaderName)
    (value : HeaderValue) (headers : List (HeaderName × HeaderValue)) :
    (builder.header name value).append headers = builder.append ((name, value) :: headers) := by
  cases builder with
  | mk request => cases request <;> simp [append, header, Except.map]

theorem toOutboundHeader_eq_ok {H : HttpCrates Url Body} {name : String} {value : Bytes}
    {out : HeaderName × HeaderValue} (h : toOutboundHeader H name value = .ok out) :
    out.1.asStr = toAsciiLowercase name ∧ out.2.bytes = value := by
  unfold toOutboundHeader at h
  cases hname : HeaderName.tryFrom name with
  | none => simp [hname] at h
  | some headerName =>
    cases hvalue : HeaderValue.fromBytes value with
    | none => simp [hname, hvalue] at h
    | some headerValue =>
      simp only [hname, hvalue, Except.ok.injEq] at h
      subst h
      exact ⟨HeaderName.asStr_of_tryFrom hname, HeaderValue.bytes_of_fromBytes hvalue⟩

/-- **What a loop over headers does when it succeeds**: it appends all headers but the credentials,
in order, and every one of them has passed the check. -/
theorem appendHeaders_spec {H : HttpCrates Url Body} {check : String → HarnessResult Unit}
    {headers : List (String × Bytes)} {builder builder' : RequestBuilder Url}
    (h : appendHeaders H check builder headers = .ok builder') :
    ∃ added, builder' = builder.append added ∧ headerTexts added = passedOn headers ∧
      ∀ header ∈ headers, shouldForwardHeader header.1 = true → check header.1 = .ok () := by
  induction headers generalizing builder with
  | nil =>
    obtain rfl := Except.ok.inj h
    exact ⟨[], (builder.append_nil).symm, rfl, by simp⟩
  | cons header headers ih =>
    obtain ⟨name, value⟩ := header
    cases hforward : shouldForwardHeader name with
    | false =>
      simp only [appendHeaders, hforward, Bool.not_false, if_true] at h
      obtain ⟨added, hbuilder, hadded, hchecked⟩ := ih h
      refine ⟨added, hbuilder, by simp [hadded, passedOn, hforward], ?_⟩
      intro other hother hkeep
      rcases List.mem_cons.1 hother with rfl | hother
      · rw [hforward] at hkeep
        cases hkeep
      · exact hchecked other hother hkeep
    | true =>
      simp only [appendHeaders, hforward, Bool.not_true, Bool.false_eq_true, if_false] at h
      cases hcheck : check name with
      | error e => simp [hcheck] at h
      | ok u =>
        cases hout : toOutboundHeader H name value with
        | error e => simp [hcheck, hout] at h
        | ok out =>
          simp only [hcheck, hout] at h
          obtain ⟨hname, hvalue⟩ := toOutboundHeader_eq_ok hout
          obtain ⟨added, hbuilder, hadded, hchecked⟩ := ih h
          refine ⟨out :: added, by rw [hbuilder, RequestBuilder.header_append], ?_, ?_⟩
          · simp only [headerTexts, passedOn] at hadded ⊢
            simp [hforward, hname, hvalue, hadded]
          · intro other hother hkeep
            rcases List.mem_cons.1 hother with rfl | hother
            · exact hcheck
            · exact hchecked other hother hkeep

/-! ### What is sent -/

/-- A builder that still has a request after headers were appended had one before. -/
theorem RequestBuilder.append_eq_ok {builder : RequestBuilder Url}
    {headers : List (HeaderName × HeaderValue)} {out : OutboundRequest Url}
    (h : (builder.append headers).request = .ok out) :
    ∃ request, builder.request = .ok request ∧ out.headers = request.headers ++ headers := by
  cases hrequest : builder.request with
  | error e => simp [append, hrequest, Except.map] at h
  | ok request =>
    simp only [append, hrequest, Except.map, Except.ok.injEq] at h
    exact ⟨request, rfl, by rw [← h]⟩

/-- A builder that still has a request has got a valid token. -/
theorem RequestBuilder.bearerAuth_eq_ok {builder : RequestBuilder Url} {builderError token : String}
    {out : OutboundRequest Url} (h : (builder.bearerAuth builderError token).request = .ok out) :
    ∃ request value, builder.request = .ok request ∧
      value.bytes = Str.asBytes ("Bearer " ++ token) ∧
      out.headers = request.headers ++ [(authorization, value)] := by
  unfold bearerAuth at h
  cases hvalue : HeaderValue.fromBytes (Str.asBytes ("Bearer " ++ token)) with
  | none =>
    simp only [hvalue] at h
    cases hrequest : builder.request <;> simp [hrequest, Except.bind] at h
  | some value =>
    simp only [hvalue] at h
    obtain ⟨request, hrequest, hheaders⟩ := @append_eq_ok _ _ [(authorization, value)] _ h
    exact ⟨request, value, hrequest, HeaderValue.bytes_of_fromBytes hvalue, hheaders⟩

theorem RequestBuilder.body_eq_ok {builder : RequestBuilder Url} {bytes : Bytes}
    {out : OutboundRequest Url} (h : (builder.body bytes).request = .ok out) :
    ∃ request, builder.request = .ok request ∧ out.headers = request.headers := by
  cases hrequest : builder.request with
  | error e => simp [body, hrequest, Except.map] at h
  | ok request =>
    simp only [body, hrequest, Except.map, Except.ok.injEq] at h
    exact ⟨request, rfl, by rw [← h]⟩

/-- A builder that is arrived at: which headers it has, and that no extra header is forbidden. -/
theorem buildUpstreamRequest_spec {H : HttpCrates Url Body} {U : UrlCrate Url}
    {request : ChatCompletionsRequest Url} {builder : RequestBuilder Url}
    (h : buildUpstreamRequest H U request = .ok builder) :
    (∀ out, builder.request = .ok out → ∃ url start bearer forwarded extra,
      chatCompletionsUrl U request.config.baseUrl request.query = .ok url ∧
      (H.post url).request = .ok start ∧
      bearer.bytes = Str.asBytes ("Bearer " ++ request.apiKey) ∧
      out.headers = start.headers ++ (authorization, bearer) :: (forwarded ++ extra) ∧
      headerTexts forwarded = passedOn request.headers ∧
      headerTexts extra = passedOn request.config.extraHeaders.asBytes) ∧
    ∀ entry ∈ request.config.extraHeaders.entries, shouldForwardHeader entry.1 = true →
      isForbiddenExtraHeader entry.1 = false := by
  simp only [buildUpstreamRequest, bind_eq_ok_iff, Except.ok.injEq] at h
  obtain ⟨url, hurl, forwardedBuilder, hforwarded, extraBuilder, hextra, rfl⟩ := h
  obtain ⟨forwarded, rfl, hforwardedTexts, -⟩ := appendHeaders_spec hforwarded
  obtain ⟨extra, rfl, hextraTexts, hchecked⟩ := appendHeaders_spec hextra
  refine ⟨fun out hout => ?_, fun entry hentry hkeep => ?_⟩
  -- back through the builder: the body, the extra headers, the forwarded ones, the token
  · obtain ⟨last, hlast, houtHeaders⟩ := RequestBuilder.body_eq_ok hout
    obtain ⟨before, hbefore, hlastHeaders⟩ := RequestBuilder.append_eq_ok hlast
    obtain ⟨authed, hauthed, hbeforeHeaders⟩ := RequestBuilder.append_eq_ok hbefore
    obtain ⟨start, bearer, hstart, hbearer, hauthedHeaders⟩ :=
      RequestBuilder.bearerAuth_eq_ok hauthed
    refine ⟨url, start, bearer, forwarded, extra, hurl, hstart, hbearer, ?_, hforwardedTexts,
      hextraTexts⟩
    rw [houtHeaders, hlastHeaders, hbeforeHeaders, hauthedHeaders]
    simp
  · have hcheck := hchecked _ (List.mem_map_of_mem hentry) hkeep
    cases hforbidden : isForbiddenExtraHeader entry.1 with
    | false => rfl
    | true => simp [hforbidden] at hcheck

/-- Only a builder that was arrived at and still has a request is sent. -/
theorem mem_executeUpstreamRequest {H : HttpCrates Url Body} {U : UrlCrate Url}
    {request : ChatCompletionsRequest Url} {out : OutboundRequest Url}
    (h : out ∈ (executeUpstreamRequest H U request).1) :
    ∃ builder, buildUpstreamRequest H U request = .ok builder ∧ builder.request = .ok out := by
  unfold executeUpstreamRequest at h
  cases hbuild : buildUpstreamRequest H U request with
  | error e => simp [hbuild] at h
  | ok builder =>
    cases hrequest : builder.request with
    | error e => simp [hbuild, hrequest] at h
    | ok outbound =>
      refine ⟨builder, rfl, ?_⟩
      cases hreply : H.reply outbound <;>
      · simp only [hbuild, hrequest, hreply, List.mem_singleton] at h
        rw [h, hrequest]

theorem executeUpstreamRequest_error {H : HttpCrates Url Body} {U : UrlCrate Url}
    {request : ChatCompletionsRequest Url} {e : HarnessError}
    (h : buildUpstreamRequest H U request = .error e) :
    executeUpstreamRequest H U request = ([], .error e) := by
  simp only [executeUpstreamRequest, h]

theorem HeaderName.eq_of_asStr {a b : HeaderName} (h : a.asStr = b.asStr) : a = b := by
  cases a
  cases b
  congr

/-- The headers of the client that are passed on. -/
def clientHeaders (inbound : HeaderMap) : HeaderMap :=
  inbound.filter fun header =>
    Permitted inbound requestOnlyExcludedHeaders header.1 ∧ header.1.asStr ≠ "authorization"

/-- What is passed on of the selected headers of the client. -/
theorem passedOn_selectedForwardHeaders (inbound : HeaderMap) :
    passedOn (selectedForwardHeaders inbound) =
      (clientHeaders inbound).map fun header => (header.1.asStr, header.2) := by
  have hkeep : ((fun header : String × Bytes => shouldForwardHeader header.1) ∘
      fun header : HeaderName × Bytes => (header.1.asStr, header.2)) =
      fun header => decide (header.1.asStr ≠ "authorization") := by
    funext header
    rw [Bool.eq_iff_iff, decide_eq_true_iff]
    exact shouldForwardHeader_iff.trans (by rw [toAsciiLowercase_asStr])
  simp only [passedOn, selectedForwardHeaders, selectedHeaderBytes, clientHeaders,
    selectHeadersUnified_eq inbound lower_requestOnly, List.filter_map, List.filter_filter,
    List.map_map, hkeep, id]
  simp only [Function.comp_def, toAsciiLowercase_asStr, ← Bool.decide_and, and_comm]

/-- What is passed on of the extra headers. -/
theorem passedOn_extraHeaders (extraHeaders : BTreeMap) :
    passedOn extraHeaders.asBytes =
      (extraHeaders.entries.filter fun entry =>
        toAsciiLowercase entry.1 ≠ "authorization").map fun entry =>
          (toAsciiLowercase entry.1, Str.asBytes entry.2) := by
  simp only [passedOn, BTreeMap.asBytes, List.filter_map, List.map_map]
  congr 1
  refine List.filter_congr fun entry _ => ?_
  rw [Bool.eq_iff_iff, decide_eq_true_iff]
  exact shouldForwardHeader_iff

theorem mem_headerTexts {headers : List (HeaderName × HeaderValue)}
    {header : HeaderName × HeaderValue} (h : header ∈ headers) :
    (header.1.asStr, header.2.bytes) ∈ headerTexts headers :=
  List.mem_map.2 ⟨header, h, rfl⟩

/-- A header that is passed on has the name of one that is there, in lower case, and is no
credential. -/
theorem exists_of_passedOn {added : List (HeaderName × HeaderValue)}
    {headers : List (String × Bytes)} (h : headerTexts added = passedOn headers)
    {header : HeaderName × HeaderValue} (hheader : header ∈ added) :
    ∃ raw ∈ headers, toAsciiLowercase raw.1 = header.1.asStr ∧
      shouldForwardHeader raw.1 = true := by
  have hmem := mem_headerTexts hheader
  rw [h] at hmem
  obtain ⟨raw, hraw, heq⟩ := List.mem_map.1 hmem
  obtain ⟨hin, hkeep⟩ := List.mem_filter.1 hraw
  exact ⟨raw, hin, (Prod.mk.inj heq).1, hkeep⟩

/-- No credential is passed on. -/
theorem filter_authorization_of_passedOn {added : List (HeaderName × HeaderValue)}
    {headers : List (String × Bytes)} (h : headerTexts added = passedOn headers) :
    added.filter (fun header => header.1.asStr == "authorization") = [] := by
  rw [List.filter_eq_nil_iff]
  intro header hheader
  obtain ⟨raw, -, hname, hkeep⟩ := exists_of_passedOn h hheader
  rw [beq_iff_eq, ← hname]
  exact shouldForwardHeader_iff.1 hkeep

/-- A header that is passed on from the client is permitted. -/
theorem permitted_of_passedOn {inbound : HeaderMap} {client : List (HeaderName × HeaderValue)}
    (h : headerTexts client = passedOn (selectedForwardHeaders inbound))
    {header : HeaderName × HeaderValue} (hheader : header ∈ client) :
    Permitted inbound requestOnlyExcludedHeaders header.1 := by
  have hmem := mem_headerTexts hheader
  rw [h, passedOn_selectedForwardHeaders] at hmem
  obtain ⟨raw, hraw, heq⟩ := List.mem_map.1 hmem
  obtain ⟨-, hkeep⟩ := List.mem_filter.1 hraw
  rw [← HeaderName.eq_of_asStr (Prod.mk.inj heq).1]
  exact (of_decide_eq_true hkeep).1

/-- An extra header that is passed on is not forbidden, if none is. -/
theorem not_forbidden_of_passedOn {extraHeaders : BTreeMap}
    (hallowed : ∀ entry ∈ extraHeaders.entries, shouldForwardHeader entry.1 = true →
      isForbiddenExtraHeader entry.1 = false)
    {extra : List (HeaderName × HeaderValue)}
    (h : headerTexts extra = passedOn extraHeaders.asBytes)
    {header : HeaderName × HeaderValue} (hheader : header ∈ extra) :
    header.1.asStr ∉ forbiddenExtraHeaders := by
  intro hforbidden
  obtain ⟨raw, hraw, hname, hkeep⟩ := exists_of_passedOn h hheader
  obtain ⟨entry, hentry, rfl⟩ := List.mem_map.1 hraw
  rw [← hname] at hforbidden
  have hno := hallowed entry hentry hkeep
  rw [isForbiddenExtraHeader_iff.2 hforbidden] at hno
  cases hno

/-- The headers are the bearer of the key, and no other credential; then the headers of the client
that are permitted and no credentials, in order, with duplicates and with their bytes; then the
extra headers that are no credentials, with their bytes, none of them forbidden. -/
def SoundHeaders (config : UpstreamConfig Url) (apiKey : String) (inbound : HeaderMap)
    (headers : List (HeaderName × HeaderValue)) : Prop :=
  ∃ bearer client extra,
    headers = (authorization, bearer) :: (client ++ extra) ∧
    bearer.bytes = Str.asBytes ("Bearer " ++ apiKey) ∧
    headers.filter (fun header => header.1.asStr == "authorization") = [(authorization, bearer)] ∧
    headerTexts client = (clientHeaders inbound).map (fun header => (header.1.asStr, header.2)) ∧
    (∀ header ∈ client, header.1.asStr ∉ hopByHopHeaders ∧
      header.1.asStr ∉ ["host", "content-length", "accept-encoding"] ∧
      ¬ NamedByConnection inbound header.1) ∧
    headerTexts extra =
      (config.extraHeaders.entries.filter fun entry =>
        toAsciiLowercase entry.1 ≠ "authorization").map (fun entry =>
          (toAsciiLowercase entry.1, Str.asBytes entry.2)) ∧
    ∀ header ∈ extra, header.1.asStr ∉ forbiddenExtraHeaders

section

variable {H : HttpCrates Url Body} {U : UrlCrate Url}

theorem HttpCrates.Lawful.hasCredentials (h : H.Lawful U) {baseUrl url : Url} {query : String}
    (hurl : chatCompletionsUrl U baseUrl query = .ok url) :
    U.hasCredentials url = U.hasCredentials baseUrl := by
  unfold chatCompletionsUrl at hurl
  cases hsegments : U.pathSegments baseUrl with
  | none => simp [hsegments] at hurl
  | some segments =>
    simp only [hsegments] at hurl
    generalize (if segments.getLast? = some "" then segments.dropLast else segments) = kept at hurl
    split_ifs at hurl
    · rw [← Except.ok.inj hurl, h.setPathSegments]
    · split at hurl <;> rw [← Except.ok.inj hurl, h.setQuery, h.setPathSegments]

/-- A request begins without headers where the base URL has no credentials. -/
theorem outbound_headers (config : UpstreamConfig Url) (apiKey query : String)
    (inbound : HeaderMap) (body : Bytes)
    (hpost : ∀ url start, chatCompletionsUrl U config.baseUrl query = .ok url →
      (H.post url).request = .ok start → start.headers = []) {out : OutboundRequest Url}
    (hout : out ∈ (executeUpstreamRequest H U
      ⟨config, apiKey, selectedForwardHeaders inbound, body, query⟩).1) :
    SoundHeaders config apiKey inbound out.headers := by
  obtain ⟨builder, hbuild, hrequest⟩ := mem_executeUpstreamRequest hout
  obtain ⟨hspec, hallowed⟩ := buildUpstreamRequest_spec hbuild
  obtain ⟨url, start, bearer, client, extra, hurl, hstart, hbearer, hheaders, hclient, hextra⟩ :=
    hspec out hrequest
  rw [hpost url start hurl hstart, List.nil_append] at hheaders
  refine ⟨bearer, client, extra, hheaders, hbearer, ?_, ?_, ?_, ?_, ?_⟩
  · have hname : (authorization.asStr == "authorization") = true := by decide
    rw [hheaders, List.filter_cons, if_pos hname, List.filter_append,
      filter_authorization_of_passedOn hclient, filter_authorization_of_passedOn hextra,
      List.append_nil]
  · exact hclient.trans (passedOn_selectedForwardHeaders inbound)
  · intro header hheader
    have hpermitted := permitted_of_passedOn hclient hheader
    exact ⟨hpermitted.hopByHop, hpermitted.excluded, hpermitted.connection⟩
  · exact hextra.trans (passedOn_extraHeaders config.extraHeaders)
  · intro header hheader
    exact not_forbidden_of_passedOn hallowed hextra hheader

/-- Where the base URL has credentials, the request has two. -/
theorem not_soundHeaders_of_credentials (hcrates : H.Lawful U)
    {request : ChatCompletionsRequest Url}
    (hcredentials : U.hasCredentials request.config.baseUrl = true) {out : OutboundRequest Url}
    (hout : out ∈ (executeUpstreamRequest H U request).1) (inbound : HeaderMap) :
    ¬ SoundHeaders request.config request.apiKey inbound out.headers := by
  rintro ⟨_, _, _, -, -, hone, -⟩
  obtain ⟨builder, hbuild, hrequest⟩ := mem_executeUpstreamRequest hout
  obtain ⟨url, start, bearer, client, extra, hurl, hstart, -, hheaders, -⟩ :=
    (buildUpstreamRequest_spec hbuild).1 out hrequest
  rw [← hcrates.hasCredentials hurl] at hcredentials
  obtain ⟨basic, hbasic⟩ := hcrates.signed url start hcredentials hstart
  have hname : (authorization.asStr == "authorization") = true := by decide
  -- the one of the base URL, and the bearer
  rw [hheaders, hbasic, List.singleton_append, List.filter_cons, if_pos hname, List.filter_cons,
    if_pos hname] at hone
  simp at hone

/-- With a forbidden extra header nothing is sent. -/
theorem not_sent_of_forbidden {request : ChatCompletionsRequest Url}
    (h : ∃ entry ∈ request.config.extraHeaders.entries,
      toAsciiLowercase entry.1 ≠ "authorization" ∧
        toAsciiLowercase entry.1 ∈ forbiddenExtraHeaders) :
    (executeUpstreamRequest H U request).1 = [] ∧
      ∃ e, (executeUpstreamRequest H U request).2 = .error e := by
  obtain ⟨entry, hentry, hkeep, hforbidden⟩ := h
  cases hbuild : buildUpstreamRequest H U request with
  | error e =>
    rw [executeUpstreamRequest_error hbuild]
    exact ⟨rfl, e, rfl⟩
  | ok builder =>
    have hno := (buildUpstreamRequest_spec hbuild).2 entry hentry
      (shouldForwardHeader_iff.2 hkeep)
    rw [isForbiddenExtraHeader_iff.2 hforbidden] at hno
    cases hno

end

/-- **The headers of the request to the upstream.**  Whatever the headers of the client, the key and
the extra headers, a request that is sent has sound headers, with one credential, exactly if the
base URL has no credentials.  With a forbidden extra header nothing is sent. -/
theorem outbound_headers_iff {H : HttpCrates Url Body} {U : UrlCrate Url} (hcrates : H.Lawful U)
    (config : UpstreamConfig Url) (apiKey query : String) (inbound : HeaderMap) (body : Bytes) :
    let request : ChatCompletionsRequest Url :=
      ⟨config, apiKey, selectedForwardHeaders inbound, body, query⟩
    (∀ out ∈ (executeUpstreamRequest H U request).1,
      SoundHeaders config apiKey inbound out.headers ↔
        U.hasCredentials config.baseUrl = false) ∧
    ((∃ entry ∈ config.extraHeaders.entries, toAsciiLowercase entry.1 ≠ "authorization" ∧
        toAsciiLowercase entry.1 ∈ forbiddenExtraHeaders) →
      (executeUpstreamRequest H U request).1 = [] ∧
        ∃ e, (executeUpstreamRequest H U request).2 = .error e) := by
  intro request
  refine ⟨fun out hout => ⟨fun hsound => ?_, fun hplain => ?_⟩, fun hforbidden => ?_⟩
  · by_contra hcredentials
    rw [Bool.not_eq_false] at hcredentials
    exact not_soundHeaders_of_credentials hcrates hcredentials hout inbound hsound
  · refine outbound_headers config apiKey query inbound body (fun url start hurl hstart => ?_) hout
    rw [hcrates.plain url start ((hcrates.hasCredentials hurl).trans hplain) hstart]
  · exact not_sent_of_forbidden hforbidden

/-! ### A small world -/

/-- URLs that are a user name and a password or none, path segments, and a query. -/
structure SmallUrl where
  userinfo : Option String
  segments : List String
  query : Option String
  deriving DecidableEq

def UrlCrate.small : UrlCrate SmallUrl where
  debug _ := "url"
  pathSegments url := some url.segments
  setPathSegments url segments := { url with segments }
  query := SmallUrl.query
  setQuery url query := { url with query := some query }
  hasCredentials url := url.userinfo.isSome

/-- What is made of `user:password`. -/
def basicCredential : HeaderValue := ⟨Str.asBytes "Basic dXNlcjpwYXNzd29yZA==", by decide⟩

/-- An upstream that replies to every request alike. -/
def HttpCrates.replying {Body : Type} (reply : UpstreamReply Body) : HttpCrates SmallUrl Body where
  post url :=
    if url.userinfo.isSome then
      ⟨.ok ⟨{ url with userinfo := none }, [(authorization, basicCredential)], []⟩⟩
    else ⟨.ok ⟨url, [], []⟩⟩
  reply _ := .ok reply
  invalidHeaderName := "invalid HTTP header name"
  invalidHeaderValue := "failed to parse header value"
  builderError := "builder error"
  debug s := "\"" ++ s ++ "\""

theorem HttpCrates.replying_lawful {Body : Type} (reply : UpstreamReply Body) :
    (HttpCrates.replying reply).Lawful .small where
  plain url start hplain hstart := by
    replace hplain : url.userinfo.isSome = false := hplain
    simp only [replying, hplain, Bool.false_eq_true, if_false, Except.ok.injEq] at hstart
    exact hstart.symm
  signed url start hcredentials hstart := by
    replace hcredentials : url.userinfo.isSome = true := hcredentials
    simp only [replying, hcredentials, if_true, Except.ok.injEq] at hstart
    exact ⟨basicCredential, by rw [← hstart]⟩
  setPathSegments url segments := rfl
  setQuery url query := rfl

/-- A client with a credential, hop-by-hop headers, one named by `Connection` and two of one name,
and extra headers with a credential. -/
theorem outbound_headers_mixed :
    let H : HttpCrates SmallUrl Unit := .replying ⟨200, [], ()⟩
    let config : UpstreamConfig SmallUrl :=
      ⟨⟨none, ["v1", ""], none⟩,
        ⟨[("AUTHORIZATION", "Bearer extra"), ("X-Title", "t")], by decide⟩⟩
    let inbound : HeaderMap :=
      [(⟨"connection", by decide, by decide⟩, Str.asBytes "X-Hop"),
        (⟨"authorization", by decide, by decide⟩, Str.asBytes "Bearer client"),
        (⟨"x-hop", by decide, by decide⟩, Str.asBytes "1"),
        (⟨"te", by decide, by decide⟩, Str.asBytes "trailers"),
        (⟨"x-raw", by decide, by decide⟩, [0xFF]),
        (⟨"x-raw", by decide, by decide⟩, Str.asBytes "a")]
    let request : ChatCompletionsRequest SmallUrl :=
      ⟨config, "key", selectedForwardHeaders inbound, [], "a=b"⟩
    ∃ out, (executeUpstreamRequest H .small request).1 = [out] ∧
      out.url = ⟨none, ["v1", "chat", "completions"], some "a=b"⟩ ∧
      headerTexts (out.headers.filter fun header => header.1.asStr == "authorization") =
        [("authorization", Str.asBytes "Bearer key")] ∧
      headerTexts out.headers =
        [("authorization", Str.asBytes "Bearer key"), ("x-raw", [0xFF]),
          ("x-raw", Str.asBytes "a"), ("x-title", Str.asBytes "t")] := by
  intro H config inbound request
  have hlength : (executeUpstreamRequest H .small request).1.length = 1 := by decide +kernel
  obtain ⟨out, hout⟩ := List.length_eq_one_iff.1 hlength
  have hurl : (executeUpstreamRequest H .small request).1.map OutboundRequest.url =
      [⟨none, ["v1", "chat", "completions"], some "a=b"⟩] := by decide +kernel
  obtain ⟨bearer, client, extra, hheaders, hbearer, hone, hclient, -, hextra, -⟩ :=
    ((outbound_headers_iff (HttpCrates.replying_lawful _) config "key" "a=b" inbound []).1 out
      (hout ▸ List.mem_singleton_self out)).2 rfl
  refine ⟨out, hout, ?_, ?_, ?_⟩
  · rw [hout] at hurl
    exact (List.cons.inj hurl).1
  · rw [hone]
    simp only [headerTexts, List.map_cons, List.map_nil, hbearer]
    decide
  · rw [hheaders]
    simp only [headerTexts, List.map_cons, List.map_append, hbearer] at hclient hextra ⊢
    rw [hclient, hextra]
    decide +kernel

/-- A base URL with a user name and a password: the request that is sent has two credentials. -/
theorem two_credentials_sent :
    let H : HttpCrates SmallUrl Unit := .replying ⟨200, [], ()⟩
    let request : ChatCompletionsRequest SmallUrl :=
      ⟨⟨⟨some "user:password", ["v1"], none⟩, ⟨[], by decide⟩⟩, "key", selectedForwardHeaders [],
        [], ""⟩
    H.Lawful .small ∧
      ∃ out, (executeUpstreamRequest H .small request).1 = [out] ∧
        headerTexts out.headers = [("authorization", Str.asBytes "Basic dXNlcjpwYXNzd29yZA=="),
          ("authorization", Str.asBytes "Bearer key")] ∧
        ¬ SoundHeaders request.config request.apiKey [] out.headers := by
  intro H request
  have hcrates : H.Lawful .small := HttpCrates.replying_lawful _
  refine ⟨hcrates, ?_⟩
  have hlength : (executeUpstreamRequest H .small request).1.length = 1 := by decide +kernel
  obtain ⟨out, hout⟩ := List.length_eq_one_iff.1 hlength
  have htexts : (executeUpstreamRequest H .small request).1.map (fun out =>
      headerTexts out.headers) = [[("authorization", Str.asBytes "Basic dXNlcjpwYXNzd29yZA=="),
        ("authorization", Str.asBytes "Bearer key")]] := by decide +kernel
  rw [hout] at htexts
  exact ⟨out, hout, (List.cons.inj htexts).1,
    not_soundHeaders_of_credentials hcrates rfl (hout ▸ List.mem_singleton_self out) []⟩

end SpycatcherHarness
