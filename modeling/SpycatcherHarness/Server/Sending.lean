import SpycatcherHarness.Server.Responses

/-!
# Which requests are sent

Whether a request goes out to the upstream, and which, from what the service is configured with and
what the client has sent.

* `appendHeaders_ok_iff` : when a loop over headers succeeds.
* `mem_executeUpstreamRequest_iff` : a request is sent exactly if it is the one that `Sends` tells.
* `sends_iff_ready` : for headers that are headers, only the configuration and the credential decide
  whether it is.
-/

namespace SpycatcherHarness

variable {Url Body : Type}

/-! ### Loops over headers -/

/-- A name and a value can be sent if they make a header. -/
theorem toOutboundHeader_ok_iff {H : HttpCrates Url Body} {name : String} {value : Bytes} :
    (∃ out, toOutboundHeader H name value = .ok out) ↔ (validHeader (name, value)).isSome := by
  unfold toOutboundHeader validHeader
  cases HeaderName.tryFrom name with
  | none => simp
  | some headerName => cases HeaderValue.fromBytes value <;> simp

/-- **When a loop over headers succeeds**: if all headers but the credentials pass the check, and
make headers. -/
theorem appendHeaders_ok_iff {H : HttpCrates Url Body} {check : String → HarnessResult Unit}
    {headers : List (String × Bytes)} (builder : RequestBuilder Url) :
    (∃ builder', appendHeaders H check builder headers = .ok builder') ↔
      ∀ header ∈ headers, shouldForwardHeader header.1 = true →
        check header.1 = .ok () ∧ (validHeader header).isSome := by
  induction headers generalizing builder with
  | nil => simp [appendHeaders]
  | cons header headers ih =>
    obtain ⟨name, value⟩ := header
    rw [List.forall_mem_cons]
    cases hforward : shouldForwardHeader name with
    | false =>
      simp only [appendHeaders, hforward, Bool.not_false, if_true, Bool.false_eq_true,
        false_imp_iff, true_and]
      exact ih builder
    | true =>
      simp only [appendHeaders, hforward, Bool.not_true, Bool.false_eq_true, if_false,
        true_imp_iff]
      cases hcheck : check name with
      | error e => simp
      | ok u =>
        rw [← @toOutboundHeader_ok_iff _ _ H]
        cases hout : toOutboundHeader H name value with
        | error e => simp
        | ok out => simpa using ih (builder.header out.1 out.2)

/-- Headers can be told by their texts. -/
theorem headerTexts_injective : Function.Injective headerTexts := by
  refine List.map_injective_iff.2 fun a b h => ?_
  rw [Prod.mk.injEq] at h
  exact Prod.ext (HeaderName.eq_of_asStr h.1) (HeaderValue.ext_bytes h.2)

theorem HeaderValue.fromBytes_bytes {value : HeaderValue} {bytes : Bytes}
    (h : value.bytes = bytes) : HeaderValue.fromBytes bytes = some value := by
  subst h
  rw [fromBytes, dif_pos value.valid]

/-- A header whose texts, in lower case, are those of one makes that one. -/
theorem validHeader_isSome {header : HeaderName × HeaderValue} {raw : String × Bytes}
    (hname : header.1.asStr = toAsciiLowercase raw.1) (hvalue : header.2.bytes = raw.2)
    (hlength : raw.1.toList.length ≤ 65535) : (validHeader raw).isSome := by
  have hvalid : toAsciiLowercase raw.1 ≠ "" ∧ raw.1.toList.length ≤ 65535 ∧
      (toAsciiLowercase raw.1).toList.all isHeaderNameChar = true := by
    rw [← hname]
    exact ⟨header.1.nonempty, hlength, header.1.chars⟩
  rw [validHeader, HeaderName.tryFrom, dif_pos hvalid, HeaderValue.fromBytes_bytes hvalue]
  rfl

/-- Headers whose texts are those that are passed on are valid ones. -/
theorem valid_of_passedOn {added : List (HeaderName × HeaderValue)}
    {headers : List (String × Bytes)} (h : headerTexts added = passedOn headers)
    {raw : String × Bytes} (hraw : raw ∈ headers) (hkeep : shouldForwardHeader raw.1 = true)
    (hlength : raw.1.toList.length ≤ 65535) : (validHeader raw).isSome := by
  have hmem : (toAsciiLowercase raw.1, raw.2) ∈ passedOn headers :=
    List.mem_map.2 ⟨raw, List.mem_filter.2 ⟨hraw, hkeep⟩, rfl⟩
  rw [← h] at hmem
  obtain ⟨header, -, heq⟩ := List.mem_map.1 hmem
  rw [Prod.mk.injEq] at heq
  exact validHeader_isSome heq.1 heq.2 hlength

/-- Valid headers have names that are not too long. -/
theorem length_of_validHeader {raw : String × Bytes} (h : (validHeader raw).isSome) :
    raw.1.toList.length ≤ 65535 := by
  unfold validHeader at h
  cases hname : HeaderName.tryFrom raw.1 with
  | none => simp [hname] at h
  | some name =>
    unfold HeaderName.tryFrom at hname
    split_ifs at hname with hvalid
    exact hvalid.2.1

/-! ### The request that is sent -/

/-- A request begins at the URL, and has no headers and no body yet. -/
def Posts (post : Url → RequestBuilder Url) (url : Url) : Prop :=
  ∀ start, (post url).request = .ok start → start = ⟨url, [], []⟩

/-- `Client::post`, for the URLs that are made of a base URL without credentials. -/
theorem HttpCrates.Lawful.posts {H : HttpCrates Url Body} {U : UrlCrate Url} (h : H.Lawful U)
    {baseUrl url : Url} (hplain : U.hasCredentials baseUrl = false) {query : String}
    (hurl : chatCompletionsUrl U baseUrl query = .ok url) : Posts H.post url :=
  fun start hstart => h.plain url start ((h.hasCredentials hurl).trans hplain) hstart

/-- The request goes out for what the upstream client is asked for. -/
structure Sends (post : Url → RequestBuilder Url) (U : UrlCrate Url)
    (request : ChatCompletionsRequest Url) (out : OutboundRequest Url) : Prop where
  url : chatCompletionsUrl U request.config.baseUrl request.query = .ok out.url
  posted : (post out.url).request = .ok ⟨out.url, [], []⟩
  body : out.body = request.body
  /-- The bearer, what is passed on of the client's headers, and of the extra headers. -/
  headers : headerTexts out.headers =
    ("authorization", Str.asBytes ("Bearer " ++ request.apiKey)) ::
    (passedOn request.headers ++ passedOn request.config.extraHeaders.asBytes)
  names : ∀ header ∈ request.headers ++ request.config.extraHeaders.asBytes,
    shouldForwardHeader header.1 = true → header.1.toList.length ≤ 65535
  allowed : ∀ entry ∈ request.config.extraHeaders.entries, shouldForwardHeader entry.1 = true →
    isForbiddenExtraHeader entry.1 = false

section

variable {H : HttpCrates Url Body} {post : Url → RequestBuilder Url} {U : UrlCrate Url}
  {request : ChatCompletionsRequest Url} {out : OutboundRequest Url}

/-- A builder with a request, through all that is put into it. -/
theorem RequestBuilder.request_built {builder : RequestBuilder Url} {url : Url}
    (hbuilder : builder.request = .ok ⟨url, [], []⟩) {token : String} {bearer : HeaderValue}
    (hbearer : HeaderValue.fromBytes (Str.asBytes ("Bearer " ++ token)) = some bearer)
    (builderError : String) (forwarded extra : List (HeaderName × HeaderValue)) (bytes : Bytes) :
    ((((builder.bearerAuth builderError token).append forwarded).append extra).body bytes).request =
      .ok ⟨url, (authorization, bearer) :: (forwarded ++ extra), bytes⟩ := by
  simp only [bearerAuth, hbearer, header, append, body, hbuilder, Except.map, List.nil_append,
    List.cons_append]

/-- The texts of the headers behind the bearer, one list after the other. -/
theorem Sends.split (h : Sends post U request out) : ∃ bearer forwarded extra,
    out = ⟨out.url, (authorization, bearer) :: (forwarded ++ extra), request.body⟩ ∧
    HeaderValue.fromBytes (Str.asBytes ("Bearer " ++ request.apiKey)) = some bearer ∧
    headerTexts forwarded = passedOn request.headers ∧
    headerTexts extra = passedOn request.config.extraHeaders.asBytes := by
  obtain ⟨url, headers, body⟩ := out
  have htexts := h.headers
  cases headers with
  | nil => cases htexts
  | cons first rest =>
    rw [headerTexts, List.map_cons, List.cons.injEq, Prod.mk.injEq] at htexts
    obtain ⟨⟨hname, hvalue⟩, hrest⟩ := htexts
    obtain ⟨forwarded, extra, rfl, hforwarded, hextra⟩ := List.map_eq_append_iff.1 hrest
    have hfirst : first = (authorization, first.2) :=
      Prod.ext (HeaderName.eq_of_asStr hname) rfl
    have hbody : body = request.body := h.body
    exact ⟨first.2, forwarded, extra, by rw [← hfirst, hbody], HeaderValue.fromBytes_bytes hvalue,
      hforwarded, hextra⟩

/-- A request that goes out is arrived at. -/
theorem Sends.build (h : Sends H.post U request out) :
    ∃ builder, buildUpstreamRequest H U request = .ok builder ∧ builder.request = .ok out := by
  obtain ⟨bearer, forwarded, extra, hout, hbearer, hforwarded, hextra⟩ := h.split
  have hnames := List.forall_mem_append.1 h.names
  let authed := (H.post out.url).bearerAuth H.builderError request.apiKey
  obtain ⟨forwardedBuilder, happly⟩ : ∃ builder, applyForwardedHeaders H authed request.headers =
      .ok builder := by
    refine (appendHeaders_ok_iff authed).2 fun raw hraw hkeep => ⟨rfl, ?_⟩
    exact valid_of_passedOn hforwarded hraw hkeep (hnames.1 raw hraw hkeep)
  obtain ⟨extraBuilder, happly'⟩ : ∃ builder, applyExtraHeaders H forwardedBuilder
      request.config.extraHeaders = .ok builder := by
    refine (appendHeaders_ok_iff forwardedBuilder).2 fun raw hraw hkeep => ⟨?_, ?_⟩
    · obtain ⟨entry, hentry, rfl⟩ := List.mem_map.1 hraw
      simp only [h.allowed entry hentry hkeep, Bool.false_eq_true, if_false]
    · exact valid_of_passedOn hextra hraw hkeep (hnames.2 raw hraw hkeep)
  refine ⟨extraBuilder.body request.body, ?_, ?_⟩
  · simp only [buildUpstreamRequest, bind_eq_ok_iff]
    exact ⟨out.url, h.url, forwardedBuilder, happly, extraBuilder, happly', rfl⟩
  -- what the loops have added has the texts of what is there
  · obtain ⟨added, rfl, hadded, -⟩ := appendHeaders_spec happly
    obtain ⟨added', rfl, hadded', -⟩ := appendHeaders_spec happly'
    obtain rfl : added = forwarded := headerTexts_injective (hadded.trans hforwarded.symm)
    obtain rfl : added' = extra := headerTexts_injective (hadded'.trans hextra.symm)
    rw [RequestBuilder.request_built h.posted hbearer, hout]

/-- A request that is arrived at goes out. -/
theorem Sends.of_build (hcrates : H.Lawful U)
    (hplain : U.hasCredentials request.config.baseUrl = false) {builder : RequestBuilder Url}
    (hbuild : buildUpstreamRequest H U request = .ok builder)
    (hrequest : builder.request = .ok out) : Sends H.post U request out := by
  have hallowed := (buildUpstreamRequest_spec hbuild).2
  simp only [buildUpstreamRequest, bind_eq_ok_iff, Except.ok.injEq] at hbuild
  obtain ⟨url, hurl, forwardedBuilder, happly, extraBuilder, happly', rfl⟩ := hbuild
  have hvalid := (appendHeaders_ok_iff _).1 ⟨_, happly⟩
  have hvalid' := (appendHeaders_ok_iff _).1 ⟨_, happly'⟩
  obtain ⟨forwarded, rfl, hforwarded, -⟩ := appendHeaders_spec happly
  obtain ⟨extra, rfl, hextra, -⟩ := appendHeaders_spec happly'
  -- back through the builder to the request it began with, and the token
  obtain ⟨last, hlast, -⟩ := RequestBuilder.body_eq_ok hrequest
  obtain ⟨before, hbefore, -⟩ := RequestBuilder.append_eq_ok hlast
  obtain ⟨authed, hauthed, -⟩ := RequestBuilder.append_eq_ok hbefore
  obtain ⟨start, bearer, hstart, hvalue, -⟩ := RequestBuilder.bearerAuth_eq_ok hauthed
  obtain rfl := hcrates.posts hplain hurl start hstart
  rw [RequestBuilder.request_built hstart (HeaderValue.fromBytes_bytes hvalue),
    Except.ok.injEq] at hrequest
  subst hrequest
  refine ⟨hurl, hstart, rfl, ?_, ?_, hallowed⟩
  · rw [headerTexts, List.map_cons, List.map_append, hvalue, ← hforwarded, ← hextra]
    rfl
  · rw [List.forall_mem_append]
    exact ⟨fun raw hraw hkeep => length_of_validHeader (hvalid raw hraw hkeep).2,
      fun raw hraw hkeep => length_of_validHeader (hvalid' raw hraw hkeep).2⟩

/-- **A request is sent exactly if it is the one that the upstream client is asked for**, where the
base URL has no credentials. -/
theorem mem_executeUpstreamRequest_iff (hcrates : H.Lawful U)
    (hplain : U.hasCredentials request.config.baseUrl = false) :
    out ∈ (executeUpstreamRequest H U request).1 ↔ Sends H.post U request out := by
  constructor
  · intro h
    obtain ⟨builder, hbuild, hrequest⟩ := mem_executeUpstreamRequest h
    exact .of_build hcrates hplain hbuild hrequest
  · intro h
    obtain ⟨builder, hbuild, hrequest⟩ := h.build
    unfold executeUpstreamRequest
    rw [hbuild]
    simp only [hrequest]
    cases H.reply out <;> exact List.mem_singleton_self out

/-- What the configuration and the credential have to be like for a request to go out. -/
structure UpstreamConfig.Ready (config : UpstreamConfig Url) (apiKey : String) : Prop where
  bearer : (Str.asBytes ("Bearer " ++ apiKey)).all isHeaderValueByte = true
  allowed : ∀ entry ∈ config.extraHeaders.entries, shouldForwardHeader entry.1 = true →
    isForbiddenExtraHeader entry.1 = false
  extra : ∀ raw ∈ config.extraHeaders.asBytes, shouldForwardHeader raw.1 = true →
    (validHeader raw).isSome

/-- Headers that are valid can be passed on. -/
theorem exists_passedOn {headers : List (String × Bytes)}
    (h : ∀ raw ∈ headers, shouldForwardHeader raw.1 = true → (validHeader raw).isSome) :
    ∃ added, headerTexts added = passedOn headers := by
  induction headers with
  | nil => exact ⟨[], rfl⟩
  | cons raw headers ih =>
    rw [List.forall_mem_cons] at h
    obtain ⟨added, hadded⟩ := ih h.2
    cases hkeep : shouldForwardHeader raw.1 with
    | false => exact ⟨added, by rw [hadded, passedOn, passedOn, List.filter_cons, hkeep]; rfl⟩
    | true =>
      have hvalid := h.1 hkeep
      unfold validHeader at hvalid
      cases hname : HeaderName.tryFrom raw.1 with
      | none => simp [hname] at hvalid
      | some name =>
        cases hvalue : HeaderValue.fromBytes raw.2 with
        | none => simp [hname, hvalue] at hvalid
        | some value =>
          refine ⟨(name, value) :: added, ?_⟩
          simp only [headerTexts, passedOn] at hadded ⊢
          rw [List.map_cons, hadded, List.filter_cons, if_pos hkeep, List.map_cons,
            HeaderName.asStr_of_tryFrom hname, HeaderValue.bytes_of_fromBytes hvalue]

/-- **Only the configuration and the credential decide whether a request goes out**, if the headers
of the client are headers. -/
theorem sends_iff_ready (hheaders : ∀ header ∈ request.headers, Spelled header) :
    (∃ out, Sends post U request out) ↔
      (∃ url, chatCompletionsUrl U request.config.baseUrl request.query = .ok url ∧
        (post url).request = .ok ⟨url, [], []⟩) ∧ request.config.Ready request.apiKey := by
  have hvalid : ∀ raw ∈ request.headers, (validHeader raw).isSome := by
    intro raw hraw
    obtain ⟨name, value, hheader, -⟩ := validHeader_spelled (hheaders raw hraw)
    exact Option.isSome_of_eq_some hheader
  constructor
  · rintro ⟨out, h⟩
    obtain ⟨bearer, forwarded, extra, -, hbearer, -, hextra⟩ := h.split
    refine ⟨⟨out.url, h.url, h.posted⟩, ?_, h.allowed, fun raw hraw hkeep => ?_⟩
    · rw [← HeaderValue.bytes_of_fromBytes hbearer]
      exact bearer.valid
    · exact valid_of_passedOn hextra hraw hkeep
        (h.names raw (List.mem_append_right _ hraw) hkeep)
  · rintro ⟨⟨url, hurl, hpost⟩, hready⟩
    obtain ⟨forwarded, hforwarded⟩ := exists_passedOn fun raw hraw _ => hvalid raw hraw
    obtain ⟨extra, hextra⟩ := exists_passedOn hready.extra
    refine ⟨⟨url, (authorization, ⟨_, hready.bearer⟩) :: (forwarded ++ extra), request.body⟩,
      hurl, hpost, rfl, ?_, ?_, hready.allowed⟩
    · rw [← hforwarded, ← hextra, headerTexts, List.map_cons, List.map_append]
      rfl
    · rw [List.forall_mem_append]
      exact ⟨fun raw hraw _ => length_of_validHeader (hvalid raw hraw),
        fun raw hraw hkeep => length_of_validHeader (hready.extra raw hraw hkeep)⟩

end

end SpycatcherHarness
