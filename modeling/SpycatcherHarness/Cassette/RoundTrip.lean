import SpycatcherHarness.Cassette.Codec
import SpycatcherHarness.Server.Exchange

/-!
# Writing a cassette and reading it back

A cassette whose numbers are integers is read back as it was written, but for one thing: an optional
value that is the JSON value `null` is written like an absent one, and comes back as absent.  Record
mode makes such values, of a body or a payload that consists of `null`.

* `RereadValue.eq_iff` : an optional value comes back unless it is `null`.
* `Cassette.read_back_iff` : a cassette comes back exactly if it has no such value.
* `null_body_not_read_back` : one that record mode makes, and that does not.
-/

namespace SpycatcherHarness

/-- All numbers in the value are integers. -/
inductive Json.Integral : Json → Prop
  | null : Integral null
  | bool (b : Bool) : Integral (bool b)
  | posInt (n : UInt64) : Integral (number (.posInt n))
  | negInt (m : Fin (2 ^ 63)) : Integral (number (.negInt m))
  | string (s : String) : Integral (string s)
  | array {xs : List Json} : (∀ x ∈ xs, Integral x) → Integral (array xs)
  | object {es : List (String × Json)} : (∀ v ∈ es.map Prod.snd, Integral v) → Integral (object es)

/-- Lists come back as they were if their items do. -/
theorem eq_of_forall₂ {α : Type*} {R : α → α → Prop} {xs ys : List α} (h : List.Forall₂ R xs ys)
    (hR : ∀ x ∈ xs, ∀ y, R x y → y = x) : ys = xs := by
  induction h with
  | nil => rfl
  | cons hxy _ ih =>
    rw [List.forall_mem_cons] at hR
    rw [hR.1 _ hxy, ih hR.2]

/-- Lists come back exactly if their items do. -/
theorem eq_iff_of_forall₂ {α : Type*} {R : α → α → Prop} {P : α → Prop} {xs ys : List α}
    (h : List.Forall₂ R xs ys) (hR : ∀ x ∈ xs, ∀ y, R x y → (y = x ↔ P x)) :
    ys = xs ↔ ∀ x ∈ xs, P x := by
  induction h with
  | nil => simp
  | cons hxy _ ih =>
    rw [List.forall_mem_cons] at hR
    rw [List.cons.injEq, hR.1 _ hxy, ih hR.2, List.forall_mem_cons]

/-- A value whose numbers are integers comes back. -/
theorem Json.ReadBack.eq_of_integral {v : Json} (hv : v.Integral) : ∀ w, ReadBack v w → w = v := by
  induction v using Json.induct with
  | null | bool b | string s => intro w h; cases h; rfl
  | number n => intro w h; cases h <;> first | rfl | cases hv
  | array xs ih =>
    intro w h
    cases h with
    | array hitems =>
      cases hv with
      | array hxs => rw [eq_of_forall₂ hitems fun x hx w hw => ih x hx (hxs x hx) w hw]
  | object es ih =>
    intro w h
    cases h with
    | object hkeys hvalues =>
      rename_i fs
      cases hv with
      | object hes =>
        have heq : fs.map Prod.snd = es.map Prod.snd := by
          refine eq_of_forall₂ hvalues fun x hx w hw => ?_
          obtain ⟨e, he, rfl⟩ := List.mem_map.1 hx
          exact ih e he (hes _ hx) w hw
        -- keys and values make up the entries
        rw [← List.zip_unzip fs, ← List.zip_unzip es, List.unzip_fst, List.unzip_snd,
          List.unzip_fst, List.unzip_snd, hkeys, heq]

/-! ### Values, field by field -/

/-- All numbers in an optional value are integers. -/
def Codec.IntegralOption (o : Option Json) : Prop := ∀ v, o = some v → v.Integral

/-- **An optional value comes back unless it is `null`.** -/
theorem RereadValue.eq_iff {o o' : Option Json} (h : RereadValue o o')
    (hint : Codec.IntegralOption o) : o' = o ↔ o ≠ Option.some .null := by
  cases h with
  | none => simp
  | null => simp
  | some hne hread => simp [hread.eq_of_integral (hint _ rfl), hne]

def StreamEvent.Integral : StreamEvent → Prop
  | .comment _ => True
  | .data _ parsedJson => Codec.IntegralOption parsedJson

/-- The payload is not `null`. -/
def StreamEvent.NoNull : StreamEvent → Prop
  | .comment _ => True
  | .data _ parsedJson => parsedJson ≠ some .null

theorem StreamEvent.Reread.eq_iff {e e' : StreamEvent} (h : e.Reread e') (hint : e.Integral) :
    e' = e ↔ e.NoNull := by
  cases h with
  | comment text => simp [NoNull]
  | data raw hp => simp [NoNull, RereadValue.eq_iff hp hint]

def RecordedResponse.Integral : RecordedResponse → Prop
  | .nonStream _ _ _ parsedJson => Codec.IntegralOption parsedJson
  | .stream _ _ events _ _ => ∀ e ∈ events, e.Integral

/-- Neither the body nor the payload of an event is `null`. -/
def RecordedResponse.NoNull : RecordedResponse → Prop
  | .nonStream _ _ _ parsedJson => parsedJson ≠ some .null
  | .stream _ _ events _ _ => ∀ e ∈ events, e.NoNull

theorem RecordedResponse.Reread.eq_iff {r r' : RecordedResponse} (h : r.Reread r')
    (hint : r.Integral) : r' = r ↔ r.NoNull := by
  cases h with
  | nonStream status headers body hp => simp [NoNull, RereadValue.eq_iff hp hint]
  | stream status headers rawTranscript timing hevents =>
    simp [NoNull, eq_iff_of_forall₂ hevents fun e he e' hread => hread.eq_iff (hint e he)]

/-- All numbers in the values of an interaction are integers. -/
structure Interaction.Integral (i : Interaction) : Prop where
  parsedJson : Codec.IntegralOption i.request.parsedJson
  canonicalRequest : Codec.IntegralOption i.request.canonicalRequest
  response : i.response.Integral

/-- None of the values of an interaction is `null`. -/
structure Interaction.NoNull (i : Interaction) : Prop where
  parsedJson : i.request.parsedJson ≠ some .null
  canonicalRequest : i.request.canonicalRequest ≠ some .null
  response : i.response.NoNull

theorem Interaction.Reread.eq_iff {i i' : Interaction} (h : i.Reread i') (hint : i.Integral) :
    i' = i ↔ i.NoNull := by
  have hparsed := RereadValue.eq_iff h.request.parsedJson hint.parsedJson
  have hcanonical := RereadValue.eq_iff h.request.canonicalRequest hint.canonicalRequest
  have hresponse := h.response.eq_iff hint.response
  constructor
  · rintro rfl
    exact ⟨hparsed.1 rfl, hcanonical.1 rfl, hresponse.1 rfl⟩
  · intro hnull
    have hrequest : i'.request = i.request := by
      rw [h.request.rest, hparsed.2 hnull.parsedJson, hcanonical.2 hnull.canonicalRequest]
    obtain ⟨request, response, metadata⟩ := i
    obtain ⟨request', response', metadata'⟩ := i'
    simp only [Interaction.mk.injEq]
    exact ⟨hrequest, hresponse.2 hnull.response, h.metadata.symm⟩

/-! ### Cassettes -/

/-- **A cassette is read back as it was written exactly if none of its values is `null`.**  This is
for a cassette of the supported version whose numbers are integers, whenever it can be read back at
all. -/
theorem Cassette.read_back_iff {S : SerdeJson} (hS : S.Lawful) {c c' : Cassette}
    (hversion : c.formatVersion = supportedFormatVersion) (hwf : ∀ i ∈ c.interactions, i.Wf)
    (hint : ∀ i ∈ c.interactions, i.Integral) (hread : fromReader S (c.writeTo S) = .ok c') :
    c' = c ↔ ∀ i ∈ c.interactions, i.NoNull := by
  obtain ⟨hshallow, hdeep⟩ := fromReader_writeTo hS hversion hwf
  by_cases hdepth : ∀ i ∈ c.interactions, i.DepthLe eventDepth
  · obtain ⟨d, hd, hreread⟩ := hshallow hdepth
    obtain rfl : c' = d := Except.ok.inj (hread.symm.trans hd)
    have hiff := eq_iff_of_forall₂ hreread.interactions
      fun i hi i' hread => hread.eq_iff (hint i hi)
    rw [← hiff]
    obtain ⟨version, interactions⟩ := c
    obtain ⟨version', interactions'⟩ := c'
    simp only [Cassette.mk.injEq, and_iff_right_iff_imp]
    exact fun _ => hreread.formatVersion.symm
  · rw [hdeep hdepth] at hread
    cases hread

/-- A cassette without `null` comes back. -/
theorem Cassette.read_back_iff_comment :
    let c : Cassette := ⟨supportedFormatVersion, [
      { request := ⟨"POST", "/v1/chat/completions", "", [], [0x31], some (.number (.posInt 1)),
          none, none⟩
        response := .stream 200 [] [.comment "x", .data "[]" (some (.array []))] [] none
        metadata := ⟨"chat", "up", "now", 0⟩ }]⟩
    ∃ c', fromReader .exact (c.writeTo .exact) = .ok c' ∧ c' = c := by
  intro c
  have hread : fromReader .exact (c.writeTo .exact) = .ok c :=
    Cassette.fromReader_exact (by decide +kernel) rfl
  refine ⟨c, hread, (Cassette.read_back_iff SerdeJson.exact_lawful rfl ?_ ?_ hread).2 ?_⟩
  · simp only [c, List.forall_mem_singleton]
    refine ⟨?_, ?_, ?_⟩
    · rintro _ ⟨⟩
      trivial
    · rintro _ ⟨⟩
    · simp [RecordedResponse.Wf, StreamEvent.Wf, Codec.WfOption, Json.wf_array]
  · simp only [c, List.forall_mem_singleton]
    refine ⟨?_, ?_, ?_⟩
    · rintro _ ⟨⟩
      exact .posInt 1
    · rintro _ ⟨⟩
    · rintro e he
      simp only [List.mem_cons, List.not_mem_nil, or_false] at he
      rcases he with rfl | rfl
      · trivial
      · rintro _ ⟨⟩
        exact .array (by simp)
  · simp only [c, List.forall_mem_singleton]
    exact ⟨by simp, by simp, by simp [RecordedResponse.NoNull, StreamEvent.NoNull]⟩

/-- Record mode makes an interaction of a request with the body `null` that is not read back as it
was written. -/
theorem null_body_not_read_back :
    let C : RecordConfig := ⟨.exact, fun _ => [], .default⟩
    let request : ObservedRequest :=
      ⟨"POST", "/v1/chat/completions", "", [], [], SerdeJson.exact.toWriterPretty .null,
        some .null⟩
    let response : ObservedResponse := ⟨200, [], [], [], none⟩
    C.Observes request ∧ ∃ i c',
      C.buildInteraction request response (.ok ⟨"chat", "up", "now", 0⟩) = .ok i ∧
      i.Wf ∧ i.Integral ∧
      Cassette.fromReader .exact ((Cassette.new.append i).writeTo .exact) = .ok c' ∧
      c' ≠ Cassette.new.append i := by
  intro C request response
  refine ⟨RecordConfig.observes_exact rfl rfl trivial (by decide), ?_⟩
  let i : Interaction :=
    ⟨C.recordedRequest request, C.recordedResponse response, ⟨"chat", "up", "now", 0⟩⟩
  -- the parsed body comes back as absent
  let c' : Cassette := ⟨supportedFormatVersion,
    [{ i with request := { i.request with parsedJson := none } }]⟩
  have hcanonical : i.request.canonicalRequest = some (.object [("method", .string "POST"),
      ("path", .string "/v1/chat/completions"), ("canonical_query", .string ""),
      ("canonical_body", .null)]) := by decide +kernel
  have hwf : i.Wf := by
    refine ⟨?_, ?_, ?_⟩
    · rintro _ ⟨⟩
      trivial
    · rw [hcanonical]
      rintro _ ⟨⟩
      decide
    · rintro _ ⟨⟩
  have hintegral : i.Integral := by
    refine ⟨?_, ?_, ?_⟩
    · rintro _ ⟨⟩
      exact .null
    · rw [hcanonical]
      rintro _ ⟨⟩
      refine .object ?_
      simp only [List.map_cons, List.map_nil, List.forall_mem_cons]
      exact ⟨.string _, .string _, .string _, .null, by simp⟩
    · rintro _ ⟨⟩
  exact ⟨i, c', by rfl, hwf, hintegral,
    Cassette.fromReader_exact_decoded (by decide +kernel) rfl, by decide +kernel⟩

end SpycatcherHarness
