import SpycatcherHarness.Error
import SpycatcherHarness.Json.Value
import SpycatcherHarness.Text.Utf8

/-!
# Cassettes

A cassette is one recorded session: a format version and an ordered list of interactions, each a
request, a response and metadata.  These are the types of the on-disk schema, with the source's
fields; the JSON they are stored as is in `SpycatcherHarness.Cassette.Codec`.
-/

namespace SpycatcherHarness

/-- A list of headers in observed order, duplicates kept. -/
abbrev Headers := List (String × String)

/-- A protocol-aware stream event captured during recording. -/
inductive StreamEvent where
  /-- A comment frame: its payload without the leading `:`. -/
  | comment (text : String)
  /-- A `data:` frame: its payload, and the value it parses to when it is JSON. -/
  | data (raw : String) (parsedJson : Option Json)
  deriving DecidableEq

/-- Timing metadata captured for streamed responses. -/
structure StreamTiming where
  /-- Delay before the first streamed chunk, in milliseconds. -/
  ttftMs : UInt64
  /-- Relative offsets for each recorded event, in milliseconds. -/
  chunkOffsetsMs : List UInt64
  deriving DecidableEq

/-- Recorded request details. -/
structure RecordedRequest where
  method : String
  path : String
  /-- Raw query string in its observed order. -/
  query : String
  headers : Headers
  /-- Raw request body bytes. -/
  body : Bytes
  /-- The body's JSON value, when it is JSON. -/
  parsedJson : Option Json
  canonicalRequest : Option Json
  stableHash : Option String
  deriving DecidableEq

/-- Recorded response details. -/
inductive RecordedResponse where
  /-- An ordinary HTTP response body. -/
  | nonStream (status : UInt16) (headers : Headers) (body : Bytes) (parsedJson : Option Json)
  /-- A stream transcript plus parsed stream events. -/
  | stream (status : UInt16) (headers : Headers) (events : List StreamEvent)
      (rawTranscript : Bytes) (timing : Option StreamTiming)
  deriving DecidableEq

/-- Metadata attached to each recorded interaction. -/
structure InteractionMetadata where
  protocolId : String
  upstreamId : String
  /-- RFC 3339 timestamp of the recording. -/
  recordedAt : String
  /-- Milliseconds from the start of the session to the start of the interaction. -/
  relativeOffsetMs : UInt64
  deriving DecidableEq

/-- A recorded exchange with metadata. -/
structure Interaction where
  request : RecordedRequest
  response : RecordedResponse
  metadata : InteractionMetadata
  deriving DecidableEq

/-- A single recorded session. -/
structure Cassette where
  formatVersion : UInt32
  interactions : List Interaction
  deriving DecidableEq

/-- `CassetteFormatVersion::SUPPORTED`. -/
def supportedFormatVersion : UInt32 := 1

namespace Cassette

/-- `Cassette::new`. -/
def new : Cassette := ⟨supportedFormatVersion, []⟩

/-- `Cassette::append`. -/
def append (c : Cassette) (interaction : Interaction) : Cassette :=
  { c with interactions := c.interactions ++ [interaction] }

/-- `Cassette::validate`. -/
def validate (c : Cassette) : HarnessResult Unit :=
  if c.formatVersion = supportedFormatVersion then .ok ()
  else .error (.unsupportedCassetteFormatVersion c.formatVersion supportedFormatVersion)

@[simp] theorem new_interactions : new.interactions = [] := rfl

@[simp] theorem new_formatVersion : new.formatVersion = supportedFormatVersion := rfl

@[simp] theorem append_interactions (c : Cassette) (i : Interaction) :
    (c.append i).interactions = c.interactions ++ [i] := rfl

@[simp] theorem append_formatVersion (c : Cassette) (i : Interaction) :
    (c.append i).formatVersion = c.formatVersion := rfl

theorem validate_eq_ok_iff {c : Cassette} :
    c.validate = .ok () ↔ c.formatVersion = supportedFormatVersion := by
  unfold validate
  split_ifs with h <;> simp [h]

end Cassette

end SpycatcherHarness
