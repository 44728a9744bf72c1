import Mathlib.Data.Nat.Notation

/-!
# Harness errors

`HarnessError` as the modelled paths construct it.  The texts that come from outside the source (an
I/O error's message, the position of a JSON syntax error) are not part of the model; the kind of
an I/O error is, since opening a cassette depends on it.
-/

namespace SpycatcherHarness

/-- `std::io::ErrorKind`, as far as the source looks at it. -/
inductive IoErrorKind where
  | notFound
  | other
  deriving DecidableEq

/-- Why a cassette is invalid. -/
inductive CassetteProblem where
  /-- It is not the JSON document that the schema describes; the text is the JSON crate's. -/
  | malformed
  /-- An interaction cannot be matched because it has no hash. -/
  | unhashed (index : ℕ)
  deriving DecidableEq

/-- The message of an invalid cassette, where the source writes it. -/
def CassetteProblem.message : CassetteProblem → Option String
  | malformed => none
  | unhashed index =>
    some ("interaction at index " ++ toString index ++ " has no stable_hash; " ++
      "all interactions must be hashed before replay")

/-- The failures that the harness reports. -/
inductive HarnessError where
  /-- A provided configuration value is invalid. -/
  | invalidConfig (message : String)
  /-- The named cassette could not be found on disk. -/
  | cassetteNotFound (cassetteName : String)
  /-- The cassette could not be parsed or was missing required fields. -/
  | invalidCassette (problem : CassetteProblem)
  /-- The cassette uses a schema version this build does not support. -/
  | unsupportedCassetteFormatVersion (found supported : UInt32)
  /-- A request to the upstream provider failed. -/
  | upstreamRequestFailed (source : String)
  /-- An I/O operation failed. -/
  | io (source : IoErrorKind)
  deriving DecidableEq

/-- The result of a fallible harness operation. -/
abbrev HarnessResult := Except HarnessError

/-- Steps succeed if the first one does, and then the others with its result. -/
theorem bind_eq_ok_iff {ε α β : Type} {x : Except ε α} {f : α → Except ε β} {b : β} :
    (x >>= f) = .ok b ↔ ∃ a, x = .ok a ∧ f a = .ok b := by
  cases x <;> simp [bind, Except.bind]

theorem mapError_eq_ok_iff {ε ε' α : Type} {f : ε → ε'} {x : Except ε α} {a : α} :
    x.mapError f = .ok a ↔ x = .ok a := by
  cases x with
  | error e =>
    show Except.error (f e) = .ok a ↔ _
    simp
  | ok b =>
    show Except.ok b = .ok a ↔ _
    simp

end SpycatcherHarness
