import Mathlib.Data.List.Infix
import SpycatcherHarness.Error

/-!
# Configuration

The configuration of a session, as far as it decides where the cassette lies and what is sent
upstream, and the checks that a session starts with.

* `validateConfig_eq_ok_iff` : what a configuration has to be like to pass.
-/

namespace SpycatcherHarness

/-- `Mode`. -/
inductive Mode where
  | record
  | replay
  | verify
  deriving DecidableEq

/-- `BTreeMap<String, String>`, in the order of its keys. -/
structure BTreeMap where
  entries : List (String × String)
  sorted : entries.Pairwise fun a b => a.1 < b.1

/-- `UpstreamConfig`, over a type of URLs. -/
structure UpstreamConfig (Url : Type) where
  baseUrl : Url
  extraHeaders : BTreeMap

/-- `HarnessConfig`. -/
structure HarnessConfig (Url : Type) where
  mode : Mode
  cassetteDir : String
  cassetteName : String
  upstream : Option (UpstreamConfig Url)

/-- `validate_config`. -/
def validateConfig {Url : Type} (cfg : HarnessConfig Url) : HarnessResult Unit :=
  if cfg.cassetteName = "" then
    .error (.invalidConfig "cassette name must not be empty")
  else if cfg.cassetteName.toList.head? = some '/' ∨ ['.', '.'] <:+: cfg.cassetteName.toList then
    .error (.invalidConfig "cassette name must not contain path traversal sequences")
  else if cfg.mode = .record ∧ cfg.upstream.isNone then
    .error (.invalidConfig "upstream configuration is required for record mode")
  else .ok ()

/-- What a configuration that passes is like. -/
theorem validateConfig_eq_ok_iff {Url : Type} {cfg : HarnessConfig Url} :
    validateConfig cfg = .ok () ↔
      cfg.cassetteName ≠ "" ∧ cfg.cassetteName.toList.head? ≠ some '/' ∧
        ¬ ['.', '.'] <:+: cfg.cassetteName.toList ∧
          (cfg.mode = .record → cfg.upstream.isSome) := by
  unfold validateConfig
  split_ifs with hempty htraversal hrecord
  · simp [hempty]
  · rcases htraversal with h | h <;> simp [h]
  · simp [hrecord]
  · rw [not_or] at htraversal
    have hupstream : cfg.mode = .record → cfg.upstream.isSome := by
      intro hmode
      by_contra hnone
      exact hrecord ⟨hmode, by simpa using hnone⟩
    simp only [true_iff]
    exact ⟨hempty, htraversal.1, htraversal.2, hupstream⟩

end SpycatcherHarness
