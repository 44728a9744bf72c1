import Mathlib.Data.List.Nodup
import Mathlib.Logic.Function.Basic

/-!
# Queues that are served from the front

Items wait in queues, one for each key, and every item waits in one place only.  Serving a key
gives out the first item of its queue that is still there; when none is, serving changes nothing.
Which items are still there can then be told from how often each key has been served.

* `Queues.Waiting.find?_eq` : the first item that is still there is the one after those served.
* `Queues.Waiting.serve` : giving it out is serving the key once more.
* `Queues.Waiting.miss` : so is finding that the queue has run out.
-/

namespace SpycatcherHarness

namespace Queues

variable {κ α : Type*} {queue : κ → List α} {served : κ → ℕ} {waiting : α → Bool} {k : κ} {a : α}

/-- Every item waits in one queue only, and there once. -/
structure Apart (queue : κ → List α) : Prop where
  nodup : ∀ k, (queue k).Nodup
  key : ∀ {k l a}, a ∈ queue k → a ∈ queue l → k = l

/-- The items that still wait are those after the ones served. -/
def Waiting (queue : κ → List α) (served : κ → ℕ) (waiting : α → Bool) : Prop :=
  ∀ k, ∀ a ∈ queue k, waiting a = true ↔ a ∉ (queue k).take (served k)

/-- In a list without repetitions the item at an index comes after those before it. -/
theorem notMem_take {xs : List α} (h : xs.Nodup) {n : ℕ} (ha : xs[n]? = some a) :
    a ∉ xs.take n := by
  obtain ⟨hlt, rfl⟩ := List.getElem?_eq_some_iff.1 ha
  intro hmem
  obtain ⟨i, hi, heq⟩ := List.mem_take_iff_getElem.1 hmem
  have hin := (List.Nodup.getElem_inj_iff h).1 heq
  omega

/-- The first item that still waits is the one after those served. -/
theorem Waiting.find?_eq (apart : Apart queue) (h : Waiting queue served waiting) (k : κ) :
    (queue k).find? waiting = (queue k)[served k]? := by
  have hgone : ((queue k).take (served k)).find? waiting = none := by
    rw [List.find?_eq_none]
    intro a ha
    rw [h k a (List.mem_of_mem_take ha)]
    simpa using ha
  have hsplit : (queue k).find? waiting = ((queue k).drop (served k)).find? waiting := by
    conv_lhs => rw [← List.take_append_drop (served k) (queue k), List.find?_append, hgone,
      Option.none_or]
  rw [hsplit, ← List.head?_drop]
  cases hrest : (queue k).drop (served k) with
  | nil => rfl
  | cons a rest =>
    have hget : (queue k)[served k]? = some a := by rw [← List.head?_drop, hrest, List.head?_cons]
    have hwaiting : waiting a = true :=
      (h k a (List.mem_of_getElem? hget)).2 (notMem_take (apart.nodup k) hget)
    simp [hwaiting]

/-- A waiting item that is not behind those served is the next one. -/
theorem Waiting.eq_served (h : Waiting queue served waiting) {n : ℕ}
    (ha : (queue k)[n]? = some a) (hn : n ≤ served k) (hwaiting : waiting a = true) :
    n = served k := by
  by_contra hne
  refine (h k a (List.mem_of_getElem? ha)).1 hwaiting ?_
  obtain ⟨hlt, rfl⟩ := List.getElem?_eq_some_iff.1 ha
  exact List.mem_take_iff_getElem.2 ⟨n, by omega, rfl⟩

variable [DecidableEq κ]

/-- Giving out the next item is serving its key once more. -/
theorem Waiting.serve (apart : Apart queue) (h : Waiting queue served waiting)
    (ha : (queue k)[served k]? = some a) {waiting' : α → Bool}
    (hwaiting' : ∀ b, waiting' b = true ↔ b ≠ a ∧ waiting b = true) :
    Waiting queue (Function.update served k (served k + 1)) waiting' := by
  intro l b hb
  rw [hwaiting', h l b hb]
  by_cases hl : l = k
  · subst hl
    rw [Function.update_self, List.take_add_one, ha]
    simp [and_comm]
  · -- the item given out is in another queue
    have hba : b ≠ a := by
      rintro rfl
      exact hl (apart.key hb (List.mem_of_getElem? ha))
    rw [Function.update_of_ne hl]
    simp [hba]

/-- When the queue has run out, serving its key once more changes nothing. -/
theorem Waiting.miss (h : Waiting queue served waiting) (ha : (queue k)[served k]? = none) :
    Waiting queue (Function.update served k (served k + 1)) waiting := by
  intro l b hb
  rw [h l b hb]
  by_cases hl : l = k
  · subst hl
    rw [Function.update_self, List.take_add_one, ha]
    simp
  · rw [Function.update_of_ne hl]

end Queues

end SpycatcherHarness
