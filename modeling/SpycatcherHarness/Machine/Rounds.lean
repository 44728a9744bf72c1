import Mathlib
import SpycatcherHarness.Machine.Runs

/-!
# Rounds of turns

A machine is given turns, in rounds: in each round every turn comes, in any order and any number of
times.  If a turn changes nothing unless it brings the machine closer to an end, then after as many
rounds as the end was away no turn changes anything any more.

* `Runs.WindsDown.still_of_rounds` : no turn changes anything after enough rounds.
* `Runs.sum_left_lt` : what is left for many is less once it is less for one.
-/

namespace SpycatcherHarness

namespace Runs

variable {σ ε : Type*} {step : σ → ε → σ}

variable (step) in
/-- Turns keep the invariant, and change nothing or leave less to do. -/
structure WindsDown (Inv : σ → Prop) (left : σ → ℕ) (turns : List ε) : Prop where
  inv : ∀ s, Inv s → ∀ e ∈ turns, Inv (step s e)
  less : ∀ s, Inv s → ∀ e ∈ turns, step s e = s ∨ left (step s e) < left s

namespace WindsDown

variable {Inv : σ → Prop} {left : σ → ℕ} {turns : List ε}

theorem run_inv (h : WindsDown step Inv left turns) {s : σ} (hs : Inv s) {es : List ε}
    (hes : ∀ e ∈ es, e ∈ turns) : Inv (run step s es) := by
  induction es generalizing s with
  | nil => exact hs
  | cons e es ih =>
    rw [List.forall_mem_cons] at hes
    exact ih (h.inv s hs e hes.1) hes.2

/-- Turns leave no more to do. -/
theorem run_le (h : WindsDown step Inv left turns) {s : σ} (hs : Inv s) {es : List ε}
    (hes : ∀ e ∈ es, e ∈ turns) : left (run step s es) ≤ left s := by
  induction es generalizing s with
  | nil => exact le_rfl
  | cons e es ih =>
    rw [List.forall_mem_cons] at hes
    refine (ih (h.inv s hs e hes.1) hes.2).trans ?_
    rcases h.less s hs e hes.1 with heq | hlt
    · exact (congrArg left heq).le
    · exact hlt.le

/-- Turns of which one would change something leave less to do. -/
theorem run_lt (h : WindsDown step Inv left turns) {s : σ} (hs : Inv s) {es : List ε}
    (hes : ∀ e ∈ es, e ∈ turns) (hmoves : ∃ e ∈ es, step s e ≠ s) :
    left (run step s es) < left s := by
  induction es generalizing s with
  | nil =>
    obtain ⟨e, he, -⟩ := hmoves
    cases he
  | cons e es ih =>
    rw [List.forall_mem_cons] at hes
    rcases h.less s hs e hes.1 with heq | hlt
    -- nothing has changed yet, so the turn that would change something is still to come
    · rw [run_cons, heq]
      refine ih hs hes.2 ?_
      obtain ⟨e', he', hne⟩ := hmoves
      rcases List.mem_cons.1 he' with rfl | he'
      · exact absurd heq hne
      · exact ⟨e', he', hne⟩
    · exact (h.run_le (h.inv s hs e hes.1) hes.2).trans_lt hlt

/-- **Enough rounds.**  After as many rounds as there was left to do, no turn changes anything. -/
theorem still_of_rounds (h : WindsDown step Inv left turns) {rounds : List (List ε)}
    (hrounds : ∀ round ∈ rounds, ∀ e, e ∈ round ↔ e ∈ turns) {s : σ} (hs : Inv s)
    (hleft : left s ≤ rounds.length) :
    ∀ e ∈ turns, step (run step s rounds.flatten) e = run step s rounds.flatten := by
  induction rounds generalizing s with
  | nil =>
    intro e he
    rcases h.less s hs e he with heq | hlt
    · exact heq
    · rw [List.length_nil] at hleft
      omega
  | cons round rounds ih =>
    rw [List.forall_mem_cons] at hrounds
    obtain ⟨hround, hrest⟩ := hrounds
    rw [List.flatten_cons, run_append]
    have hturns : ∀ e ∈ round, e ∈ turns := fun e he => (hround e).1 he
    by_cases hmoves : ∃ e ∈ round, step s e ≠ s
    · have hlt := h.run_lt hs hturns hmoves
      rw [List.length_cons] at hleft
      exact ih hrest (h.run_inv hs hturns) (by omega)
    -- where no turn changes anything, no round does
    · have hstill : ∀ e ∈ turns, step s e = s := fun e he =>
        not_not.1 fun hne => hmoves ⟨e, (hround e).2 he, hne⟩
      have hstay : ∀ es : List ε, (∀ e ∈ es, e ∈ turns) → run step s es = s := by
        intro es hes
        induction es with
        | nil => rfl
        | cons e es ihes =>
          rw [List.forall_mem_cons] at hes
          rw [run_cons, hstill e hes.1, ihes hes.2]
      have hflat : ∀ e ∈ rounds.flatten, e ∈ turns := by
        intro e he
        obtain ⟨round', hround', he'⟩ := List.mem_flatten.1 he
        exact (hrest round' hround' e).1 he'
      rw [hstay round hturns, hstay _ hflat]
      exact hstill

end WindsDown

/-- What is left for many is less once it is less for one, and no more for the others. -/
theorem sum_left_lt {ι α : Type*} [DecidableEq ι] {left : α → ℕ} {ids : List ι} {id : ι}
    (hid : id ∈ ids) (f : ι → α) {a : α} (hlt : left a < left (f id)) :
    (ids.map fun i => left (Function.update f id a i)).sum < (ids.map fun i => left (f i)).sum := by
  refine List.sum_lt_sum _ _ (fun i _ => ?_) ⟨id, hid, by rwa [Function.update_self]⟩
  by_cases h : i = id
  · subst h
    rw [Function.update_self]
    exact hlt.le
  · rw [Function.update_of_ne h]

end Runs

end SpycatcherHarness
