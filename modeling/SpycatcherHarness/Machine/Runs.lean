import Mathlib.Data.List.Induction

/-!
# Runs of a machine

A machine is a step function on states; a run folds it over a list of events.  `Runs.Along` says
that a condition on the state and the event holds at every step of a run.

* `Runs.run_invariant` : what every step keeps holds after a run.
* `Runs.run_history` : the same for a statement about the events so far.
* `Runs.run_lockstep` : the same for a relation between the runs of two machines.
* `Runs.along_append` : a condition holds along a run exactly if it holds along its two halves.
* `Runs.along_iff` : conditions that agree in the states they lead to hold along the same runs.
-/

namespace SpycatcherHarness

namespace Runs

variable {σ ε : Type*} (step : σ → ε → σ)

/-- The state after the events. -/
def run (s : σ) (es : List ε) : σ := es.foldl step s

/-- A condition that holds whenever an event of the run happens. -/
def Along (P : σ → ε → Prop) (s : σ) : List ε → Prop
  | [] => True
  | e :: es => P s e ∧ Along P (step s e) es

/-- What the steps of a run give out, in order. -/
def collect {α : Type*} (out : σ → ε → List α) (s : σ) : List ε → List α
  | [] => []
  | e :: es => out s e ++ collect out (step s e) es

instance {P : σ → ε → Prop} [∀ s e, Decidable (P s e)] :
    (s : σ) → (es : List ε) → Decidable (Along step P s es)
  | _, [] => .isTrue trivial
  | s, e :: es =>
    have : Decidable (Along step P (step s e) es) := instDecidableAlong (step s e) es
    inferInstanceAs (Decidable (P s e ∧ Along step P (step s e) es))

variable {step}

@[simp] theorem run_nil (s : σ) : run step s [] = s := rfl

@[simp] theorem run_cons (s : σ) (e : ε) (es : List ε) :
    run step s (e :: es) = run step (step s e) es := rfl

@[simp] theorem run_append (s : σ) (es fs : List ε) :
    run step s (es ++ fs) = run step (run step s es) fs := List.foldl_append

theorem run_concat (s : σ) (es : List ε) (e : ε) :
    run step s (es ++ [e]) = step (run step s es) e := by simp

theorem along_append {P : σ → ε → Prop} {s : σ} {es fs : List ε} :
    Along step P s (es ++ fs) ↔ Along step P s es ∧ Along step P (run step s es) fs := by
  induction es generalizing s with
  | nil => simp [Along]
  | cons e es ih => simp [Along, ih, and_assoc]

theorem along_concat {P : σ → ε → Prop} {s : σ} {es : List ε} {e : ε} :
    Along step P s (es ++ [e]) ↔ Along step P s es ∧ P (run step s es) e := by
  simp [along_append, Along]

theorem along_of_forall {P : ε → Prop} {es : List ε} (h : ∀ e ∈ es, P e) (s : σ) :
    Along step (fun _ e => P e) s es := by
  induction es generalizing s with
  | nil => trivial
  | cons e es ih =>
    simp only [List.forall_mem_cons] at h
    exact ⟨h.1, ih h.2 _⟩

theorem collect_append {α : Type*} {out : σ → ε → List α} {s : σ} {es fs : List ε} :
    collect step out s (es ++ fs) =
      collect step out s es ++ collect step out (run step s es) fs := by
  induction es generalizing s with
  | nil => rfl
  | cons e es ih => simp [collect, ih]

theorem collect_concat {α : Type*} {out : σ → ε → List α} {s : σ} {es : List ε} {e : ε} :
    collect step out s (es ++ [e]) = collect step out s es ++ out (run step s es) e := by
  simp [collect_append, collect]

/-- What holds of all that the events of a run can give out holds of what it does give out. -/
theorem forall_mem_collect {α : Type*} {out : σ → ε → List α} {P : α → Prop} {es : List ε}
    (h : ∀ e ∈ es, ∀ s, ∀ x ∈ out s e, P x) (s : σ) : ∀ x ∈ collect step out s es, P x := by
  induction es generalizing s with
  | nil => exact fun x hx => by cases hx
  | cons e es ih =>
    rw [List.forall_mem_cons] at h
    rw [collect, List.forall_mem_append]
    exact ⟨h.1 s, ih h.2 (step s e)⟩

/-- Two conditions that agree in the states that one of them leads to hold along the same runs. -/
theorem along_iff {P Q : σ → ε → Prop} {I : σ → Prop} (agree : ∀ s e, I s → (P s e ↔ Q s e))
    (keep : ∀ s e, I s → P s e → I (step s e)) {s : σ} (init : I s) (es : List ε) :
    Along step P s es ↔ Along step Q s es := by
  induction es generalizing s with
  | nil => exact Iff.rfl
  | cons e es ih =>
    constructor
    · exact fun h => ⟨(agree s e init).1 h.1, (ih (keep s e init h.1)).1 h.2⟩
    · intro h
      have hP := (agree s e init).2 h.1
      exact ⟨hP, (ih (keep s e init hP)).2 h.2⟩

/-- A statement about the events so far and the state holds after every run that keeps to the
condition, if it holds at the start and every such step extends it. -/
theorem run_history {P : σ → ε → Prop} {I : List ε → σ → Prop} {s : σ} (init : I [] s)
    (keep : ∀ es e, I es (run step s es) → P (run step s es) e →
      I (es ++ [e]) (step (run step s es) e)) :
    ∀ es, Along step P s es → I es (run step s es) := by
  intro es
  induction es using List.reverseRecOn with
  | nil => exact fun _ => init
  | append_singleton es e ih =>
    intro h
    obtain ⟨hes, he⟩ := along_concat.1 h
    rw [run_concat]
    exact keep es e (ih hes) he

/-- A statement about what has been given out and the state holds after a run, if every step
extends it by what it gives out. -/
theorem run_collect {α : Type*} {out : σ → ε → List α} {I : List α → σ → Prop}
    (keep : ∀ xs s e, I xs s → I (xs ++ out s e) (step s e)) {xs : List α} {s : σ} (init : I xs s)
    (es : List ε) : I (xs ++ collect step out s es) (run step s es) := by
  induction es generalizing xs s with
  | nil => simpa [collect] using init
  | cons e es ih =>
    rw [run_cons, collect, ← List.append_assoc]
    exact ih (keep xs s e init)

/-- What every step keeps holds after a run. -/
theorem run_invariant {P : σ → ε → Prop} {I : σ → Prop}
    (keep : ∀ s e, I s → P s e → I (step s e)) {s : σ} (init : I s) {es : List ε}
    (h : Along step P s es) : I (run step s es) :=
  run_history (I := fun _ s => I s) init (fun _ e hs he => keep _ e hs he) es h

/-- A relation between the states before and after every step holds between the ends of a run. -/
theorem run_rel {P : σ → ε → Prop} {I : σ → Prop} {R : σ → σ → Prop} (refl : ∀ s, R s s)
    (trans : ∀ s t u, R s t → R t u → R s u)
    (keep : ∀ s e, I s → P s e → I (step s e) ∧ R s (step s e)) {s : σ} (init : I s)
    {es : List ε} (h : Along step P s es) : R s (run step s es) := by
  induction es generalizing s with
  | nil => exact refl s
  | cons e es ih =>
    obtain ⟨hI, hR⟩ := keep s e init h.1
    exact trans _ _ _ hR (ih hI h.2)

/-- **Two runs in lockstep.**  If related events keep the states of two machines related, and give
out the same in related states, then two runs over related events do. -/
theorem run_lockstep {σ' ε' α : Type*} {step' : σ' → ε' → σ'} {out : σ → ε → List α}
    {out' : σ' → ε' → List α} {S : σ → σ' → Prop} {R : ε → ε' → Prop}
    (keep : ∀ s s' e e', S s s' → R e e' → S (step s e) (step' s' e') ∧ out s e = out' s' e')
    {s : σ} {s' : σ'} (init : S s s') {es : List ε} {es' : List ε'} (h : List.Forall₂ R es es') :
    S (run step s es) (run step' s' es') ∧
      collect step out s es = collect step' out' s' es' := by
  induction h generalizing s s' with
  | nil => exact ⟨init, rfl⟩
  | cons hhead _ ih =>
    obtain ⟨hstep, hout⟩ := keep s s' _ _ init hhead
    obtain ⟨hrun, hcollect⟩ := ih hstep
    exact ⟨hrun, by rw [collect, collect, hout, hcollect]⟩

end Runs

end SpycatcherHarness
