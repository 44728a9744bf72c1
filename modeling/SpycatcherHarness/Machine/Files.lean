import Mathlib.Data.List.Basic
import SpycatcherHarness.Text.Utf8

/-!
# Replacing a file through a temporary

A directory maps names to files, and a program changes it by a sequence of operations.  To replace
a file, the new content is written to a temporary under another name, which is then renamed over
it.  Renaming is one operation, so a program that stops anywhere leaves the old content or the new
one (`Files.replace_prefix`): the operations before the renaming do not touch the file at all.
-/

namespace SpycatcherHarness

namespace Files

/-- A file: what it holds and who may use it. -/
structure File where
  content : Bytes
  mode : ℕ
  deriving DecidableEq

variable {ν : Type*} [DecidableEq ν]

/-- A directory. -/
abbrev Dir (ν : Type*) := ν → Option File

/-- The mode of a file that has just been created. -/
def defaultMode : ℕ := 0o644

/-- What a program does to a directory.  Writing appends to what has been written. -/
inductive Op (ν : Type*) where
  /-- Create a file or, if there is one, empty it. -/
  | create (name : ν)
  | setMode (name : ν) (mode : ℕ)
  | write (name : ν) (bytes : Bytes)
  | remove (name : ν)
  | rename (source target : ν)

/-- The names an operation touches. -/
def Op.names : Op ν → List ν
  | create n | setMode n _ | write n _ | remove n => [n]
  | rename s t => [s, t]

def Op.apply (dir : Dir ν) : Op ν → Dir ν
  | create n =>
    Function.update dir n (some ⟨[], ((dir n).map File.mode).getD defaultMode⟩)
  | setMode n mode => Function.update dir n ((dir n).map fun f => { f with mode })
  | write n bytes =>
    Function.update dir n ((dir n).map fun f => { f with content := f.content ++ bytes })
  | remove n => Function.update dir n none
  | rename s t => Function.update (Function.update dir s none) t (dir s)

/-- The directory after a sequence of operations. -/
def applyAll (dir : Dir ν) (ops : List (Op ν)) : Dir ν := ops.foldl Op.apply dir

@[simp] theorem applyAll_nil (dir : Dir ν) : applyAll dir [] = dir := rfl

@[simp] theorem applyAll_cons (dir : Dir ν) (op : Op ν) (ops : List (Op ν)) :
    applyAll dir (op :: ops) = applyAll (op.apply dir) ops := rfl

@[simp] theorem applyAll_append (dir : Dir ν) (ops ops' : List (Op ν)) :
    applyAll dir (ops ++ ops') = applyAll (applyAll dir ops) ops' := List.foldl_append

/-- A file that no operation names is left alone. -/
theorem apply_of_not_mem {op : Op ν} {n : ν} (h : n ∉ op.names) (dir : Dir ν) :
    op.apply dir n = dir n := by
  cases op with
  | rename s t =>
    simp only [Op.names, List.mem_cons, List.not_mem_nil, or_false, not_or] at h
    simp [Op.apply, h.1, h.2]
  | _ =>
    simp only [Op.names, List.mem_singleton] at h
    simp [Op.apply, h]

theorem applyAll_of_not_mem {ops : List (Op ν)} {n : ν} (h : ∀ op ∈ ops, n ∉ op.names)
    (dir : Dir ν) : applyAll dir ops n = dir n := by
  induction ops generalizing dir with
  | nil => rfl
  | cons op ops ih =>
    rw [applyAll_cons, ih fun o ho => h o (List.mem_cons_of_mem _ ho),
      apply_of_not_mem (h op List.mem_cons_self)]

/-- Writing byte by byte: any number of the bytes may have been written when the program stops. -/
def writes (n : ν) (bytes : Bytes) : List (Op ν) := bytes.map fun b => .write n [b]

theorem applyAll_writes (dir : Dir ν) (n : ν) (bytes : Bytes) :
    applyAll dir (writes n bytes) n =
      (dir n).map fun f => { f with content := f.content ++ bytes } := by
  induction bytes generalizing dir with
  | nil => simp [writes]
  | cons b bytes ih =>
    simp only [writes, List.map_cons, applyAll_cons] at ih ⊢
    rw [ih]
    cases h : dir n <;> simp [Op.apply, h]

/-- Operations on one name only. -/
def Only (n : ν) (ops : List (Op ν)) : Prop := ∀ op ∈ ops, op.names = [n]

omit [DecidableEq ν] in
theorem Only.append {n : ν} {ops ops' : List (Op ν)} (h : Only n ops) (h' : Only n ops') :
    Only n (ops ++ ops') := by
  intro op hop
  rcases List.mem_append.1 hop with hop | hop
  · exact h op hop
  · exact h' op hop

omit [DecidableEq ν] in
theorem only_writes (n : ν) (bytes : Bytes) : Only n (writes n bytes) := by
  intro op hop
  obtain ⟨b, -, rfl⟩ := List.mem_map.1 hop
  rfl

theorem Only.applyAll {n m : ν} {ops : List (Op ν)} (h : Only n ops) (hne : m ≠ n)
    (dir : Dir ν) : Files.applyAll dir ops m = dir m := by
  refine applyAll_of_not_mem (fun op hop hm => hne ?_) dir
  rw [h op hop] at hm
  exact List.mem_singleton.1 hm

omit [DecidableEq ν] in
theorem Only.take {n : ν} {ops : List (Op ν)} (h : Only n ops) (k : ℕ) : Only n (ops.take k) :=
  fun op hop => h op (List.mem_of_mem_take hop)

/-- **A replaced file is old or new.**  Operations on a temporary, followed by renaming it over the
file, and the program stops after any number of them. -/
theorem replace_prefix {temp file : ν} (hne : file ≠ temp) {ops : List (Op ν)} (h : Only temp ops)
    (dir : Dir ν) (k : ℕ) :
    applyAll dir ((ops ++ [Op.rename temp file]).take k) file = dir file ∨
      applyAll dir ((ops ++ [Op.rename temp file]).take k) file = applyAll dir ops temp := by
  by_cases hk : k ≤ ops.length
  · rw [List.take_append_of_le_length hk]
    exact Or.inl ((h.take k).applyAll hne dir)
  · rw [List.take_of_length_le (by simp; omega)]
    right
    simp [Op.apply]

/-! ### Stopping anywhere -/

/-- The relation holds between a directory and what a program leaves of it, wherever it stops. -/
def Throughout (R : Dir ν → Dir ν → Prop) (dir : Dir ν) (ops : List (Op ν)) : Prop :=
  ∀ k, R dir (applyAll dir (ops.take k))

variable {R : Dir ν → Dir ν → Prop} {dir : Dir ν} {ops ops' : List (Op ν)}

theorem Throughout.done (h : Throughout R dir ops) : R dir (applyAll dir ops) := by
  have hall := h ops.length
  rwa [List.take_length] at hall

/-- One program after another. -/
theorem Throughout.append (trans : ∀ a b c, R a b → R b c → R a c) (h : Throughout R dir ops)
    (h' : Throughout R (applyAll dir ops) ops') : Throughout R dir (ops ++ ops') := by
  intro k
  by_cases hk : k ≤ ops.length
  · rw [List.take_append_of_le_length hk]
    exact h k
  · rw [List.take_append, List.take_of_length_le (by omega), applyAll_append]
    exact trans _ _ _ h.done (h' _)

end Files

end SpycatcherHarness
