import Mathlib.Data.List.Nodup
import SpycatcherHarness.Json.Number

/-!
# JSON values

The values of the `serde_json` crate, as the source uses them: objects are lists of entries in
insertion order (the crate is built with `preserve_order`).

* `Json.depth` : how deep the containers of a value are nested.  The crate's parser accepts a
  depth of at most 127.
* `Json.Wf` : no object has a key twice, recursively.  A `serde_json::Map` guarantees it.
* `Json.KeyEquiv` : two values are the same up to the order of object entries at every level.
-/

namespace SpycatcherHarness

/-- `serde_json::Value`. -/
inductive Json where
  | null
  | bool (flag : Bool)
  | number (n : Number)
  | string (text : String)
  | array (items : List Json)
  /-- Entries in insertion order. -/
  | object (entries : List (String × Json))

namespace Json

mutual

/-- Induction on a value, with the hypothesis for every item and every entry. -/
theorem induct {P : Json → Prop} (null : P null) (bool : ∀ b, P (bool b))
    (number : ∀ n, P (number n)) (string : ∀ s, P (string s))
    (array : ∀ xs, (∀ x ∈ xs, P x) → P (array xs))
    (object : ∀ es, (∀ e ∈ es, P e.2) → P (object es)) : ∀ v, P v
  | .null => null
  | .bool b => bool b
  | .number n => number n
  | .string s => string s
  | .array xs => array xs (inductItems null bool number string array object xs)
  | .object es => object es (inductEntries null bool number string array object es)

theorem inductItems {P : Json → Prop} (null : P .null) (bool : ∀ b, P (.bool b))
    (number : ∀ n, P (.number n)) (string : ∀ s, P (.string s))
    (array : ∀ xs, (∀ x ∈ xs, P x) → P (.array xs))
    (object : ∀ es, (∀ e ∈ es, P e.2) → P (.object es)) : ∀ xs : List Json, ∀ x ∈ xs, P x
  | [] => fun x hx => absurd hx List.not_mem_nil
  | y :: ys => fun x hx => by
    rcases List.mem_cons.1 hx with he | hx
    · exact he ▸ induct null bool number string array object y
    · exact inductItems null bool number string array object ys x hx

theorem inductEntries {P : Json → Prop} (null : P .null) (bool : ∀ b, P (.bool b))
    (number : ∀ n, P (.number n)) (string : ∀ s, P (.string s))
    (array : ∀ xs, (∀ x ∈ xs, P x) → P (.array xs))
    (object : ∀ es, (∀ e ∈ es, P e.2) → P (.object es)) :
    ∀ es : List (String × Json), ∀ e ∈ es, P e.2
  | [] => fun e he => absurd he List.not_mem_nil
  | (k, v) :: es => fun e he => by
    rcases List.mem_cons.1 he with hv | he
    · exact hv ▸ induct null bool number string array object v
    · exact inductEntries null bool number string array object es e he

end

/-! ### Equality -/

mutual

/-- Equality as a program. -/
def beq : Json → Json → Bool
  | null, null => true
  | bool b, bool c => b == c
  | number m, number n => m == n
  | string s, string t => s == t
  | array xs, array ys => beqItems xs ys
  | object es, object fs => beqEntries es fs
  | _, _ => false

def beqItems : List Json → List Json → Bool
  | [], [] => true
  | x :: xs, y :: ys => beq x y && beqItems xs ys
  | _, _ => false

def beqEntries : List (String × Json) → List (String × Json) → Bool
  | [], [] => true
  | (k, v) :: es, (l, w) :: fs => k == l && beq v w && beqEntries es fs
  | _, _ => false

end

theorem beq_iff (x : Json) : ∀ y, beq x y = true ↔ x = y := by
  induction x using induct with
  | null => intro y; cases y <;> simp [beq]
  | bool b => intro y; cases y <;> simp [beq]
  | number n => intro y; cases y <;> simp [beq]
  | string s => intro y; cases y <;> simp [beq]
  | array xs ih =>
    have h : ∀ ys, beqItems xs ys = true ↔ xs = ys := by
      induction xs with
      | nil => intro ys; cases ys <;> simp [beqItems]
      | cons x xs hxs =>
        intro ys
        cases ys with
        | nil => simp [beqItems]
        | cons y ys =>
          simp [beqItems, ih x List.mem_cons_self y,
            hxs (fun x hx => ih x (List.mem_cons_of_mem _ hx)) ys]
    intro y; cases y <;> simp [beq, h]
  | object es ih =>
    have h : ∀ fs, beqEntries es fs = true ↔ es = fs := by
      induction es with
      | nil => intro fs; cases fs <;> simp [beqEntries]
      | cons e es hes =>
        intro fs
        cases fs with
        | nil => simp [beqEntries]
        | cons f fs =>
          obtain ⟨k, v⟩ := e
          obtain ⟨l, w⟩ := f
          simp [beqEntries, ih (k, v) List.mem_cons_self w,
            hes (fun e he => ih e (List.mem_cons_of_mem _ he)) fs]
    intro y; cases y <;> simp [beq, h]

instance : DecidableEq Json := fun x y => decidable_of_iff _ (beq_iff x y)

/-! ### Nesting depth -/

mutual

/-- How deep containers are nested: a scalar has depth 0, an empty container depth 1. -/
def depth : Json → ℕ
  | null => 0
  | bool _ => 0
  | number _ => 0
  | string _ => 0
  | array xs => depthItems xs + 1
  | object es => depthEntries es + 1

def depthItems : List Json → ℕ
  | [] => 0
  | x :: xs => max x.depth (depthItems xs)

def depthEntries : List (String × Json) → ℕ
  | [] => 0
  | (_, v) :: es => max v.depth (depthEntries es)

end

@[simp] theorem depth_null : null.depth = 0 := rfl
@[simp] theorem depth_bool (b : Bool) : (bool b).depth = 0 := rfl
@[simp] theorem depth_number (n : Number) : (number n).depth = 0 := rfl
@[simp] theorem depth_string (s : String) : (string s).depth = 0 := rfl

theorem depthItems_le {xs : List Json} {n : ℕ} : depthItems xs ≤ n ↔ ∀ x ∈ xs, x.depth ≤ n := by
  induction xs with
  | nil => simp [depthItems]
  | cons x xs ih => rw [depthItems, Nat.max_le, ih, List.forall_mem_cons]

theorem depthEntries_le {es : List (String × Json)} {n : ℕ} :
    depthEntries es ≤ n ↔ ∀ e ∈ es, e.2.depth ≤ n := by
  induction es with
  | nil => simp [depthEntries]
  | cons e es ih =>
    obtain ⟨k, v⟩ := e
    rw [depthEntries, Nat.max_le, ih, List.forall_mem_cons]

theorem depth_array_le {xs : List Json} {n : ℕ} :
    (array xs).depth ≤ n + 1 ↔ ∀ x ∈ xs, x.depth ≤ n := by
  simp [depth, depthItems_le]

theorem depth_object_le {es : List (String × Json)} {n : ℕ} :
    (object es).depth ≤ n + 1 ↔ ∀ e ∈ es, e.2.depth ≤ n := by
  simp [depth, depthEntries_le]

/-! ### Objects -/

/-- `Map::get`. -/
def lookup (key : String) : List (String × Json) → Option Json
  | [] => none
  | (k, v) :: es => if k = key then some v else lookup key es

/-- `Value::get` with a string key. -/
def get (key : String) : Json → Option Json
  | object es => lookup key es
  | _ => none

/-- `Value::as_bool`. -/
def asBool : Json → Option Bool
  | bool b => some b
  | _ => none

mutual

/-- No object has a key twice. -/
def Wf : Json → Prop
  | null => True
  | bool _ => True
  | number _ => True
  | string _ => True
  | array xs => WfItems xs
  | object es => (es.map Prod.fst).Nodup ∧ WfEntries es

def WfItems : List Json → Prop
  | [] => True
  | x :: xs => x.Wf ∧ WfItems xs

def WfEntries : List (String × Json) → Prop
  | [] => True
  | (_, v) :: es => v.Wf ∧ WfEntries es

end

mutual

def decidableWf : (v : Json) → Decidable v.Wf
  | null | bool _ | number _ | string _ => .isTrue trivial
  | array xs => decidableWfItems xs
  | object es =>
    have := decidableWfEntries es
    inferInstanceAs (Decidable ((es.map Prod.fst).Nodup ∧ WfEntries es))

def decidableWfItems : (xs : List Json) → Decidable (WfItems xs)
  | [] => .isTrue trivial
  | x :: xs =>
    have := decidableWf x
    have := decidableWfItems xs
    inferInstanceAs (Decidable (x.Wf ∧ WfItems xs))

def decidableWfEntries : (es : List (String × Json)) → Decidable (WfEntries es)
  | [] => .isTrue trivial
  | (_, v) :: es =>
    have := decidableWf v
    have := decidableWfEntries es
    inferInstanceAs (Decidable (v.Wf ∧ WfEntries es))

end

instance : DecidablePred Wf := decidableWf

theorem wf_array {xs : List Json} : (array xs).Wf ↔ ∀ x ∈ xs, x.Wf := by
  have h : ∀ xs : List Json, WfItems xs ↔ ∀ x ∈ xs, x.Wf := by
    intro xs
    induction xs with
    | nil => simp [WfItems]
    | cons x xs ih => simp [WfItems, ih]
  exact h xs

theorem wf_object {es : List (String × Json)} :
    (object es).Wf ↔ (es.map Prod.fst).Nodup ∧ ∀ e ∈ es, e.2.Wf := by
  have h : ∀ es : List (String × Json), WfEntries es ↔ ∀ e ∈ es, e.2.Wf := by
    intro es
    induction es with
    | nil => simp [WfEntries]
    | cons e es ih => obtain ⟨k, v⟩ := e; simp [WfEntries, ih]
  simp only [Wf, h]

/-! ### The same value up to the order of object entries -/

mutual

/-- Two values are the same up to the order of object entries, at every level. -/
inductive KeyEquiv : Json → Json → Prop
  | null : KeyEquiv null null
  | bool (b : Bool) : KeyEquiv (bool b) (bool b)
  | number (n : Number) : KeyEquiv (number n) (number n)
  | string (s : String) : KeyEquiv (string s) (string s)
  | array {xs ys : List Json} : KeyEquivItems xs ys → KeyEquiv (array xs) (array ys)
  | object {es fs gs : List (String × Json)} :
      es.Perm fs → KeyEquivEntries fs gs → KeyEquiv (object es) (object gs)

inductive KeyEquivItems : List Json → List Json → Prop
  | nil : KeyEquivItems [] []
  | cons {x y : Json} {xs ys : List Json} :
      KeyEquiv x y → KeyEquivItems xs ys → KeyEquivItems (x :: xs) (y :: ys)

inductive KeyEquivEntries : List (String × Json) → List (String × Json) → Prop
  | nil : KeyEquivEntries [] []
  | cons {k : String} {v w : Json} {es fs : List (String × Json)} :
      KeyEquiv v w → KeyEquivEntries es fs → KeyEquivEntries ((k, v) :: es) ((k, w) :: fs)

end

end Json

end SpycatcherHarness
