import Mathlib.Data.List.Infix
import SpycatcherHarness.Text.Strings

/-!
# Paths and their components

Unix paths, as texts and as the components that they are read as: the root, a leading `.`, `..`,
and names.  Empty segments and every other `.` do not count.  The parent and the file name of a path
are its components without the last one, and the last one.

* `Path.components_join` : joining a relative path puts its segments behind the components of the
  base.
* `Path.body_of_no_traversal` : the segments of a text without `..` are names.
* `Path.Below` : a path lies strictly below a directory, as far as the components tell.
-/

namespace SpycatcherHarness

namespace Path

/-- `std::path::Component`, without the prefixes of other systems. -/
inductive Component where
  | rootDir
  | curDir
  | parentDir
  | normal (name : String)
  deriving DecidableEq

/-- What a segment between separators counts as. -/
def component (segment : String) : Option Component :=
  if segment = "" ∨ segment = "." then none
  else if segment = ".." then some .parentDir
  else some (.normal segment)

/-- The components that the segments of a path make. -/
def body (path : String) : List Component := (Str.split '/' path).filterMap component

/-- `Components::has_root`. -/
def hasRoot (path : String) : Bool := path.toList.head? == some '/'

/-- `Components::include_cur_dir`: only a leading `.` is a component. -/
def includeCurDir (path : String) : Bool :=
  match path.toList with
  | ['.'] => true
  | '.' :: c :: _ => c == '/'
  | _ => false

/-- `Path::components`. -/
def components (path : String) : List Component :=
  if hasRoot path then .rootDir :: body path
  else if includeCurDir path then .curDir :: body path
  else body path

/-- `Path::file_name`. -/
def fileName (path : String) : Option String :=
  match (components path).getLast? with
  | some (.normal name) => some name
  | _ => none

/-- `Path::parent`, by its components. -/
def parent (path : String) : Option (List Component) :=
  match (components path).getLast? with
  | none | some .rootDir => none
  | some _ => some (components path).dropLast

/-- `Path::join`: an absolute path replaces the base. -/
def join (base path : String) : String :=
  if hasRoot path then path
  else if base = "" ∨ base.toList.getLast? = some '/' then base ++ path
  else base ++ "/" ++ path

/-- A path lies strictly below a directory: it has the components of the directory, and at least
one more. -/
def Below (directory path : List Component) : Prop :=
  directory <+: path ∧ directory.length < path.length

instance (directory path : List Component) : Decidable (Below directory path) :=
  inferInstanceAs (Decidable (_ ∧ _))

/-! ### The last component -/

/-- A path has a file name exactly if its last component is a name. -/
theorem fileName_eq_some_iff {path name : String} :
    fileName path = some name ↔ ∃ above, components path = above ++ [.normal name] := by
  unfold fileName
  rcases List.eq_nil_or_concat' (components path) with hnil | ⟨above, last, hlast⟩
  · simp [hnil]
  · rw [hlast, List.getLast?_concat]
    cases last <;> simp

theorem parent_of_components {path name : String} {above : List Component}
    (h : components path = above ++ [.normal name]) : parent path = some above := by
  simp only [parent, h, List.getLast?_concat, List.dropLast_concat]

/-! ### Joining -/

theorem split_append_cons (xs ys : List Char) :
    Str.split '/' (String.ofList (xs ++ '/' :: ys)) =
      Str.split '/' (String.ofList xs) ++ Str.split '/' (String.ofList ys) := by
  simp only [Str.split, String.toList_ofList, List.splitOn_append_cons_self, List.map_append]

theorem body_append_cons (xs ys : List Char) :
    body (String.ofList (xs ++ '/' :: ys)) =
      body (String.ofList xs) ++ body (String.ofList ys) := by
  simp only [body, split_append_cons, List.filterMap_append]

/-- Whether a path begins with a `.` component is told by its first segment. -/
theorem includeCurDir_append_cons (xs ys : List Char) :
    includeCurDir (String.ofList (xs ++ '/' :: ys)) = includeCurDir (String.ofList xs) := by
  rcases xs with _ | ⟨a, _ | ⟨b, xs⟩⟩
  · simp [includeCurDir]
  · by_cases ha : a = '.' <;> simp [includeCurDir, ha]
  · simp only [includeCurDir, String.toList_ofList, List.cons_append]
    split <;> simp_all

/-- What follows a separator is behind the components of what ends in it. -/
theorem components_append_cons (xs ys : List Char) :
    components (String.ofList (xs ++ '/' :: ys)) =
      components (String.ofList (xs ++ ['/'])) ++ body (String.ofList ys) := by
  have hroot : hasRoot (String.ofList (xs ++ '/' :: ys)) =
      hasRoot (String.ofList (xs ++ ['/'])) := by
    cases xs <;> simp [hasRoot]
  have hempty : body (String.ofList []) = [] := by decide
  simp only [components, hroot, includeCurDir_append_cons, body_append_cons, hempty,
    List.append_nil]
  split_ifs <;> rfl

/-- A separator at the end does not count. -/
theorem components_concat {xs : List Char} (h : xs ≠ []) :
    components (String.ofList (xs ++ ['/'])) = components (String.ofList xs) := by
  have hroot : hasRoot (String.ofList (xs ++ ['/'])) = hasRoot (String.ofList xs) := by
    cases xs with
    | nil => exact absurd rfl h
    | cons x xs => simp [hasRoot]
  have hempty : body (String.ofList []) = [] := by decide
  simp only [components, hroot, includeCurDir_append_cons, body_append_cons, hempty,
    List.append_nil]

/-- **Joining a relative path puts its segments behind the base.** -/
theorem components_join {base path : String} (hbase : base ≠ "") (hpath : hasRoot path = false) :
    components (join base path) = components base ++ body path := by
  obtain ⟨bs, rfl⟩ : ∃ bs, base = String.ofList bs := ⟨base.toList, by simp⟩
  obtain ⟨ps, rfl⟩ : ∃ ps, path = String.ofList ps := ⟨path.toList, by simp⟩
  by_cases hlast : bs.getLast? = some '/'
  · obtain ⟨xs, rfl⟩ := List.getLast?_eq_some_iff.1 hlast
    have hjoin : join (String.ofList (xs ++ ['/'])) (String.ofList ps) =
        String.ofList (xs ++ '/' :: ps) := by
      simp [join, hpath, ← String.ofList_append]
    rw [hjoin, components_append_cons]
  · have hne : bs ≠ [] := by
      rintro rfl
      exact hbase rfl
    have hjoin : join (String.ofList bs) (String.ofList ps) = String.ofList (bs ++ '/' :: ps) := by
      have hsep : "/" = String.ofList ['/'] := rfl
      simp only [join, hpath, hbase, String.toList_ofList, hlast, hsep, ← String.ofList_append]
      simp
    rw [hjoin, components_append_cons, components_concat hne]

@[simp] theorem join_empty (path : String) : join "" path = path := by
  simp [join]

/-! ### Names without `..` -/

/-- A piece is part of what it is joined into. -/
theorem infix_intercalate {sep p : List Char} {pieces : List (List Char)} (h : p ∈ pieces) :
    p <:+: sep.intercalate pieces := by
  induction pieces with
  | nil => simp at h
  | cons q pieces ih =>
    cases pieces with
    | nil =>
      rw [List.mem_singleton.1 h, List.intercalate_singleton]
    | cons r pieces =>
      rw [List.intercalate_cons_cons, List.append_assoc]
      rcases List.mem_cons.1 h with rfl | h
      · exact (List.prefix_append p _).isInfix
      · exact (ih h).trans
          ((List.suffix_append sep _).trans (List.suffix_append q _)).isInfix

/-- A segment of a path is part of its text. -/
theorem infix_of_mem_split {segment path : String} (h : segment ∈ Str.split '/' path) :
    segment.toList <:+: path.toList := by
  rw [← Str.join_split '/' path]
  simp only [Str.join, String.toList_ofList]
  exact infix_intercalate (List.mem_map_of_mem h)

/-- The segments that count are those that are neither empty nor `.`. -/
theorem body_eq_nil_iff {path : String} :
    body path = [] ↔ ∀ segment ∈ Str.split '/' path, segment = "" ∨ segment = "." := by
  simp only [body, List.filterMap_eq_nil_iff]
  refine forall₂_congr fun segment _ => ?_
  unfold component
  split_ifs with h h'
  · simp [h]
  · simp [h]
  · simp [h]

/-- **The segments of a text without `..` are names.** -/
theorem body_of_no_traversal {path : String} (h : ¬ ['.', '.'] <:+: path.toList) :
    ∀ c ∈ body path, ∃ name, c = .normal name := by
  intro c hc
  obtain ⟨segment, hsegment, hcomponent⟩ := List.mem_filterMap.1 hc
  have hup : segment ≠ ".." := by
    rintro rfl
    exact h (infix_of_mem_split hsegment)
  unfold component at hcomponent
  split_ifs at hcomponent
  exact ⟨segment, (Option.some.inj hcomponent).symm⟩

/-! ### Below a directory -/

/-- Something below a directory, or in it, is strictly below it. -/
theorem below_append_concat (directory rest : List Component) (c : Component) :
    Below directory (directory ++ rest ++ [c]) := by
  refine ⟨(List.prefix_append directory rest).trans (List.prefix_append _ _), ?_⟩
  simp only [List.length_append, List.length_cons]
  omega

theorem not_below_self (directory : List Component) : ¬ Below directory directory :=
  fun h => absurd h.2 (lt_irrefl _)

end Path

end SpycatcherHarness
