import SpycatcherHarness.Cassette.Filesystem
import SpycatcherHarness.Config
import SpycatcherHarness.Text.Paths

/-!
# Where a cassette lies

A session joins the name of its cassette to the cassette directory, and the store opens the parent
of the joined path and works on the file name in it.  The check of the name is about its text: it is
not empty, begins with no separator and has no `..`.  What opening does is told by the components of
the path.

* `openRootedParent_eq_ok_iff` : when opening succeeds, and with what.
* `components_cassettePath` : the components of the joined path are those of the directory and the
  names in the cassette's name.
* `cassette_stays_inside_iff` : the cassette lies below the directory unless its name has no segment
  but `.`, for then the path is the directory's own.
-/

namespace SpycatcherHarness

/-! ### Opening the parent -/

/-- What the operating system answers to the calls of `open_rooted_parent`, over a type of directory
handles. -/
structure DirectoryCalls (D : Type) where
  /-- `Dir::open_ambient_dir(".")`. -/
  openAmbientDir : Except IoErrorKind D
  createDirAll : D → List Path.Component → Except IoErrorKind Unit
  openDir : D → List Path.Component → Except IoErrorKind D
  tryClone : D → Except IoErrorKind D

/-- `is_trivial_parent`. -/
def isTrivialParent (path : List Path.Component) : Bool := path = [] ∨ path = [.curDir]

/-- `cassette_name`. -/
def cassetteName (cassettePath : String) : HarnessResult String :=
  match Path.fileName cassettePath with
  | some name => .ok name
  | none => .error (.invalidConfig "cassette name must not be empty")

variable {D Url : Type}

/-- The part of `open_rooted_parent` that creates the parent. -/
def createParentDir (os : DirectoryCalls D) (root : D) (createParent : Bool)
    (parentOption : Option (List Path.Component)) : HarnessResult Unit :=
  if createParent then
    match parentOption with
    | some parentPath =>
      if !isTrivialParent parentPath then (os.createDirAll root parentPath).mapError .io
      else .ok ()
    | none => .ok ()
  else .ok ()

/-- The part of `open_rooted_parent` that opens the parent. -/
def openParentDir (os : DirectoryCalls D) (root : D)
    (parentOption : Option (List Path.Component)) : HarnessResult D :=
  match parentOption with
  | none => (os.tryClone root).mapError .io
  | some parentPath =>
    if isTrivialParent parentPath then (os.tryClone root).mapError .io
    else (os.openDir root parentPath).mapError .io

/-- `open_rooted_parent`. -/
def openRootedParent (os : DirectoryCalls D) (cassettePath : String) (createParent : Bool) :
    HarnessResult (D × String) := do
  let root ← os.openAmbientDir.mapError .io
  let fileName ← cassetteName cassettePath
  let parentOption := Path.parent cassettePath
  createParentDir os root createParent parentOption
  let parentDir ← openParentDir os root parentOption
  .ok (parentDir, fileName)

/-- The directory can be opened as a parent: every call on the way there succeeds. -/
def DirectoryCalls.Opens (os : DirectoryCalls D) (createParent : Bool)
    (above : List Path.Component) (dir : D) : Prop :=
  ∃ root, os.openAmbientDir = .ok root ∧
    (createParent = true → isTrivialParent above = false → os.createDirAll root above = .ok ()) ∧
    (if isTrivialParent above then os.tryClone root else os.openDir root above) = .ok dir

theorem createParentDir_eq_ok_iff {os : DirectoryCalls D} {root : D} {createParent : Bool}
    {above : List Path.Component} :
    createParentDir os root createParent (some above) = .ok () ↔
      (createParent = true → isTrivialParent above = false →
        os.createDirAll root above = .ok ()) := by
  unfold createParentDir
  cases createParent <;> cases h : isTrivialParent above <;> simp [h, mapError_eq_ok_iff]

theorem openParentDir_eq_ok_iff {os : DirectoryCalls D} {root dir : D}
    {above : List Path.Component} :
    openParentDir os root (some above) = .ok dir ↔
      (if isTrivialParent above then os.tryClone root else os.openDir root above) = .ok dir := by
  unfold openParentDir
  cases h : isTrivialParent above <;> simp [h, mapError_eq_ok_iff]

/-- **When opening succeeds**: the path ends in a name, and the directory above can be opened. -/
theorem openRootedParent_eq_ok_iff {os : DirectoryCalls D} {path file : String}
    {createParent : Bool} {dir : D} :
    openRootedParent os path createParent = .ok (dir, file) ↔
      ∃ above, Path.components path = above ++ [.normal file] ∧
        os.Opens createParent above dir := by
  unfold openRootedParent cassetteName
  simp only [bind_eq_ok_iff, mapError_eq_ok_iff, Except.ok.injEq, Prod.mk.injEq]
  constructor
  · rintro ⟨root, hroot, name, hname, ⟨⟩, hcreate, opened, hopened, rfl, rfl⟩
    cases hfile : Path.fileName path with
    | none => simp [hfile] at hname
    | some file =>
      simp only [hfile, Except.ok.injEq] at hname
      subst hname
      obtain ⟨above, hcomponents⟩ := Path.fileName_eq_some_iff.1 hfile
      rw [Path.parent_of_components hcomponents] at hcreate hopened
      exact ⟨above, hcomponents, root, hroot, createParentDir_eq_ok_iff.1 hcreate,
        openParentDir_eq_ok_iff.1 hopened⟩
  · rintro ⟨above, hcomponents, root, hroot, hcreate, hopened⟩
    rw [Path.parent_of_components hcomponents]
    refine ⟨root, hroot, file, ?_, (), createParentDir_eq_ok_iff.2 hcreate, dir,
      openParentDir_eq_ok_iff.2 hopened, rfl, rfl⟩
    rw [Path.fileName_eq_some_iff.2 ⟨above, hcomponents⟩]

/-! ### The path of a cassette -/

/-- The path that `start_harness` joins. -/
def HarnessConfig.cassettePath (cfg : HarnessConfig Url) : String :=
  Path.join cfg.cassetteDir cfg.cassetteName

/-- Some segment of the name is neither empty nor `.`. -/
def NamesFile (name : String) : Prop :=
  ∃ segment ∈ Str.split '/' name, segment ≠ "" ∧ segment ≠ "."

instance (name : String) : Decidable (NamesFile name) :=
  inferInstanceAs (Decidable (∃ segment ∈ _, _))

theorem body_ne_nil_iff {name : String} : Path.body name ≠ [] ↔ NamesFile name := by
  rw [ne_eq, Path.body_eq_nil_iff]
  simp only [NamesFile, not_forall, not_or, exists_prop]

/-- **What the check of the name means**: it is relative, and no segment of it leads up. -/
theorem accepted_name {cfg : HarnessConfig Url} (h : validateConfig cfg = .ok ()) :
    Path.hasRoot cfg.cassetteName = false ∧
      ∀ c ∈ Path.body cfg.cassetteName, ∃ name, c = .normal name := by
  obtain ⟨-, hroot, htraversal, -⟩ := validateConfig_eq_ok_iff.1 h
  refine ⟨?_, Path.body_of_no_traversal htraversal⟩
  rw [Path.hasRoot, beq_eq_false_iff_ne]
  exact hroot

/-- **The components of the path** are those of the directory, and then the names in the cassette's
name; without a directory, a leading `.` of the name is a component too. -/
theorem components_cassettePath {cfg : HarnessConfig Url} (h : validateConfig cfg = .ok ()) :
    ∃ front, Path.components cfg.cassettePath = front ++ Path.body cfg.cassetteName ∧
      (front = Path.components cfg.cassetteDir ∨
        front = [.curDir] ∧ Path.components cfg.cassetteDir = []) := by
  obtain ⟨hroot, -⟩ := accepted_name h
  by_cases hdir : cfg.cassetteDir = ""
  · have hnone : Path.components "" = [] := by decide
    rw [HarnessConfig.cassettePath, hdir, Path.join_empty, hnone]
    unfold Path.components
    rw [hroot]
    cases Path.includeCurDir cfg.cassetteName with
    | false => exact ⟨[], rfl, Or.inl rfl⟩
    | true => exact ⟨[.curDir], rfl, Or.inr ⟨rfl, rfl⟩⟩
  · exact ⟨_, Path.components_join hdir hroot, Or.inl rfl⟩

/-! ### Inside the directory -/

/-- Whenever the cassette of a session is opened, the file it is kept in and the temporary next to
it lie strictly below the cassette directory. -/
def StaysInside (os : DirectoryCalls D) (cfg : HarnessConfig Url) (createParent : Bool) : Prop :=
  ∀ dir file, openRootedParent os cfg.cassettePath createParent = .ok (dir, file) →
    ∃ above, Path.parent cfg.cassettePath = some above ∧ os.Opens createParent above dir ∧
      Path.Below (Path.components cfg.cassetteDir) (above ++ [.normal file]) ∧
      Path.Below (Path.components cfg.cassetteDir) (above ++ [.normal (tempName file)])

/-- The cassette directory ends in a name, and the directory above it can be opened. -/
def OpensAbove (os : DirectoryCalls D) (cfg : HarnessConfig Url) (createParent : Bool) : Prop :=
  ∃ above last dir, Path.components cfg.cassetteDir = above ++ [.normal last] ∧
    os.Opens createParent above dir

/-- A name with a segment of its own keeps the cassette inside its directory. -/
theorem staysInside_of_namesFile {os : DirectoryCalls D} {cfg : HarnessConfig Url}
    {createParent : Bool} (h : validateConfig cfg = .ok ()) (hname : NamesFile cfg.cassetteName) :
    StaysInside os cfg createParent := by
  obtain ⟨front, hpath, hfront⟩ := components_cassettePath h
  intro dir file hopen
  obtain ⟨above, hcomponents, hopens⟩ := openRootedParent_eq_ok_iff.1 hopen
  refine ⟨above, Path.parent_of_components hcomponents, hopens, ?_⟩
  obtain ⟨rest, hrest⟩ : Path.components cfg.cassetteDir <+: front := by
    rcases hfront with rfl | ⟨-, hnone⟩
    · exact List.prefix_rfl
    · exact hnone ▸ List.nil_prefix
  -- the last name is the file's, and everything before it lies in the directory
  rcases List.eq_nil_or_concat' (Path.body cfg.cassetteName) with hnil | ⟨init, last, hlast⟩
  · exact absurd hnil (body_ne_nil_iff.2 hname)
  · rw [hpath, hlast, ← hrest, ← List.append_assoc, List.append_assoc _ rest] at hcomponents
    obtain rfl := (List.append_inj' hcomponents rfl).1
    exact ⟨Path.below_append_concat _ _ _, Path.below_append_concat _ _ _⟩

/-- **An accepted name keeps the cassette inside its directory** exactly if one of its segments is
neither empty nor `.`, unless the directory above cannot be opened anyway.  No segment of it leads
up. -/
theorem cassette_stays_inside_iff (os : DirectoryCalls D) (cfg : HarnessConfig Url)
    (createParent : Bool) (h : validateConfig cfg = .ok ()) :
    (StaysInside os cfg createParent ↔
      NamesFile cfg.cassetteName ∨ ¬ OpensAbove os cfg createParent) ∧
    ∀ c ∈ Path.body cfg.cassetteName, ∃ name, c = .normal name := by
  refine ⟨?_, (accepted_name h).2⟩
  by_cases hname : NamesFile cfg.cassetteName
  · exact iff_of_true (staysInside_of_namesFile h hname) (Or.inl hname)
  obtain ⟨front, hpath, hfront⟩ := components_cassettePath h
  have hbody : Path.body cfg.cassetteName = [] := by
    by_contra hne
    exact hname (body_ne_nil_iff.1 hne)
  rw [hbody, List.append_nil] at hpath
  rw [or_iff_right hname]
  constructor
  -- the path is the directory's own, so the file has the directory's name and lies beside it
  · rintro hinside ⟨above, last, dir, hdir, hopens⟩
    have hown : Path.components cfg.cassettePath = above ++ [.normal last] := by
      rcases hfront with rfl | ⟨-, hnone⟩
      · rw [hpath, hdir]
      · simp [hdir] at hnone
    obtain ⟨above', hparent, -, hbelow, -⟩ :=
      hinside dir last (openRootedParent_eq_ok_iff.2 ⟨above, hown, hopens⟩)
    rw [Path.parent_of_components hown] at hparent
    obtain rfl := Option.some.inj hparent
    rw [hdir] at hbelow
    exact Path.not_below_self _ hbelow
  · intro hclosed dir file hopen
    obtain ⟨above, hcomponents, hopens⟩ := openRootedParent_eq_ok_iff.1 hopen
    rw [hpath] at hcomponents
    rcases hfront with rfl | ⟨rfl, -⟩
    · exact absurd ⟨above, file, dir, hcomponents, hopens⟩ hclosed
    · have hlast := congrArg List.getLast? hcomponents
      simp at hlast

/-- Calls that all succeed. -/
def DirectoryCalls.permissive : DirectoryCalls Unit where
  openAmbientDir := .ok ()
  createDirAll _ _ := .ok ()
  openDir _ _ := .ok ()
  tryClone _ := .ok ()

/-- Dots and separators anywhere in a name do not lead out of the directory. -/
theorem cassette_stays_inside_iff_nested :
    let cfg : HarnessConfig Unit := ⟨.replay, "fixtures//llm/", "./a//./b.json/.", none⟩
    openRootedParent .permissive cfg.cassettePath false = .ok ((), "b.json") ∧
      StaysInside .permissive cfg false :=
  ⟨by decide, (cassette_stays_inside_iff _ _ _ (by decide)).1.2 (Or.inl (by decide))⟩

/-- The name `.` is accepted, and the cassette takes the place of its directory. -/
theorem cassette_beside_directory :
    let cfg : HarnessConfig Unit := ⟨.record, "cassettes", ".", some ⟨(), ⟨[], by decide⟩⟩⟩
    validateConfig cfg = .ok () ∧
      openRootedParent .permissive cfg.cassettePath true = .ok ((), "cassettes") ∧
      Path.parent cfg.cassettePath = some [] ∧ ¬ StaysInside .permissive cfg true := by
  intro cfg
  have hopen : openRootedParent .permissive cfg.cassettePath true = .ok ((), "cassettes") := by
    decide
  have hnone : Path.parent cfg.cassettePath = some [] := by decide
  refine ⟨by decide, hopen, hnone, fun hinside => ?_⟩
  obtain ⟨above, hparent, -, hbelow, -⟩ := hinside () "cassettes" hopen
  rw [hnone] at hparent
  obtain rfl := Option.some.inj hparent
  exact absurd hbelow (by decide)

end SpycatcherHarness
