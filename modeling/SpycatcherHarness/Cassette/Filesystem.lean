import SpycatcherHarness.Cassette.Codec
import SpycatcherHarness.Machine.Files

/-!
# The filesystem store

`FilesystemCassetteStore` keeps the whole cassette in memory and rewrites its file on every append:
`flush` writes the document to a sibling temporary and renames it over the file.  Each call is
modelled by the operations it performs on the directory and by its result; `Faults` chooses which
of its steps fail, and where a write stops.

* `Store.flush_cases`, `Store.flush_spec` : all that a flush can do.
* `Store.append_spec` : an append either changes nothing, in memory and in the file, or extends
  both.
* `Store.append_take` : a program that stops inside an append leaves the old document or the
  new one.
-/

namespace SpycatcherHarness

open Files

/-- Which steps of a call fail. -/
structure Faults where
  /-- Opening or reading the existing file. -/
  read : Bool
  /-- Reading the permissions of the existing file. -/
  metadata : Bool
  create : Option IoErrorKind
  setPermissions : Option IoErrorKind
  /-- After how many bytes writing fails. -/
  write : Option (ℕ × IoErrorKind)
  sync : Option IoErrorKind
  /-- Removing the temporary after a failed write. -/
  remove : Bool
  rename : Option IoErrorKind

/-- No step fails. -/
def Faults.none : Faults := ⟨false, false, .none, .none, .none, .none, false, .none⟩

/-- No step fails that leaves a temporary behind: those after creating it, writing it apart. -/
def Faults.Tidy (faults : Faults) : Prop :=
  faults.setPermissions = .none ∧ faults.remove = false ∧ faults.rename = .none

/-- `FilesystemCassetteStore`, in a fixed directory. -/
structure Store where
  /-- File name relative to the directory. -/
  fileName : String
  /-- In-memory state mirrored to disk after each append. -/
  cassette : Cassette
  deriving DecidableEq

/-- The sibling temporary of a cassette file. -/
def tempName (fileName : String) : String := fileName ++ ".tmp"

theorem tempName_ne (fileName : String) : fileName ≠ tempName fileName := by
  intro h
  have hlen := congrArg (fun s => s.toList.length) h
  simp [tempName] at hlen

/-- What a call does to the directory, and its result. -/
abbrev Effect (α : Type) := List (Op String) × HarnessResult α

namespace Store

variable (S : SerdeJson)

/-- The bytes that `write_to` and `sync_all` get to write, and their result. -/
def writeDocument (faults : Faults) (temp : String) (document : Bytes) : Effect Unit :=
  match faults.write with
  | some (k, e) => (writes temp (document.take k), .error (.io e))
  | none =>
    match faults.sync with
    | some e => (writes temp document, .error (.io e))
    | none => (writes temp document, .ok ())

/-- `FilesystemCassetteStore::flush`. -/
def flush (faults : Faults) (dir : Dir String) (store : Store) : Effect Unit :=
  let temp := tempName store.fileName
  let permissions := if faults.metadata then none else (dir store.fileName).map File.mode
  match faults.create with
  | some e => ([], .error (.io e))
  | none =>
    -- permissions that cannot be read are not set
    match permissions, faults.setPermissions with
    | some _, some e => ([.create temp], .error (.io e))
    | _, _ =>
      let opened := .create temp :: (permissions.map (Op.setMode temp)).toList
      match writeDocument faults temp (store.cassette.writeTo S) with
      | (written, .error e) =>
        -- the result of removing the temporary is dropped
        (opened ++ written ++ if faults.remove then [] else [.remove temp], .error e)
      | (written, .ok ()) =>
        match faults.rename with
        | some e => (opened ++ written, .error (.io e))
        | none => (opened ++ written ++ [.rename temp store.fileName], .ok ())

/-- `open_or_create_for_record`, in the cassette's directory. -/
def openOrCreateForRecord (faults : Faults) (dir : Dir String) (fileName : String) :
    Effect Store :=
  if faults.read then ([], .error (.io .other))
  else
    match dir fileName with
    | some file =>
      ([], (Cassette.fromReader S file.content).map fun cassette => ⟨fileName, cassette⟩)
    | none =>
      let store : Store := ⟨fileName, .new⟩
      let (ops, result) := flush S faults dir store
      (ops, result.map fun _ => store)

/-- `open_for_replay`, in the cassette's directory. -/
def openForReplay (faults : Faults) (dir : Dir String) (fileName : String) :
    HarnessResult Store :=
  if faults.read then .error (.io .other)
  else
    match dir fileName with
    | none => .error (.cassetteNotFound fileName)
    | some file =>
      (Cassette.fromReader S file.content).map fun cassette => ⟨fileName, cassette⟩

/-- `CassetteAppender::append`: the interaction is pushed, and popped again if the flush fails. -/
def append (faults : Faults) (dir : Dir String) (store : Store) (interaction : Interaction) :
    Effect Unit × Store :=
  let pushed : Store := { store with cassette := store.cassette.append interaction }
  match flush S faults dir pushed with
  | (ops, .ok ()) => ((ops, .ok ()), pushed)
  | (ops, .error e) =>
    let popped := { pushed.cassette with interactions := pushed.cassette.interactions.dropLast }
    ((ops, .error e), { pushed with cassette := popped })

/-- `probe_record_write_access`. -/
def probeRecordWriteAccess (faults faults' : Faults) (dir : Dir String) (fileName : String) :
    Effect Unit :=
  match openOrCreateForRecord S faults dir fileName with
  | (ops, .error e) => (ops, .error e)
  | (ops, .ok store) =>
    let (ops', result) := flush S faults' (applyAll dir ops) store
    (ops ++ ops', result)

/-! ### What a flush does -/

/-- What a file holds. -/
def content (dir : Dir String) (fileName : String) : Option Bytes :=
  (dir fileName).map File.content

theorem writeDocument_spec (faults : Faults) (temp : String) (document : Bytes) :
    Only temp (writeDocument faults temp document).1 ∧
      ((writeDocument faults temp document).2 = .ok () →
        (writeDocument faults temp document).1 = writes temp document) := by
  unfold writeDocument
  cases faults.write with
  | some w => exact ⟨only_writes _ _, by simp⟩
  | none => cases faults.sync <;> exact ⟨only_writes _ _, by simp⟩

/-- After creating the temporary and setting its mode, it is there and empty. -/
theorem opened_spec (dir : Dir String) (temp : String) (permissions : Option ℕ) :
    Only temp (.create temp :: (permissions.map (Op.setMode temp)).toList) ∧
      ∃ mode, applyAll dir (.create temp :: (permissions.map (Op.setMode temp)).toList) temp =
        some ⟨[], mode⟩ := by
  cases permissions with
  | none => exact ⟨by simp [Only, Op.names], _, by simp [Op.apply]; rfl⟩
  | some m => exact ⟨by simp [Only, Op.names], m, by simp [Op.apply]⟩

/-- A flush that cannot create the temporary does nothing.  One that succeeds fills the temporary
with the document and renames it over the file; one that fails later removes it, if nothing but
writing fails. -/
theorem flush_cases (faults : Faults) (dir : Dir String) (store : Store) :
    (∃ e, flush S faults dir store = ([], .error e)) ∨
    (∃ ops, Only (tempName store.fileName) (Op.create (tempName store.fileName) :: ops) ∧
      ((applyAll dir (Op.create (tempName store.fileName) :: ops)) (tempName store.fileName)).map
        File.content = some (store.cassette.writeTo S) ∧
      flush S faults dir store =
        (Op.create (tempName store.fileName) :: ops ++
          [Op.rename (tempName store.fileName) store.fileName], .ok ())) ∨
    (∃ ops e, Only (tempName store.fileName) (Op.create (tempName store.fileName) :: ops) ∧
      flush S faults dir store = (Op.create (tempName store.fileName) :: ops, .error e) ∧
      (faults.Tidy → ∃ ops', ops = ops' ++ [Op.remove (tempName store.fileName)])) := by
  set temp := tempName store.fileName with htemp
  unfold flush
  simp only [← htemp]
  cases faults.create with
  | some e => exact .inl ⟨_, rfl⟩
  | none =>
    simp only
    split
    · rename_i e _ hset
      refine .inr (.inr ⟨[], _, by simp [Only, Op.names], rfl, fun htidy => ?_⟩)
      rw [htidy.1] at hset
      cases hset
    -- from here on the steps depend on the permissions only through the mode of the temporary
    · generalize (if faults.metadata then none else (dir store.fileName).map File.mode) =
        permissions
      obtain ⟨honly, mode, hopened⟩ := opened_spec dir temp permissions
      obtain ⟨hwrites, hok⟩ := writeDocument_spec faults temp (store.cassette.writeTo S)
      cases hwritten : writeDocument faults temp (store.cassette.writeTo S) with
      | mk written result =>
        rw [hwritten] at hwrites hok
        have hboth := honly.append hwrites
        cases result with
        | error e =>
          refine .inr (.inr ⟨_, e, hboth.append ?_, rfl, fun htidy => ?_⟩)
          -- a failed write may leave the temporary, but touches nothing else
          · split_ifs <;> simp [Only, Op.names]
          · rw [htidy.2.1, if_neg Bool.false_ne_true]
            exact ⟨_, rfl⟩
        | ok u =>
          have hdoc := hok rfl
          cases hrename : faults.rename with
          | none =>
            refine .inr (.inl ⟨(permissions.map (Op.setMode temp)).toList ++ written, hboth, ?_,
              rfl⟩)
            simp only at hdoc
            rw [← List.cons_append, hdoc, applyAll_append, applyAll_writes, hopened]
            simp
          | some e =>
            refine .inr (.inr ⟨_, _, hboth, rfl, fun htidy => ?_⟩)
            rw [htidy.2.2] at hrename
            cases hrename

/-- A flush that succeeds fills the temporary with the document and renames it over the file; one
that fails touches the temporary only. -/
theorem flush_spec (faults : Faults) (dir : Dir String) (store : Store) :
    (∃ ops, Only (tempName store.fileName) ops ∧
      ((applyAll dir ops) (tempName store.fileName)).map File.content =
        some (store.cassette.writeTo S) ∧
      flush S faults dir store =
        (ops ++ [Op.rename (tempName store.fileName) store.fileName], .ok ())) ∨
    (∃ ops e, Only (tempName store.fileName) ops ∧ flush S faults dir store = (ops, .error e)) := by
  rcases flush_cases S faults dir store with ⟨e, hflush⟩ | ⟨ops, honly, hdoc, hflush⟩ |
    ⟨ops, e, honly, hflush, -⟩
  · exact .inr ⟨[], e, by simp [Only], hflush⟩
  · exact .inl ⟨_, honly, hdoc, hflush⟩
  · exact .inr ⟨_, e, honly, hflush⟩

/-- A flush replaces the file by the document or leaves it alone. -/
theorem content_flush (faults : Faults) (dir : Dir String) (store : Store) :
    ((flush S faults dir store).2 = .ok () ∧
      content (applyAll dir (flush S faults dir store).1) store.fileName =
        some (store.cassette.writeTo S)) ∨
    (∃ e, (flush S faults dir store).2 = .error e ∧
      content (applyAll dir (flush S faults dir store).1) store.fileName =
        content dir store.fileName) := by
  rcases flush_spec S faults dir store with ⟨ops, honly, hdoc, hflush⟩ | ⟨ops, e, honly, hflush⟩
  · rw [hflush]
    exact Or.inl ⟨rfl, by simpa [content, Op.apply] using hdoc⟩
  · rw [hflush]
    exact Or.inr ⟨e, rfl, by rw [content, honly.applyAll (tempName_ne _), content]⟩

theorem flush_none (dir : Dir String) (store : Store) : (flush S .none dir store).2 = .ok () := by
  unfold flush
  cases dir store.fileName <;> simp [Faults.none, writeDocument]

/-- A flush that is cut short leaves the old content or the new document. -/
theorem content_flush_take (faults : Faults) (dir : Dir String) (store : Store) (k : ℕ) :
    content (applyAll dir ((flush S faults dir store).1.take k)) store.fileName =
        content dir store.fileName ∨
      content (applyAll dir ((flush S faults dir store).1.take k)) store.fileName =
        some (store.cassette.writeTo S) := by
  rcases flush_spec S faults dir store with ⟨ops, honly, hdoc, hflush⟩ | ⟨ops, e, honly, hflush⟩
  · rw [hflush]
    -- the rename is the last step, and atomic
    rcases replace_prefix (tempName_ne store.fileName) honly dir k with h | h
    · exact Or.inl (by rw [content, h, content])
    · exact Or.inr (by rw [content, h, hdoc])
  · rw [hflush]
    exact Or.inl (by rw [content, (honly.take k).applyAll (tempName_ne _), content])

/-! ### Appending -/

/-- An append extends the memory and the file by the interaction, or changes neither. -/
theorem append_spec (faults : Faults) (dir : Dir String) (store : Store) (i : Interaction) :
    (∃ ops, append S faults dir store i =
        ((ops, .ok ()), { store with cassette := store.cassette.append i }) ∧
      content (applyAll dir ops) store.fileName = some ((store.cassette.append i).writeTo S)) ∨
    (∃ ops e, append S faults dir store i = ((ops, .error e), store) ∧
      content (applyAll dir ops) store.fileName = content dir store.fileName) := by
  have hflush := content_flush S faults dir { store with cassette := store.cassette.append i }
  unfold append
  cases hf : flush S faults dir { store with cassette := store.cassette.append i } with
  | mk ops result =>
    rw [hf] at hflush
    simp only [hf]
    rcases hflush with ⟨rfl, hcontent⟩ | ⟨e, rfl, hcontent⟩
    · exact Or.inl ⟨ops, rfl, hcontent⟩
    · exact Or.inr ⟨ops, e, by simp [Cassette.append], hcontent⟩

/-- Where no step fails, the append succeeds. -/
theorem append_none (dir : Dir String) (store : Store) (i : Interaction) :
    ∃ ops, append S .none dir store i =
        ((ops, .ok ()), { store with cassette := store.cassette.append i }) ∧
      content (applyAll dir ops) store.fileName = some ((store.cassette.append i).writeTo S) := by
  have hok : (append S .none dir store i).1.2 = .ok () := by
    unfold append
    cases hf : flush S .none dir { store with cassette := store.cassette.append i } with
    | mk ops result =>
      have hflush := flush_none S dir { store with cassette := store.cassette.append i }
      rw [hf] at hflush
      obtain rfl : result = .ok () := hflush
      simp only [hf]
  rcases append_spec S .none dir store i with h | ⟨ops, e, heq, -⟩
  · exact h
  · simp [heq] at hok

/-- The operations of an append are those of a flush. -/
theorem append_ops (faults : Faults) (dir : Dir String) (store : Store) (i : Interaction) :
    (append S faults dir store i).1.1 =
      (flush S faults dir { store with cassette := store.cassette.append i }).1 := by
  unfold append
  cases hf : flush S faults dir { store with cassette := store.cassette.append i } with
  | mk ops result =>
    simp only [hf]
    cases result <;> rfl

/-- A program that stops inside an append leaves the old document or the new one. -/
theorem append_take (faults : Faults) (dir : Dir String) (store : Store) (i : Interaction)
    (k : ℕ) :
    content (applyAll dir ((append S faults dir store i).1.1.take k)) store.fileName =
        content dir store.fileName ∨
      content (applyAll dir ((append S faults dir store i).1.1.take k)) store.fileName =
        some ((store.cassette.append i).writeTo S) := by
  rw [append_ops]
  exact content_flush_take S faults dir { store with cassette := store.cassette.append i } k

/-! ### Opening -/

/-- Opening reads the existing file, or creates one for the empty cassette; where it fails the
file is left alone. -/
theorem openOrCreateForRecord_spec (faults : Faults) (dir : Dir String) (fileName : String) :
    (∃ bytes cassette, content dir fileName = some bytes ∧
      Cassette.fromReader S bytes = .ok cassette ∧
      openOrCreateForRecord S faults dir fileName = ([], .ok ⟨fileName, cassette⟩)) ∨
    (∃ ops, content dir fileName = none ∧
      openOrCreateForRecord S faults dir fileName = (ops, .ok ⟨fileName, .new⟩) ∧
      content (applyAll dir ops) fileName = some (Cassette.new.writeTo S)) ∨
    (∃ ops e, openOrCreateForRecord S faults dir fileName = (ops, .error e) ∧
      content (applyAll dir ops) fileName = content dir fileName) := by
  unfold openOrCreateForRecord
  split_ifs with hread
  · exact Or.inr (Or.inr ⟨[], _, rfl, rfl⟩)
  · cases hfile : dir fileName with
    | some file =>
      cases hdecode : Cassette.fromReader S file.content with
      | error e => exact Or.inr (Or.inr ⟨[], e, by simp [hdecode, Except.map], rfl⟩)
      | ok c =>
        exact Or.inl ⟨file.content, c, by simp [content, hfile], hdecode,
          by simp [hdecode, Except.map]⟩
    | none =>
      have hnone : content dir fileName = none := by simp [content, hfile]
      have hflush := content_flush S faults dir ⟨fileName, .new⟩
      cases hf : flush S faults dir ⟨fileName, .new⟩ with
      | mk ops result =>
        rw [hf] at hflush
        rcases hflush with ⟨rfl, hcontent⟩ | ⟨e, rfl, hcontent⟩
        · exact Or.inr (Or.inl ⟨ops, hnone, by simp [hf, Except.map], hcontent⟩)
        · exact Or.inr (Or.inr ⟨ops, e, by simp [hf, Except.map], by simpa [hfile] using hcontent⟩)

theorem openOrCreateForRecord_none_of_some {dir : Dir String} {fileName : String} {bytes : Bytes}
    {cassette : Cassette} (hfile : content dir fileName = some bytes)
    (hdecode : Cassette.fromReader S bytes = .ok cassette) :
    openOrCreateForRecord S .none dir fileName = ([], .ok ⟨fileName, cassette⟩) := by
  obtain ⟨file, hdir, rfl⟩ := Option.map_eq_some_iff.1 hfile
  simp [openOrCreateForRecord, Faults.none, hdir, hdecode, Except.map]

theorem openOrCreateForRecord_none_of_none {dir : Dir String} {fileName : String}
    (habsent : content dir fileName = none) :
    ∃ ops, openOrCreateForRecord S .none dir fileName = (ops, .ok ⟨fileName, .new⟩) ∧
      content (applyAll dir ops) fileName = some (Cassette.new.writeTo S) := by
  have hdir : dir fileName = none := Option.map_eq_none_iff.1 habsent
  have hresult := flush_none S dir ⟨fileName, .new⟩
  have hflush := content_flush S .none dir ⟨fileName, .new⟩
  cases hf : flush S .none dir ⟨fileName, .new⟩ with
  | mk ops result =>
    rw [hf] at hresult hflush
    obtain rfl : result = .ok () := hresult
    rcases hflush with ⟨-, hcontent⟩ | ⟨e, he, -⟩
    · exact ⟨ops, by simp [openOrCreateForRecord, Faults.none, hdir] at hf ⊢; simp [hf, Except.map],
        hcontent⟩
    · cases he

/-- Where no step fails, probing writes the document of what opening gives. -/
theorem probeRecordWriteAccess_none {dir : Dir String} {fileName : String}
    {ops : List (Op String)} {cassette : Cassette}
    (hopen : openOrCreateForRecord S .none dir fileName = (ops, .ok ⟨fileName, cassette⟩)) :
    content (applyAll dir (probeRecordWriteAccess S .none .none dir fileName).1) fileName =
      some (cassette.writeTo S) := by
  have hresult := flush_none S (applyAll dir ops) ⟨fileName, cassette⟩
  rcases content_flush S .none (applyAll dir ops) ⟨fileName, cassette⟩ with
    ⟨-, hcontent⟩ | ⟨e, he, -⟩
  · simpa [probeRecordWriteAccess, hopen] using hcontent
  · rw [hresult] at he
    cases he

/-- A program that stops inside opening leaves the file alone or has created it. -/
theorem openOrCreateForRecord_take (faults : Faults) (dir : Dir String) (fileName : String)
    (k : ℕ) :
    content (applyAll dir ((openOrCreateForRecord S faults dir fileName).1.take k)) fileName =
        content dir fileName ∨
      content dir fileName = none ∧
        content (applyAll dir ((openOrCreateForRecord S faults dir fileName).1.take k)) fileName =
          some (Cassette.new.writeTo S) := by
  unfold openOrCreateForRecord
  split_ifs with hread
  · exact Or.inl (by simp)
  · cases hfile : dir fileName with
    | some file => exact Or.inl (by simp)
    | none =>
      rcases content_flush_take S faults dir ⟨fileName, .new⟩ k with h | h
      · exact Or.inl h
      · exact Or.inr ⟨by simp [content, hfile], h⟩

end Store

end SpycatcherHarness
