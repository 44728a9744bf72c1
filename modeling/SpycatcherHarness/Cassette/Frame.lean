import SpycatcherHarness.Cassette.Filesystem

/-!
# What lies beside a cassette file

Writing a cassette goes through a sibling temporary whose name is fixed: it is the file's name with
`.tmp` behind it.  Whatever steps fail, a call touches nothing but these two names.  What stood
under the name of the temporary is lost once the temporary has been created.

* `Store.leaves_flush` : what a flush leaves in the rest of the directory.
* `Store.Leaves.andThen` : one effect after another.
* `Store.Call.leaves` : **what a call leaves** beside the cassette file.
* `Store.foreign_temp_lost` : a foreign file under the name of the temporary, and a temporary that
  is left behind.
-/

namespace SpycatcherHarness

open Files

namespace Store

variable (S : SerdeJson)

/-! ### Leaving the rest alone -/

/-- What an effect leaves beside the cassette file: nothing but the file and its temporary is
touched, nothing at all is before the temporary is created, and no temporary stays behind after
success, or if only writing it has failed. -/
structure Leaves (fileName : String) (tidy : Prop) (dir : Dir String) (effect : Effect Unit) :
    Prop where
  others : ∀ n, n ≠ fileName → n ≠ tempName fileName → applyAll dir effect.1 n = dir n
  idle : Op.create (tempName fileName) ∉ effect.1 → applyAll dir effect.1 = dir
  gone : Op.create (tempName fileName) ∈ effect.1 → effect.2 = .ok () ∨ tidy →
    applyAll dir effect.1 (tempName fileName) = none

theorem leaves_nil (fileName : String) (tidy : Prop) (dir : Dir String)
    (result : HarnessResult Unit) : Leaves fileName tidy dir ([], result) :=
  ⟨fun _ _ _ => rfl, fun _ => rfl, fun h => absurd h List.not_mem_nil⟩

theorem leaves_flush (faults : Faults) (dir : Dir String) (store : Store) :
    Leaves store.fileName faults.Tidy dir (flush S faults dir store) := by
  rcases flush_cases S faults dir store with ⟨e, hflush⟩ | ⟨ops, honly, -, hflush⟩ |
    ⟨ops, e, honly, hflush, htidy⟩
  · rw [hflush]
    exact leaves_nil _ _ dir _
  · rw [hflush]
    refine ⟨fun n hfile htemp => ?_, fun h => absurd List.mem_cons_self h, fun _ _ => ?_⟩
    · rw [applyAll_append, applyAll_cons, applyAll_nil, apply_of_not_mem (by simp [Op.names, *]),
        honly.applyAll htemp]
    · simp [Op.apply, Function.update_of_ne (tempName_ne store.fileName).symm]
  · rw [hflush]
    refine ⟨fun n _ htemp => honly.applyAll htemp dir, fun h => absurd List.mem_cons_self h, ?_⟩
    rintro - (hok | ht)
    · cases hok
    · obtain ⟨ops', rfl⟩ := htidy ht
      simp [Op.apply]

/-- One effect after another that has succeeded. -/
theorem Leaves.andThen {fileName : String} {tidy tidy' : Prop} {dir : Dir String}
    {ops ops' : List (Op String)} {result : HarnessResult Unit}
    (h : Leaves fileName tidy dir (ops, .ok ()))
    (h' : Leaves fileName tidy' (applyAll dir ops) (ops', result)) :
    Leaves fileName (tidy ∧ tidy') dir (ops ++ ops', result) := by
  refine ⟨fun n hfile htemp => ?_, fun hidle => ?_, fun hcreate hgone => ?_⟩
  · rw [applyAll_append, h'.others n hfile htemp, h.others n hfile htemp]
  · obtain ⟨hops, hops'⟩ := not_or.1 (mt List.mem_append.2 hidle)
    rw [applyAll_append, h'.idle hops', h.idle hops]
  · rw [applyAll_append]
    by_cases hops' : Op.create (tempName fileName) ∈ ops'
    · exact h'.gone hops' (hgone.imp id And.right)
    · rw [h'.idle hops']
      exact h.gone ((List.mem_append.1 hcreate).resolve_right hops') (.inl rfl)

/-! ### Calls -/

/-- A call on a cassette file, and which of its steps fail. -/
inductive Call where
  /-- An append to a store that holds the cassette. -/
  | append (cassette : Cassette) (interaction : Interaction) (faults : Faults)
  | openOrCreateForRecord (faults : Faults)
  | probeRecordWriteAccess (faults faults' : Faults)

namespace Call

/-- What the call does to the directory, and whether it succeeds. -/
def run (dir : Dir String) (fileName : String) : Call → Effect Unit
  | append cassette interaction faults =>
    (Store.append S faults dir ⟨fileName, cassette⟩ interaction).1
  | openOrCreateForRecord faults =>
    ((Store.openOrCreateForRecord S faults dir fileName).1,
      (Store.openOrCreateForRecord S faults dir fileName).2.map fun _ => ())
  | probeRecordWriteAccess faults faults' =>
    Store.probeRecordWriteAccess S faults faults' dir fileName

/-- No step fails that leaves a temporary behind. -/
def Tidy : Call → Prop
  | append _ _ faults | openOrCreateForRecord faults => faults.Tidy
  | probeRecordWriteAccess faults faults' => faults.Tidy ∧ faults'.Tidy

end Call

theorem leaves_openOrCreateForRecord (faults : Faults) (dir : Dir String) (fileName : String) :
    Leaves fileName faults.Tidy dir ((openOrCreateForRecord S faults dir fileName).1,
      (openOrCreateForRecord S faults dir fileName).2.map fun _ => ()) := by
  unfold openOrCreateForRecord
  split_ifs
  · exact leaves_nil _ _ dir _
  · cases dir fileName with
    | some file => exact leaves_nil _ _ dir _
    | none =>
      have hflush := leaves_flush S faults dir ⟨fileName, .new⟩
      rcases hf : flush S faults dir ⟨fileName, .new⟩ with ⟨ops, e | u⟩
      all_goals
        rw [hf] at hflush
        simp only [hf, Except.map]
        exact hflush

theorem leaves_append (faults : Faults) (dir : Dir String) (store : Store) (i : Interaction) :
    Leaves store.fileName faults.Tidy dir (append S faults dir store i).1 := by
  have hflush := leaves_flush S faults dir { store with cassette := store.cassette.append i }
  unfold append
  rcases hf : flush S faults dir { store with cassette := store.cassette.append i } with
    ⟨ops, e | u⟩
  all_goals
    rw [hf] at hflush
    simp only [hf]
    exact hflush

/-- What is opened is the file of the given name. -/
theorem fileName_of_openOrCreateForRecord {faults : Faults} {dir : Dir String} {fileName : String}
    {ops : List (Op String)} {store : Store}
    (h : openOrCreateForRecord S faults dir fileName = (ops, .ok store)) :
    store.fileName = fileName := by
  rcases openOrCreateForRecord_spec S faults dir fileName with ⟨_, c, -, -, heq⟩ | ⟨_, -, heq, -⟩ |
    ⟨_, e, heq, -⟩
  all_goals
    rw [heq] at h
    cases h
  · rfl
  · rfl

theorem leaves_probeRecordWriteAccess (faults faults' : Faults) (dir : Dir String)
    (fileName : String) : Leaves fileName (faults.Tidy ∧ faults'.Tidy) dir
      (probeRecordWriteAccess S faults faults' dir fileName) := by
  have hopen := leaves_openOrCreateForRecord S faults dir fileName
  unfold probeRecordWriteAccess
  rcases hf : openOrCreateForRecord S faults dir fileName with ⟨ops, e | store⟩
  · rw [hf] at hopen
    exact ⟨hopen.others, hopen.idle, fun hcreate hgone =>
      hopen.gone hcreate (hgone.imp (fun h => by cases h) And.left)⟩
  · rw [hf] at hopen
    have hflush := leaves_flush S faults' (applyAll dir ops) store
    rw [fileName_of_openOrCreateForRecord S hf] at hflush
    exact hopen.andThen hflush

/-- **Beside the cassette file.**  For every directory and every cassette file name, whichever steps
of an append, of opening or creating, or of probing succeed or fail. -/
theorem Call.leaves (call : Call) (dir : Dir String) (fileName : String) :
    Leaves fileName call.Tidy dir (call.run S dir fileName) := by
  cases call with
  | append cassette interaction faults =>
    exact leaves_append S faults dir ⟨fileName, cassette⟩ interaction
  | openOrCreateForRecord faults => exact leaves_openOrCreateForRecord S faults dir fileName
  | probeRecordWriteAccess faults faults' =>
    exact leaves_probeRecordWriteAccess S faults faults' dir fileName

/-- A file that happens to lie under the name of the temporary is lost in a successful append, and
a temporary that cannot be renamed is left behind. -/
theorem foreign_temp_lost :
    let foreign : File := ⟨Str.asBytes "notes", 0o600⟩
    let dir : Dir String := fun n => if n = "c.json.tmp" then some foreign else none
    let request : RecordedRequest := ⟨"GET", "/", "", [], [], none, none, none⟩
    let i : Interaction := ⟨request, .nonStream 200 [] [] none, ⟨"chat", "up", "now", 0⟩⟩
    let call : Call := .append .new i .none
    let unrenamed : Call := .openOrCreateForRecord { Faults.none with rename := some .other }
    (call.run .exact dir "c.json").2 = .ok () ∧
    applyAll dir (call.run .exact dir "c.json").1 "c.json.tmp" ≠ dir "c.json.tmp" ∧
    (applyAll (fun _ => none) (unrenamed.run .exact (fun _ => none) "c.json").1
      "c.json.tmp").isSome := by
  intro foreign dir request i call unrenamed
  have hok : (call.run .exact dir "c.json").2 = .ok () := rfl
  refine ⟨hok, ?_, by decide +kernel⟩
  have hgone : applyAll dir (call.run .exact dir "c.json").1 "c.json.tmp" = none := by
    decide +kernel
  rw [hgone]
  decide

end Store

end SpycatcherHarness
