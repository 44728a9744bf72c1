import Mathlib.Data.List.Nodup
import Mathlib.Data.List.Perm.Subperm
import Mathlib.Logic.Function.Basic

/-!
# A log behind a lock

Workers append entries to a shared log.  Each takes the lock once, appends its entry or fails, and
an appended entry is counted later.  A worker that panics with the lock poisons it, and from then on
every worker is refused.

* `LockedLog.Inv.step` : every step keeps the bookkeeping (`LockedLog.Inv`).
* `LockedLog.Inv.nodup` : a worker appends at most one entry.
* `LockedLog.Inv.counted_le`, `LockedLog.Inv.counted_eq` : no more entries are counted than were
  appended, and all of them once none is waiting to be counted.
* `LockedLog.Inv.step_poisoned` : a poisoned log stays as it is.
-/

namespace SpycatcherHarness

/-- How far a worker has got. -/
inductive WorkerStatus where
  /-- It has not asked for the lock yet. -/
  | fresh
  | locked
  | failed
  /-- Its entry is in the log, but has not been counted. -/
  | appended
  | counted
  deriving DecidableEq

/-- The log, with what has happened to it. -/
structure LockedLog (ι ε : Type*) where
  status : ι → WorkerStatus
  /-- The worker that has the lock. -/
  holder : Option ι
  poisoned : Bool
  /-- The workers that have taken the lock, in order. -/
  takers : List ι
  /-- The entries that were appended, with their workers, in order. -/
  entries : List (ι × ε)
  /-- The workers whose entries have been counted. -/
  counted : List ι

namespace LockedLog

variable {ι ε : Type*}

section
variable [DecidableEq ι]

/-- What can happen. -/
inductive Step : LockedLog ι ε → LockedLog ι ε → Prop
  | quiet (l : LockedLog ι ε) : Step l l
  | take (l : LockedLog ι ε) (id : ι) (fresh : l.status id = .fresh) (free : l.holder = none)
      (sound : l.poisoned = false) :
      Step l { l with
        status := Function.update l.status id .locked
        holder := some id
        takers := l.takers ++ [id] }
  | refuse (l : LockedLog ι ε) (id : ι) (fresh : l.status id = .fresh)
      (broken : l.poisoned = true) :
      Step l { l with status := Function.update l.status id .failed }
  | append (l : LockedLog ι ε) (id : ι) (entry : ε) (holds : l.holder = some id) :
      Step l { l with
        status := Function.update l.status id .appended
        holder := none
        entries := l.entries ++ [(id, entry)] }
  | fail (l : LockedLog ι ε) (id : ι) (holds : l.holder = some id) :
      Step l { l with status := Function.update l.status id .failed, holder := none }
  | count (l : LockedLog ι ε) (id : ι) (appended : l.status id = .appended) :
      Step l { l with
        status := Function.update l.status id .counted
        counted := l.counted ++ [id] }
  | poison (l : LockedLog ι ε) (free : l.holder = none) : Step l { l with poisoned := true }

end

/-- The workers whose entries are in the log, in order. -/
def authors (l : LockedLog ι ε) : List ι := l.entries.map Prod.fst

/-- The bookkeeping. -/
structure Inv (l : LockedLog ι ε) : Prop where
  held : ∀ id, l.holder = some id ↔ l.status id = .locked
  takers : l.takers.Nodup
  taken : ∀ id ∈ l.takers, l.status id ≠ .fresh
  /-- Entries stand in the order in which the lock was taken. -/
  order : l.authors.Sublist l.takers
  /-- The worker with the lock was the last to take it, and has no entry. -/
  last : ∀ id, l.holder = some id → ∃ before, l.takers = before ++ [id] ∧ l.authors.Sublist before
  appended : ∀ id, id ∈ l.authors ↔ l.status id = .appended ∨ l.status id = .counted
  counted : l.counted.Nodup
  counts : ∀ id, id ∈ l.counted ↔ l.status id = .counted
  safe : l.poisoned = true → l.holder = none

/-- Nobody has come yet. -/
def start : LockedLog ι ε := ⟨fun _ => .fresh, none, false, [], [], []⟩

theorem inv_start : (start : LockedLog ι ε).Inv where
  held id := by simp [start]
  takers := List.nodup_nil
  taken id h := nomatch h
  order := .slnil
  last id h := nomatch h
  appended id := by simp [start, authors]
  counted := List.nodup_nil
  counts id := by simp [start]
  safe _ := rfl

variable [DecidableEq ι]

theorem update_eq_iff {status : ι → WorkerStatus} {id other : ι} {new asked : WorkerStatus} :
    Function.update status id new other = asked ↔
      other = id ∧ new = asked ∨ other ≠ id ∧ status other = asked := by
  by_cases h : other = id
  · subst h
    simp
  · simp [h]

omit [DecidableEq ι] in
/-- Where the lock is free no worker has it. -/
theorem Inv.free {l : LockedLog ι ε} (h : l.Inv) (hfree : l.holder = none) (id : ι) :
    l.status id ≠ .locked := by
  rw [ne_eq, ← h.held, hfree]
  exact Option.some_ne_none id ∘ Eq.symm

omit [DecidableEq ι] in
/-- Only the worker with the lock has it. -/
theorem Inv.holder_eq {l : LockedLog ι ε} (h : l.Inv) {id other : ι} (hid : l.holder = some id)
    (hother : l.status other = .locked) : other = id := by
  rw [← h.held, hid] at hother
  exact (Option.some.inj hother).symm

theorem Inv.take {l : LockedLog ι ε} (h : l.Inv) {id : ι} (fresh : l.status id = .fresh)
    (free : l.holder = none) (sound : l.poisoned = false) :
    Inv { l with
      status := Function.update l.status id .locked
      holder := some id
      takers := l.takers ++ [id] } where
  held other := by
    have := h.free free other
    simp only [update_eq_iff]
    grind
  takers := by
    have hnew : id ∉ l.takers := fun hid => h.taken id hid fresh
    exact List.nodup_append.2 ⟨h.takers, List.nodup_singleton id, by grind⟩
  taken other hother := by
    have := h.taken other
    simp only [ne_eq, update_eq_iff]
    grind
  order := h.order.trans (List.sublist_append_left _ _)
  last := by
    rintro other ⟨⟩
    exact ⟨l.takers, rfl, h.order⟩
  appended other := by
    have := h.appended other
    simp only [authors, update_eq_iff] at this ⊢
    grind
  counted := h.counted
  counts other := by
    have := h.counts other
    simp only [update_eq_iff]
    grind
  safe hpoisoned := by
    rw [sound] at hpoisoned
    cases hpoisoned

/-- A worker that is refused, or fails with the lock. -/
theorem Inv.refuse {l : LockedLog ι ε} (h : l.Inv) {id : ι} {holder : Option ι}
    (status : l.status id = .fresh ∧ holder = l.holder ∨
      l.holder = some id ∧ holder = none) :
    Inv { l with status := Function.update l.status id .failed, holder } where
  held other := by
    have := h.held other
    simp only [update_eq_iff]
    grind
  takers := h.takers
  taken other hother := by
    have := h.taken other hother
    simp only [ne_eq, update_eq_iff]
    grind
  order := h.order
  last other hother := h.last other (by grind)
  appended other := by
    have happended := h.appended other
    have hheld := h.held id
    simp only [authors, update_eq_iff] at happended ⊢
    grind
  counted := h.counted
  counts other := by
    have := h.counts other
    have := h.held id
    simp only [update_eq_iff]
    grind
  safe hpoisoned := by
    have := h.safe hpoisoned
    grind

theorem Inv.append {l : LockedLog ι ε} (h : l.Inv) {id : ι} (holds : l.holder = some id)
    (entry : ε) :
    Inv { l with
      status := Function.update l.status id .appended
      holder := none
      entries := l.entries ++ [(id, entry)] } where
  held other := by
    have honly : l.status other = .locked → other = id := h.holder_eq holds
    simp only [update_eq_iff]
    grind
  takers := h.takers
  taken other hother := by
    have := h.taken other hother
    simp only [ne_eq, update_eq_iff]
    grind
  order := by
    obtain ⟨before, htakers, hbefore⟩ := h.last id holds
    simpa [authors, htakers] using hbefore
  last other hother := nomatch hother
  appended other := by
    have := h.appended other
    simp only [authors, List.map_append, List.mem_append, update_eq_iff] at this ⊢
    grind
  counted := h.counted
  counts other := by
    have := h.counts other
    have := (h.held id).1 holds
    simp only [update_eq_iff]
    grind
  safe _ := rfl

theorem Inv.count {l : LockedLog ι ε} (h : l.Inv) {id : ι} (appended : l.status id = .appended) :
    Inv { l with
      status := Function.update l.status id .counted
      counted := l.counted ++ [id] } where
  held other := by
    have := h.held other
    simp only [update_eq_iff]
    grind
  takers := h.takers
  taken other hother := by
    have := h.taken other hother
    simp only [ne_eq, update_eq_iff]
    grind
  order := h.order
  last := h.last
  appended other := by
    have := h.appended other
    simp only [authors, update_eq_iff] at this ⊢
    grind
  counted := by
    have := h.counts id
    exact List.nodup_append.2 ⟨h.counted, List.nodup_singleton id, by grind⟩
  counts other := by
    have := h.counts other
    simp only [List.mem_append, List.mem_singleton, update_eq_iff]
    grind
  safe := h.safe

/-- Every step keeps the bookkeeping. -/
theorem Inv.step {l l' : LockedLog ι ε} (h : l.Inv) (hstep : Step l l') : l'.Inv := by
  cases hstep with
  | quiet => exact h
  | take id fresh free sound => exact h.take fresh free sound
  | refuse id fresh broken => exact h.refuse (Or.inl ⟨fresh, rfl⟩)
  | append id entry holds => exact h.append holds entry
  | fail id holds => exact h.refuse (Or.inr ⟨holds, rfl⟩)
  | count id appended => exact h.count appended
  | poison free => exact { h with safe := fun _ => free }

/-! ### What the bookkeeping says -/

section
omit [DecidableEq ι]
variable {l : LockedLog ι ε} (h : l.Inv)

include h

/-- A worker appends at most one entry. -/
theorem Inv.nodup : l.authors.Nodup := h.takers.sublist h.order

theorem Inv.counted_subset : l.counted ⊆ l.authors :=
  fun id hid => (h.appended id).2 (Or.inr ((h.counts id).1 hid))

/-- No more entries are counted than were appended. -/
theorem Inv.counted_le : l.counted.length ≤ l.entries.length := by
  have hle := (h.counted.subperm h.counted_subset).length_le
  rwa [authors, List.length_map] at hle

/-- Everyone with an entry is counted if none is waiting to be. -/
theorem Inv.subset_counted (hnone : ∀ id, l.status id ≠ .appended) : l.authors ⊆ l.counted := by
  intro id hid
  rcases (h.appended id).1 hid with happended | hcounted
  · exact (hnone id happended).elim
  · exact (h.counts id).2 hcounted

/-- All entries are counted if none is waiting to be. -/
theorem Inv.counted_eq (hnone : ∀ id, l.status id ≠ .appended) :
    l.counted.length = l.entries.length := by
  have hle := (h.nodup.subperm (h.subset_counted hnone)).length_le
  rw [authors, List.length_map] at hle
  exact Nat.le_antisymm h.counted_le hle

end

/-- A poisoned log stays as it is, and nobody takes its lock. -/
theorem Inv.step_poisoned {l l' : LockedLog ι ε} (h : l.Inv) (hpoisoned : l.poisoned = true)
    (hstep : Step l l') :
    l'.poisoned = true ∧ l'.takers = l.takers ∧ l'.entries = l.entries := by
  have hfree := h.safe hpoisoned
  cases hstep with
  | quiet | refuse | count | poison => exact ⟨by simp [hpoisoned], rfl, rfl⟩
  | take id fresh free sound =>
    rw [sound] at hpoisoned
    cases hpoisoned
  | append id entry holds | fail id holds =>
    rw [hfree] at holds
    cases holds

end LockedLog

end SpycatcherHarness
