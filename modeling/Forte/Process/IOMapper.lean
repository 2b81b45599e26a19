import Forte.Lib.Links
import Forte.Lib.Runs
import Forte.Lib.SortedTable

/-!
# Handles and observers of inputs and outputs

`IOMapper` knows handles and observers by their ids and joins a handle and an observer that are
registered under the same id: each of them gets a pointer to the other. There is one pointer in an
object, and an object that is deregistered is looked for until it has been found once.

An object can nevertheless be registered under several ids. Then its pointer is overwritten by
the second partner it gets, and when it is deregistered it is still registered
(`Forte.IOMapper.not_meets_twice`); this is also what the destructors of the objects do. In all
other runs the pointers are as they should be (`Forte.IOMapper.pointers_iff`).
-/

namespace Forte

/-- The mapper with its two maps, and the pointers in the handles and in the observers. -/
structure IOMapper (κ H O : Type) where
  mHandles : List (κ × H)
  mObservers : List (κ × O)
  /-- `IOHandle::mObserver`. -/
  mObserver : H → Option O
  /-- `IOObserver::mHandle`. -/
  mHandle : O → Option H

namespace IOMapper

variable {κ H O : Type}

/-- Nothing is registered. -/
def initial : IOMapper κ H O where
  mHandles := []
  mObservers := []
  mObserver _ := none
  mHandle _ := none

section

variable [LinearOrder κ] [DecidableEq H] [DecidableEq O]

/-- `onObserver` and `onHandle`. -/
def join (s : IOMapper κ H O) (handle : H) (observer : O) : IOMapper κ H O :=
  { s with
    mObserver := Function.update s.mObserver handle (some observer)
    mHandle := Function.update s.mHandle observer (some handle) }

/-- `dropObserver` and `dropHandle`. -/
def part (s : IOMapper κ H O) (handle : H) (observer : O) : IOMapper κ H O :=
  { s with
    mObserver := Function.update s.mObserver handle none
    mHandle := Function.update s.mHandle observer none }

/-- `registerHandle`. -/
def registerHandle (s : IOMapper κ H O) (paId : κ) (paHandle : H) : IOMapper κ H O × Bool :=
  if (Table.find? Prod.fst paId s.mHandles).isSome then (s, false)
  else
    let s := { s with mHandles := Table.insertAbsent Prod.fst (paId, paHandle) s.mHandles }
    match Table.find? Prod.fst paId s.mObservers with
    | some (_, observer) => (s.join paHandle observer, true)
    | none => (s, true)

/-- The entry of a handle is erased, and its observer loses it. -/
def eraseHandle (s : IOMapper κ H O) (entry : κ × H) : IOMapper κ H O :=
  let s := match Table.find? Prod.fst entry.1 s.mObservers with
    | some (_, observer) => s.part entry.2 observer
    | none => s
  { s with mHandles := Table.erase Prod.fst entry.1 s.mHandles }

/-- `deregisterHandle` of an object. -/
def deregisterHandle (s : IOMapper κ H O) (paHandle : H) : IOMapper κ H O :=
  match s.mHandles.find? fun entry => entry.2 = paHandle with
  | some entry => s.eraseHandle entry
  | none => s

/-- `deregisterHandle` of an id. -/
def deregisterHandleId (s : IOMapper κ H O) (paId : κ) : IOMapper κ H O :=
  match Table.find? Prod.fst paId s.mHandles with
  | some entry => s.eraseHandle entry
  | none => s

/-- `registerObserver`. -/
def registerObserver (s : IOMapper κ H O) (paId : κ) (paObserver : O) : IOMapper κ H O × Bool :=
  if (Table.find? Prod.fst paId s.mObservers).isSome then (s, false)
  else
    let s := { s with mObservers := Table.insertAbsent Prod.fst (paId, paObserver) s.mObservers }
    match Table.find? Prod.fst paId s.mHandles with
    | some (_, handle) => (s.join handle paObserver, true)
    | none => (s, true)

/-- `deregisterObserver`. -/
def deregisterObserver (s : IOMapper κ H O) (paObserver : O) : IOMapper κ H O :=
  match s.mObservers.find? fun entry => entry.2 = paObserver with
  | some entry =>
    let s := match Table.find? Prod.fst entry.1 s.mHandles with
      | some (_, handle) => s.part handle paObserver
      | none => s
    { s with mObservers := Table.erase Prod.fst entry.1 s.mObservers }
  | none => s

/-- The operations of the mapper. -/
inductive Step (κ H O : Type)
  | registerHandle (paId : κ) (paHandle : H)
  | deregisterHandle (paHandle : H)
  | deregisterHandleId (paId : κ)
  | registerObserver (paId : κ) (paObserver : O)
  | deregisterObserver (paObserver : O)

/-- The state behind an operation. -/
def next (s : IOMapper κ H O) : Step κ H O → IOMapper κ H O
  | .registerHandle paId paHandle => (s.registerHandle paId paHandle).1
  | .deregisterHandle paHandle => s.deregisterHandle paHandle
  | .deregisterHandleId paId => s.deregisterHandleId paId
  | .registerObserver paId paObserver => (s.registerObserver paId paObserver).1
  | .deregisterObserver paObserver => s.deregisterObserver paObserver

end

/-! ### What the pointers stand for -/

/-- A handle and an observer are registered under a common id. -/
def Common (s : IOMapper κ H O) (handle : H) (observer : O) : Prop :=
  ∃ id, (id, handle) ∈ s.mHandles ∧ (id, observer) ∈ s.mObservers

/-- **The pointers are as the ids say.** -/
def Linked (s : IOMapper κ H O) : Prop := Links.Linked s.mObserver s.mHandle s.Common

section

variable [LinearOrder κ] [DecidableEq H] [DecidableEq O]

/-- **What is asked of an operation**: the pointers are as the ids say behind it; if it is rejected
it changes nothing; and nothing has a pointer to an object that has been deregistered, neither
the mapper nor another object. -/
def Meets (s : IOMapper κ H O) (step : Step κ H O) : Prop :=
  (s.next step).Linked ∧
    match step with
    | .registerHandle paId paHandle =>
      (s.registerHandle paId paHandle).2 = false → (s.registerHandle paId paHandle).1 = s
    | .deregisterHandle paHandle =>
      (∀ id, (id, paHandle) ∉ (s.deregisterHandle paHandle).mHandles) ∧
        ∀ observer, (s.deregisterHandle paHandle).mHandle observer ≠ some paHandle
    | .deregisterHandleId _ => True
    | .registerObserver paId paObserver =>
      (s.registerObserver paId paObserver).2 = false → (s.registerObserver paId paObserver).1 = s
    | .deregisterObserver paObserver =>
      (∀ id, (id, paObserver) ∉ (s.deregisterObserver paObserver).mObservers) ∧
        ∀ handle, (s.deregisterObserver paObserver).mObserver handle ≠ some paObserver

/-- **The condition on an operation**: no object gets a second partner, a pair that has two ids
does not lose one of them, and an object that is deregistered has one id at most. -/
def Cond (s : IOMapper κ H O) : Step κ H O → Prop
  | .registerHandle paId paHandle =>
    (∀ handle, (paId, handle) ∉ s.mHandles) → ∀ observer, (paId, observer) ∈ s.mObservers →
      (∀ observer', s.Common paHandle observer' → observer' = observer) ∧
        ∀ handle', s.Common handle' observer → handle' = paHandle
  | .deregisterHandle paHandle =>
    ∀ id id', (id, paHandle) ∈ s.mHandles → (id', paHandle) ∈ s.mHandles → id = id'
  | .deregisterHandleId paId =>
    ∀ handle observer, (paId, handle) ∈ s.mHandles → (paId, observer) ∈ s.mObservers →
      ∀ id, (id, handle) ∈ s.mHandles → (id, observer) ∈ s.mObservers → id = paId
  | .registerObserver paId paObserver =>
    (∀ observer, (paId, observer) ∉ s.mObservers) → ∀ handle, (paId, handle) ∈ s.mHandles →
      (∀ observer', s.Common handle observer' → observer' = paObserver) ∧
        ∀ handle', s.Common handle' paObserver → handle' = handle
  | .deregisterObserver paObserver =>
    ∀ id id', (id, paObserver) ∈ s.mObservers → (id', paObserver) ∈ s.mObservers → id = id'

/-! ### The invariant -/

/-- The maps are sorted, and the pointers are as the ids say and at both ends of each link. -/
structure Good (s : IOMapper κ H O) : Prop where
  handles : Table.Sorted Prod.fst s.mHandles
  observers : Table.Sorted Prod.fst s.mObservers
  paired : Links.Mutual s.mObserver s.mHandle
  linked : s.Linked

variable {s : IOMapper κ H O}

omit [DecidableEq H] [DecidableEq O] in
theorem good_initial : Good (initial : IOMapper κ H O) where
  handles := List.Pairwise.nil
  observers := List.Pairwise.nil
  paired _ _ := iff_of_false (Option.some_ne_none _).symm (Option.some_ne_none _).symm
  linked handle observer := by
    refine iff_of_false (fun hand => Option.some_ne_none _ hand.1.symm) ?_
    rintro ⟨id, hmem, -⟩
    exact List.not_mem_nil hmem

omit [DecidableEq H] [DecidableEq O] in
/-- There is one handle under an id. -/
theorem Good.handle_unique (h : Good s) {id : κ} {handle handle' : H}
    (hmem : (id, handle) ∈ s.mHandles) (hmem' : (id, handle') ∈ s.mHandles) : handle = handle' :=
  congrArg Prod.snd (h.handles.eq_of_key hmem hmem' rfl)

omit [DecidableEq H] [DecidableEq O] in
/-- There is one observer under an id. -/
theorem Good.observer_unique (h : Good s) {id : κ} {observer observer' : O}
    (hmem : (id, observer) ∈ s.mObservers) (hmem' : (id, observer') ∈ s.mObservers) :
    observer = observer' :=
  congrArg Prod.snd (h.observers.eq_of_key hmem hmem' rfl)

/-! ### Handles and observers do the same -/

/-- Handles and observers are exchanged. -/
def swap (s : IOMapper κ H O) : IOMapper κ O H :=
  ⟨s.mObservers, s.mHandles, s.mHandle, s.mObserver⟩

omit [LinearOrder κ] [DecidableEq H] [DecidableEq O] in
theorem linked_swap : s.swap.Linked ↔ s.Linked := by
  refine Links.linked_symm.trans (Links.Linked.congr fun handle observer => ?_)
  exact exists_congr fun id => and_comm

omit [DecidableEq H] [DecidableEq O] in
theorem Good.swap (h : Good s) : Good s.swap :=
  ⟨h.observers, h.handles, h.paired.symm, linked_swap.mpr h.linked⟩

theorem registerObserver_eq (s : IOMapper κ H O) (paId : κ) (paObserver : O) :
    s.registerObserver paId paObserver = ((s.swap.registerHandle paId paObserver).1.swap,
      (s.swap.registerHandle paId paObserver).2) := by
  rw [registerObserver]
  split
  · rename_i hold
    have heq : s.swap.registerHandle paId paObserver = (s.swap, false) := if_pos hold
    rw [heq]
    rfl
  · rename_i hfree
    rw [registerHandle,
      if_neg (show ¬(Table.find? Prod.fst paId s.swap.mHandles).isSome from hfree)]
    simp only [swap]
    cases hfind : Table.find? Prod.fst paId s.mHandles with
    | none => rfl
    | some entry => rfl

theorem deregisterObserver_eq (s : IOMapper κ H O) (paObserver : O) :
    s.deregisterObserver paObserver = (s.swap.deregisterHandle paObserver).swap := by
  simp only [deregisterObserver, deregisterHandle, swap]
  cases hentry : s.mObservers.find? fun entry => entry.2 = paObserver with
  | none => rfl
  | some entry =>
    have hobserver := List.find?_some (p := fun entry : κ × O => entry.2 = paObserver) hentry
    rw [decide_eq_true_eq] at hobserver
    simp only [eraseHandle, hobserver]
    cases hfind : Table.find? Prod.fst entry.1 s.mHandles with
    | none => rfl
    | some entry' => rfl

/-! ### Registering -/

/-- **A handle that is registered** leaves the pointers right if and only if it has no other
observer, and its observer no other handle. -/
theorem registerHandle_spec (h : Good s) (paId : κ) (paHandle : H) :
    ((s.registerHandle paId paHandle).2 = false → (s.registerHandle paId paHandle).1 = s) ∧
      ((s.registerHandle paId paHandle).1.Linked ↔ s.Cond (.registerHandle paId paHandle)) ∧
        ((s.registerHandle paId paHandle).1.Linked → Good (s.registerHandle paId paHandle).1) := by
  rw [registerHandle]
  cases hold : Table.find? Prod.fst paId s.mHandles with
  | some entry =>
    obtain ⟨hmem, rfl⟩ := (Table.find?_eq_some h.handles).mp hold
    refine ⟨fun _ => rfl, iff_of_true h.linked fun hfree => ?_, fun _ => h⟩
    exact absurd hmem (hfree entry.2)
  | none =>
    have hall : ∀ entry ∈ s.mHandles, entry.1 ≠ paId := (Table.find?_eq_none h.handles).mp hold
    have hfree : ∀ handle, (paId, handle) ∉ s.mHandles := fun handle hmem => hall _ hmem rfl
    have hsorted := h.handles.insertAbsent (paId, paHandle)
    have hmem (id : κ) (handle : H) :
        (id, handle) ∈ Table.insertAbsent Prod.fst (paId, paHandle) s.mHandles ↔
          (id, handle) ∈ s.mHandles ∨ id = paId ∧ handle = paHandle := by
      rw [Table.mem_insertAbsent h.handles, and_iff_left hall, Prod.mk.injEq]
    simp only [Option.isSome_none, Bool.false_eq_true, if_false]
    cases hfind : Table.find? Prod.fst paId s.mObservers with
    | none =>
      have hnone := (Table.find?_eq_none h.observers).mp hfind
      -- an identifier no observer waits for links nothing new
      have hcommon (handle : H) (observer : O) : Common { s with
          mHandles := Table.insertAbsent Prod.fst (paId, paHandle) s.mHandles } handle observer ↔
            s.Common handle observer := by
        refine exists_congr fun id => ?_
        rw [hmem]
        refine and_congr_left fun hobserver => or_iff_left ?_
        rintro ⟨rfl, -⟩
        exact hnone _ hobserver rfl
      have hlinked := (Links.Linked.congr hcommon).mpr h.linked
      refine ⟨nofun, iff_of_true hlinked fun _ observer hobserver => ?_, fun _ => ?_⟩
      · exact absurd rfl (hnone _ hobserver)
      · exact ⟨hsorted, h.observers, h.paired, hlinked⟩
    | some entry =>
      obtain ⟨id, observer⟩ := entry
      obtain ⟨hobserver, rfl⟩ := (Table.find?_eq_some h.observers).mp hfind
      -- the new entry adds exactly the pair that is joined
      have hcommon (handle : H) (observer' : O) : Common (join { s with
          mHandles := Table.insertAbsent Prod.fst (id, paHandle) s.mHandles } paHandle observer)
          handle observer' ↔
            s.Common handle observer' ∨ handle = paHandle ∧ observer' = observer := by
        constructor
        · rintro ⟨id', hhandle, hobserver'⟩
          rcases (hmem id' handle).mp hhandle with hold | ⟨rfl, rfl⟩
          · exact .inl ⟨id', hold, hobserver'⟩
          · exact .inr ⟨rfl, h.observer_unique hobserver' hobserver⟩
        · rintro (⟨id', hhandle, hobserver'⟩ | ⟨rfl, rfl⟩)
          · exact ⟨id', (hmem id' handle).mpr (.inl hhandle), hobserver'⟩
          · exact ⟨id, (hmem id handle).mpr (.inr ⟨rfl, rfl⟩), hobserver⟩
      have hiff := Links.linked_join_iff h.linked hcommon
      refine ⟨nofun, hiff.trans ⟨fun hone _ observer' hobserver' => ?_, fun hcond => ?_⟩,
        fun hlinked => ?_⟩
      · rw [h.observer_unique hobserver' hobserver]
        exact hone
      · exact hcond hfree observer hobserver
      · obtain ⟨hright, hleft⟩ := hiff.mp hlinked
        exact ⟨hsorted, h.observers, h.paired.join h.linked hright hleft, hlinked⟩

/-! ### Deregistering -/

/-- **An entry of a handle that is erased** leaves the pointers right if and only if the handle
and its observer have no other common id. -/
theorem eraseHandle_spec (h : Good s) {id : κ} {handle : H} (hmem : (id, handle) ∈ s.mHandles) :
    ((s.eraseHandle (id, handle)).Linked ↔ ∀ observer, (id, observer) ∈ s.mObservers →
      ∀ id', (id', handle) ∈ s.mHandles → (id', observer) ∈ s.mObservers → id' = id) ∧
      ((s.eraseHandle (id, handle)).Linked → Good (s.eraseHandle (id, handle))) := by
  have hsorted := h.handles.erase (k := id)
  have herase (id' : κ) (handle' : H) : (id', handle') ∈ Table.erase Prod.fst id s.mHandles ↔
      (id', handle') ∈ s.mHandles ∧ id' ≠ id := Table.mem_erase h.handles
  rw [eraseHandle]
  cases hfind : Table.find? Prod.fst id s.mObservers with
  | none =>
    have hnone := (Table.find?_eq_none h.observers).mp hfind
    -- nothing was linked through this identifier
    have hcommon (handle' : H) (observer : O) : Common { s with
        mHandles := Table.erase Prod.fst id s.mHandles } handle' observer ↔
          s.Common handle' observer := by
      refine exists_congr fun id' => ?_
      rw [herase]
      refine and_congr_left fun hobserver => and_iff_left ?_
      rintro rfl
      exact hnone _ hobserver rfl
    have hlinked := (Links.Linked.congr hcommon).mpr h.linked
    refine ⟨iff_of_true hlinked fun observer hobserver => ?_, fun _ => ?_⟩
    · exact absurd rfl (hnone _ hobserver)
    · exact ⟨hsorted, h.observers, h.paired, hlinked⟩
  | some entry =>
    obtain ⟨id', observer⟩ := entry
    obtain ⟨hobserver, rfl⟩ := (Table.find?_eq_some h.observers).mp hfind
    have hcommon (handle' : H) (observer' : O) : Common { part s handle observer with
        mHandles := Table.erase Prod.fst id' s.mHandles } handle' observer' ↔
          ∃ id, (id, handle') ∈ s.mHandles ∧ id ≠ id' ∧ (id, observer') ∈ s.mObservers := by
      refine exists_congr fun id => ?_
      rw [herase, and_assoc]
      rfl
    have hsub (handle' : H) (observer' : O)
        (hboth : ∃ id, (id, handle') ∈ s.mHandles ∧ id ≠ id' ∧ (id, observer') ∈ s.mObservers) :
        s.Common handle' observer' := by
      obtain ⟨id, hhandle, -, hobserver'⟩ := hboth
      exact ⟨id, hhandle, hobserver'⟩
    -- a pair that is linked through no other identifier is the pair taken apart
    have hrest (handle' : H) (observer' : O) (hboth : s.Common handle' observer') :
        (∃ id, (id, handle') ∈ s.mHandles ∧ id ≠ id' ∧ (id, observer') ∈ s.mObservers) ∨
          handle' = handle ∧ observer' = observer := by
      obtain ⟨id, hhandle, hobserver'⟩ := hboth
      rcases eq_or_ne id id' with rfl | hne
      · exact .inr ⟨h.handle_unique hhandle hmem, h.observer_unique hobserver' hobserver⟩
      · exact .inl ⟨id, hhandle, hne, hobserver'⟩
    have hiff := (Links.Linked.congr hcommon).trans
      (Links.linked_part_iff h.linked h.paired ⟨id', hmem, hobserver⟩ hsub hrest)
    refine ⟨hiff.trans ⟨fun hnone observer' hobserver' id hhandle hboth => ?_, fun hone => ?_⟩,
      fun hlinked => ?_⟩
    · rw [h.observer_unique hobserver' hobserver] at hboth
      by_contra hne
      exact hnone ⟨id, hhandle, hne, hboth⟩
    · rintro ⟨id, hhandle, hne, hboth⟩
      exact hne (hone observer hobserver id hhandle hboth)
    · have hpointer := (h.linked.apply_iff h.paired handle observer).mpr ⟨id', hmem, hobserver⟩
      exact ⟨hsorted, h.observers, h.paired.part hpointer, hlinked⟩

theorem deregisterHandle_spec (h : Good s) (paHandle : H) :
    ((s.deregisterHandle paHandle).Linked ∧
      (∀ id, (id, paHandle) ∉ (s.deregisterHandle paHandle).mHandles) ∧
        (∀ observer, (s.deregisterHandle paHandle).mHandle observer ≠ some paHandle) ↔
          s.Cond (.deregisterHandle paHandle)) ∧
      ((s.deregisterHandle paHandle).Linked → Good (s.deregisterHandle paHandle)) := by
  -- behind a right step, an object that is not registered is not pointed to
  have hnot {s' : IOMapper κ H O} (hgood : Good s') (hnone : ∀ id, (id, paHandle) ∉ s'.mHandles)
      (observer : O) : s'.mHandle observer ≠ some paHandle := by
    refine hgood.linked.ne_of_not hgood.paired (fun observer' => ?_) observer
    rintro ⟨id, hmem, -⟩
    exact hnone id hmem
  rw [deregisterHandle]
  split
  · rename_i entry hentry
    obtain ⟨id, handle⟩ := entry
    have hmem := List.mem_of_find?_eq_some hentry
    have hhandle := List.find?_some (p := fun entry : κ × H => entry.2 = paHandle) hentry
    obtain rfl : handle = paHandle := of_decide_eq_true hhandle
    obtain ⟨hiff, hgood⟩ := eraseHandle_spec h hmem
    have hids (id' : κ) : (id', handle) ∈ (s.eraseHandle (id, handle)).mHandles ↔
        (id', handle) ∈ s.mHandles ∧ id' ≠ id := by
      have herased : (s.eraseHandle (id, handle)).mHandles =
          Table.erase Prod.fst id s.mHandles := by
        rw [eraseHandle]
        dsimp only
        split
        · rfl
        · rfl
      rw [herased]
      exact Table.mem_erase h.handles
    refine ⟨⟨fun hmeets id₁ id₂ h₁ h₂ => ?_, fun hcond => ?_⟩, hgood⟩
    · obtain ⟨-, hnone, -⟩ := hmeets
      have hone (id' : κ) (h' : (id', handle) ∈ s.mHandles) : id' = id := by
        by_contra hne
        exact hnone id' ((hids id').mpr ⟨h', hne⟩)
      rw [hone id₁ h₁, hone id₂ h₂]
    · have hlinked := hiff.mpr fun observer _ id' h' _ => hcond id' id h' hmem
      have hnone (id' : κ) : (id', handle) ∉ (s.eraseHandle (id, handle)).mHandles := by
        rw [hids]
        rintro ⟨h', hne⟩
        exact hne (hcond id' id h' hmem)
      exact ⟨hlinked, hnone, hnot (hgood hlinked) hnone⟩
  · rename_i hentry
    have hnone (id : κ) : (id, paHandle) ∉ s.mHandles := fun hmem =>
      List.find?_eq_none.mp hentry _ hmem (decide_eq_true rfl)
    refine ⟨iff_of_true ⟨h.linked, hnone, hnot h hnone⟩ fun id _ hmem => ?_, fun _ => h⟩
    exact absurd hmem (hnone id)

theorem deregisterHandleId_spec (h : Good s) (paId : κ) :
    ((s.deregisterHandleId paId).Linked ↔ s.Cond (.deregisterHandleId paId)) ∧
      ((s.deregisterHandleId paId).Linked → Good (s.deregisterHandleId paId)) := by
  rw [deregisterHandleId]
  split
  · rename_i entry hfind
    obtain ⟨id, handle⟩ := entry
    obtain ⟨hmem, rfl⟩ := (Table.find?_eq_some h.handles).mp hfind
    obtain ⟨hiff, hgood⟩ := eraseHandle_spec h hmem
    refine ⟨hiff.trans ⟨fun hone handle' observer hhandle hobserver id' h' => ?_, fun hcond => ?_⟩,
      hgood⟩
    · rw [h.handle_unique hhandle hmem] at h'
      exact hone observer hobserver id' h'
    · exact fun observer hobserver => hcond handle observer hmem hobserver
  · rename_i hfind
    have hnone := (Table.find?_eq_none h.handles).mp hfind
    refine ⟨iff_of_true h.linked fun handle _ hmem => ?_, fun _ => h⟩
    exact absurd rfl (hnone _ hmem)

/-! ### Runs -/

omit [LinearOrder κ] [DecidableEq H] [DecidableEq O] in
/-- The condition on an operation of an observer is that on the one of a handle. -/
theorem cond_swap_register (s : IOMapper κ H O) (paId : κ) (paObserver : O) :
    s.swap.Cond (.registerHandle paId paObserver) ↔ s.Cond (.registerObserver paId paObserver) := by
  have hcommon (observer : O) (handle : H) : s.swap.Common observer handle ↔
      s.Common handle observer := exists_congr fun _ => and_comm
  refine imp_congr_right fun _ => forall₂_congr fun handle _ => ?_
  simp only [hcommon]
  exact and_comm

/-- **A good state stays good** if the operation does what is asked of it, which it does if and
only if the condition holds. -/
theorem meets_iff_cond (h : Good s) (step : Step κ H O) :
    (s.Meets step ↔ s.Cond step) ∧ (s.Meets step → Good (s.next step)) := by
  cases step with
  | registerHandle paId paHandle =>
    obtain ⟨hrejected, hiff, hgood⟩ := registerHandle_spec h paId paHandle
    exact ⟨(and_iff_left hrejected).trans hiff, fun hmeets => hgood hmeets.1⟩
  | deregisterHandle paHandle =>
    obtain ⟨hiff, hgood⟩ := deregisterHandle_spec h paHandle
    exact ⟨hiff, fun hmeets => hgood hmeets.1⟩
  | deregisterHandleId paId =>
    obtain ⟨hiff, hgood⟩ := deregisterHandleId_spec h paId
    exact ⟨(and_iff_left trivial).trans hiff, fun hmeets => hgood hmeets.1⟩
  -- the observers' side is the handles' side with the tables exchanged
  | registerObserver paId paObserver =>
    obtain ⟨hrejected, hiff, hgood⟩ := registerHandle_spec h.swap paId paObserver
    have hlinked : (s.registerObserver paId paObserver).1.Linked ↔
        (s.swap.registerHandle paId paObserver).1.Linked := by
      rw [registerObserver_eq]
      exact linked_swap
    refine ⟨(and_iff_left fun hfalse => ?_).trans
      (hlinked.trans (hiff.trans (cond_swap_register s paId paObserver))), fun hmeets => ?_⟩
    · rw [registerObserver_eq] at hfalse ⊢
      exact congrArg swap (hrejected hfalse)
    · show Good (s.registerObserver paId paObserver).1
      have hswapped := (hgood (hlinked.mp hmeets.1)).swap
      rw [registerObserver_eq]
      exact hswapped
  | deregisterObserver paObserver =>
    obtain ⟨hiff, hgood⟩ := deregisterHandle_spec h.swap paObserver
    have hlinked : (s.deregisterObserver paObserver).Linked ↔
        (s.swap.deregisterHandle paObserver).Linked := by
      rw [deregisterObserver_eq]
      exact linked_swap
    refine ⟨?_, fun hmeets => ?_⟩
    · refine Iff.trans (and_congr hlinked ?_) hiff
      dsimp only
      rw [deregisterObserver_eq]
      rfl
    · show Good (s.deregisterObserver paObserver)
      have hswapped := (hgood (hlinked.mp hmeets.1)).swap
      rw [deregisterObserver_eq]
      exact hswapped

/-- **All operations of a run do what is asked of them if and only if all of them satisfy the
condition.** -/
theorem pointers_iff (steps : List (Step κ H O)) :
    Runs.Each next Meets initial steps ↔ Runs.Each next Cond initial steps :=
  @Runs.each_congr (IOMapper κ H O) _ next Good Meets Cond
    (fun _ step h => (meets_iff_cond h step).2) (fun _ step h => (meets_iff_cond h step).1) _
    good_initial steps

/-- A handle that is registered under two ids is deregistered: its observer keeps the pointer. -/
theorem not_meets_twice : ¬Runs.Each next Meets (initial : IOMapper ℕ ℕ ℕ)
    [.registerHandle 1 7, .registerHandle 2 7, .registerObserver 2 8, .deregisterHandle 7] := by
  intro hmeets
  obtain ⟨-, -, hpointer⟩ := hmeets 3 _ rfl
  exact hpointer 8 (by decide)

end

end IOMapper

end Forte
