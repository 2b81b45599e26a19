import Forte.Datatypes.Numbers

/-!
# Trace events

`EventMessage`, what a tracer writes for each event and what a replay is compared with: a type,
a payload that may be missing, and a time. The payload is one of four kinds, each with the names
of the type and of the instance.

`EventMessage::operator==` is one conditional expression. Its condition joins the comparison of
the types with the test for a missing payload, so that the types are only compared where the left
message has no payload, and where they differ there the payload is read. A copy is made of the
payload without looking whether there is one. `Forte.EventMessage.compares_iff` says which messages
are compared and copied as they should be; of what two messages are equal the relation is
symmetric and transitive all the same.
-/

namespace Forte

/-- The part of a payload that a subclass of `AbstractPayload` has. What an output event has only
in a build for replay debugging is of the type `R`. -/
inductive SpecificPayload (R : Type)
  /-- `FBInputEventPayload`. -/
  | fbInputEvent (mEventId : UInt64)
  /-- `FBOutputEventPayload`. -/
  | fbOutputEvent (mEventId : UInt64) (replayDebugging : R)
  /-- `FBDataPayload`. -/
  | fbData (mDataId : UInt64) (mValue : Text)
  /-- `FBInstanceDataPayload`. -/
  | fbInstanceData (mInputs mOutputs mInternal mInternalFB : List Text)
  deriving DecidableEq

/-- `mEventCounter` and `mOutputs` of an `FBOutputEventPayload`. -/
structure ReplayDebugging where
  mEventCounter : UInt64
  mOutputs : List Text
  deriving DecidableEq

/-- `AbstractPayload`. -/
structure AbstractPayload (R : Type) where
  mTypeName : Text
  mInstanceName : Text
  specific : SpecificPayload R
  deriving DecidableEq

/-- `EventMessage`. -/
structure EventMessage (R : Type) where
  mEventType : Text
  mPayload : Option (AbstractPayload R)
  mTimestamp : Int64

variable {R : Type} [DecidableEq R]

/-- `specificPayloadEqual` of the four subclasses: the other payload is of the same one, and all
members are equal. -/
def SpecificPayload.specificPayloadEqual : SpecificPayload R → SpecificPayload R → Bool
  | fbInputEvent mEventId, fbInputEvent mEventId' => mEventId = mEventId'
  | fbOutputEvent mEventId replayDebugging, fbOutputEvent mEventId' replayDebugging' =>
    mEventId = mEventId' && replayDebugging = replayDebugging'
  | fbData mDataId mValue, fbData mDataId' mValue' => mDataId = mDataId' && mValue = mValue'
  | fbInstanceData mInputs mOutputs mInternal mInternalFB,
      fbInstanceData mInputs' mOutputs' mInternal' mInternalFB' =>
    mInputs = mInputs' && mOutputs = mOutputs' && mInternal = mInternal' &&
      mInternalFB = mInternalFB'
  | _, _ => false

namespace AbstractPayload

omit [DecidableEq R] in
/-- `clone`, the copy constructor of the subclass. -/
def clone (p : AbstractPayload R) : AbstractPayload R :=
  ⟨p.mTypeName, p.mInstanceName, p.specific⟩

/-- `AbstractPayload::operator==`. -/
def equal (p paOther : AbstractPayload R) : Bool :=
  p.mTypeName = paOther.mTypeName && p.mInstanceName = paOther.mInstanceName &&
    p.specific.specificPayloadEqual paOther.specific

end AbstractPayload

namespace EventMessage

/-- `EventMessage::operator==`; no result if a missing payload is read. -/
def equal (a paOther : EventMessage R) : Option Bool :=
  if a.mEventType = paOther.mEventType ∧ a.mPayload = none then some paOther.mPayload.isNone
  else
    match paOther.mPayload with
    | none => some false
    | some otherPayload => a.mPayload.map fun mPayload => mPayload.equal otherPayload

omit [DecidableEq R] in
/-- `EventMessage::operator=`, which also the copy constructor is; no result if a missing payload
is read. -/
def copy (paOther : EventMessage R) : Option (EventMessage R) :=
  paOther.mPayload.map fun mPayload =>
    { mEventType := paOther.mEventType
      mTimestamp := paOther.mTimestamp
      mPayload := some mPayload.clone }

/-! ### What is asked of them -/

/-- **Equal messages** have the same type, and no payload or equal ones. -/
def Same (a b : EventMessage R) : Prop := a.mEventType = b.mEventType ∧ a.mPayload = b.mPayload

instance (a b : EventMessage R) : Decidable (a.Same b) :=
  inferInstanceAs (Decidable (a.mEventType = b.mEventType ∧ a.mPayload = b.mPayload))

/-- What messages are used for. -/
inductive Use (R : Type)
  /-- Two messages are compared. -/
  | compare (a b : EventMessage R)
  /-- They are compared both ways round. -/
  | compareBoth (a b : EventMessage R)
  /-- Two messages are equal to the same one. -/
  | compareAll (a b c : EventMessage R)
  | copy (a : EventMessage R)

/-- **What is asked of a use**: the comparison says whether the messages are equal; it says the
same both ways round; it is transitive; a copy exists and is equal. -/
def Meets : Use R → Prop
  | .compare a b => a.equal b = some (decide (a.Same b))
  | .compareBoth a b => a.equal b = b.equal a
  | .compareAll a b c => a.equal b = some true → b.equal c = some true → a.equal c = some true
  | .copy a => ∃ b, a.copy = some b ∧ b.equal a = some true ∧ a.equal b = some true

/-- Messages of which the comparison is right. -/
def Comparable (a b : EventMessage R) : Prop :=
  a.mEventType = b.mEventType ∨ b.mPayload = none ∨ a.mPayload ≠ none ∧ a.mPayload ≠ b.mPayload

/-- The uses that are right. -/
def Cond : Use R → Prop
  | .compare a b => a.Comparable b
  | .compareBoth a b => a.mEventType = b.mEventType ∨ (a.mPayload = none ↔ b.mPayload = none)
  | .compareAll _ _ _ => True
  | .copy a => a.mPayload ≠ none

/-! ### Comparing payloads -/

theorem specificPayloadEqual_eq (p q : SpecificPayload R) :
    p.specificPayloadEqual q = decide (p = q) := by
  rcases p with _ | _ | _ | _ <;> rcases q with _ | _ | _ | _ <;>
    simp [SpecificPayload.specificPayloadEqual, Bool.and_assoc, Bool.decide_and]

/-- The comparison of payloads compares all of their members. -/
theorem payloadEqual_eq (p q : AbstractPayload R) : p.equal q = decide (p = q) := by
  obtain ⟨typeName, instanceName, specific⟩ := p
  obtain ⟨typeName', instanceName', specific'⟩ := q
  rw [AbstractPayload.equal, specificPayloadEqual_eq]
  simp [Bool.decide_and, Bool.and_assoc]

/-! ### Comparing messages -/

section

variable {a b c : EventMessage R}

/-- **A message with a payload** is equal to those with the same payload, of whatever type. -/
theorem equal_of_some {p : AbstractPayload R} (h : a.mPayload = some p) (b : EventMessage R) :
    a.equal b = some (decide (a.mPayload = b.mPayload)) := by
  rw [equal, if_neg (by simp [h]), h]
  rcases b.mPayload with - | q
  · rfl
  · simp [payloadEqual_eq]

/-- **A message without one** is equal to the others of its type without one. One of another type
must have none. -/
theorem equal_of_none (h : a.mPayload = none) (b : EventMessage R) :
    a.equal b =
      if a.mEventType = b.mEventType ∨ b.mPayload = none then some (decide (a.Same b))
      else none := by
  rw [equal, h]
  by_cases htype : a.mEventType = b.mEventType
  · rw [if_pos ⟨htype, rfl⟩, if_pos (.inl htype)]
    refine congrArg some (Bool.eq_iff_iff.mpr ?_)
    rw [Option.isNone_iff_eq_none, decide_eq_true_iff]
    exact ⟨fun hb => ⟨htype, h.trans hb.symm⟩, fun hsame => hsame.2.symm.trans h⟩
  · rw [if_neg fun hnot => htype hnot.1]
    rcases hb : b.mPayload with - | q
    · rw [if_pos (.inr rfl)]
      exact congrArg some (decide_eq_false fun hsame => htype hsame.1).symm
    · exact (if_neg (by simp [htype])).symm

/-- Messages that are found equal have the same payload, or none. -/
theorem eq_of_equal (h : a.equal b = some true) : a.mPayload = b.mPayload := by
  rcases ha : a.mPayload with - | p
  · rw [equal_of_none ha] at h
    split_ifs at h
    have hsame : a.Same b := by simpa using h
    exact ha ▸ hsame.2
  · rw [equal_of_some ha] at h
    exact ha ▸ (by simpa using h)

theorem compare_iff (a b : EventMessage R) :
    a.equal b = some (decide (a.Same b)) ↔ a.Comparable b := by
  rcases ha : a.mPayload with - | p
  · rw [equal_of_none ha, Comparable, ha]
    -- without a payload on the left the comparison reads the type and the other payload
    split_ifs with h
    · exact iff_of_true rfl (or_assoc.mp (.inl h))
    · refine iff_of_false (by rintro ⟨⟩) ?_
      rintro (htype | hnone | ⟨hsome, -⟩)
      · exact h (.inl htype)
      · exact h (.inr hnone)
      · exact hsome rfl
  · rw [equal_of_some ha, Comparable, Option.some_inj, decide_eq_decide]
    constructor
    · intro h
      -- the payloads alone decide, so equal payloads need the same type
      by_cases hsame : a.mPayload = b.mPayload
      · exact .inl (h.mp hsame).1
      · exact .inr (.inr ⟨by simp [ha], hsame⟩)
    · intro h
      refine ⟨fun hsame => ⟨?_, hsame⟩, fun hsame => hsame.2⟩
      rcases h with htype | hnone | ⟨-, hne⟩
      · exact htype
      · rw [hnone, ha] at hsame
        exact absurd hsame (Option.some_ne_none _)
      · exact absurd hsame hne

theorem compareBoth_iff (a b : EventMessage R) :
    a.equal b = b.equal a ↔
      a.mEventType = b.mEventType ∨ (a.mPayload = none ↔ b.mPayload = none) := by
  rcases ha : a.mPayload with - | p <;> rcases hb : b.mPayload with - | q
  · rw [equal_of_none ha, equal_of_none hb, if_pos (.inr hb), if_pos (.inr ha)]
    refine iff_of_true (congrArg some (decide_eq_decide.mpr ?_)) (.inr (iff_of_true rfl rfl))
    exact ⟨fun h => ⟨h.1.symm, h.2.symm⟩, fun h => ⟨h.1.symm, h.2.symm⟩⟩
  · rw [equal_of_none ha, equal_of_some hb, ha, hb]
    by_cases htype : a.mEventType = b.mEventType <;> simp [htype, Same, ha, hb]
  · rw [equal_of_some ha, equal_of_none hb, ha, hb]
    by_cases htype : a.mEventType = b.mEventType
    · simp [htype, Same, ha, hb]
    · simp [htype, Ne.symm htype]
  · rw [equal_of_some ha, equal_of_some hb, ha, hb]
    simp [eq_comm]

theorem compareAll (hab : a.equal b = some true) (hbc : b.equal c = some true) :
    a.equal c = some true := by
  have hac := (eq_of_equal hab).trans (eq_of_equal hbc)
  rcases ha : a.mPayload with - | p
  · have hb : b.mPayload = none := (eq_of_equal hab).symm.trans ha
    have hc : c.mPayload = none := hac.symm.trans ha
    rw [equal_of_none ha, if_pos (.inr hb)] at hab
    rw [equal_of_none hb, if_pos (.inr hc)] at hbc
    rw [equal_of_none ha, if_pos (.inr hc)]
    have hsame : a.Same b := by simpa using hab
    have hsame' : b.Same c := by simpa using hbc
    exact congrArg some (decide_eq_true ⟨hsame.1.trans hsame'.1, hac⟩)
  · rw [equal_of_some ha]
    exact congrArg some (decide_eq_true hac)

theorem copy_iff (a : EventMessage R) :
    (∃ b, a.copy = some b ∧ b.equal a = some true ∧ a.equal b = some true) ↔
      a.mPayload ≠ none := by
  rcases ha : a.mPayload with - | p
  · refine iff_of_false ?_ (not_not.mpr rfl)
    rintro ⟨b, hcopy, -⟩
    rw [copy, ha] at hcopy
    exact Option.some_ne_none _ hcopy.symm
  · refine iff_of_true ⟨⟨a.mEventType, some p, a.mTimestamp⟩, ?_, ?_, ?_⟩ (Option.some_ne_none p)
    · rw [copy, ha]
      rfl
    · rw [equal_of_some rfl, ha]
      exact congrArg some (decide_eq_true rfl)
    · rw [equal_of_some ha, ha]
      exact congrArg some (decide_eq_true rfl)

end

/-- **Messages are compared and copied as they should be** exactly in these uses. -/
theorem compares_iff (u : Use R) : Meets u ↔ Cond u := by
  cases u with
  | compare a b => exact compare_iff a b
  | compareBoth a b => exact compareBoth_iff a b
  | compareAll a b c => exact iff_of_true compareAll trivial
  | copy a => exact copy_iff a

/-- An event of another type with the same payload is found equal, one of another type with a
payload cannot be compared with one that has none, and that one cannot be copied. -/
theorem not_compares_sample : ∃ (a b c : EventMessage ReplayDebugging),
    a.equal b = some true ∧ a.mEventType ≠ b.mEventType ∧ ¬Meets (.compare a b) ∧
      c.equal a = none ∧ ¬Meets (.compare c a) ∧ c.copy = none ∧ ¬Meets (.copy c) := by
  refine ⟨⟨text "sendOutputEvent", some ⟨text "E_CTU", text "counter", .fbInputEvent 0⟩, 0⟩,
    ⟨text "receiveInputEvent", some ⟨text "E_CTU", text "counter", .fbInputEvent 0⟩, 0⟩,
    ⟨text "traceStarted", none, 0⟩, by decide, by decide, ?_, by decide, ?_, by decide, ?_⟩
  · change ¬(_ = _)
    decide
  · change ¬(_ = _)
    decide
  · rintro ⟨b, ⟨⟩, -⟩

end EventMessage

end Forte
