import Mathlib.Logic.Function.Basic
import Forte.Datatypes.BitStrings
import Forte.Lib.BitSlices
import Forte.Lib.Interleaving

/-!
# Partial access to bit strings

A `CIEC_ANY_BIT_PARTIAL` stands for a slice of a variable. It takes the bits of the slice when it is
made, is a variable of its own from then on, and puts its bits back when it is destroyed, into what
the variable holds by then.

The shifts and masks, which are done in the promoted types, come to the slices of
`Forte.Slice` (`Forte.BitPartial.partialValue_eq`, `Forte.BitPartial.destruct_eq`). So accessors of
slices that share no bit do not disturb each other, whenever they are made and destroyed
(`Forte.BitPartial.run_eq_of_eventsOf`).
-/

namespace Forte.BitPartial

open AnyBit

/-- The last index of a slice. -/
def scmMaxIndex (partialType source : AnyBit) : ℕ := source.digits / partialType.digits - 1

/-- `partialValue`. -/
def partialValue (partialType : AnyBit) {source : AnyBit} (paValue : source.Value) (paIndex : ℕ) :
    Option partialType.Value :=
  if paIndex ≤ scmMaxIndex partialType source then do
    let shiftIndex := paIndex * partialType.digits
    let shifted ← shiftRight (promote paValue) shiftIndex
    if partialType = .bool then pure (partialType.convert (shifted &&& 1))
    else pure (partialType.convert shifted)
  else pure 0

/-- What the destructor leaves in the variable. -/
def destruct {partialType source : AnyBit} (mOriginalValue : source.Value) (mIndex : ℕ)
    (value : partialType.Value) : Option source.Value :=
  if mIndex ≤ scmMaxIndex partialType source then do
    let maskTemplate := source.convert (BitVec.allOnes partialType.digits)
    let shiftIndex := mIndex * partialType.digits
    let mask ← shiftLeft (promote maskTemplate) shiftIndex
    let mask := source.convert mask
    let partialPartValue ← shiftLeft (promote (source.convert value)) shiftIndex
    let partialPartValue := source.convert partialPartValue
    pure (source.convert (promote mOriginalValue ^^^
      ((promote mOriginalValue ^^^ promote partialPartValue) &&& promote mask)))
  else pure mOriginalValue

/-! ### Slices -/

section Slices

variable {partialType source : AnyBit} {i : ℕ}

/-- The slices up to the last index are within the variable. -/
theorem le_digits (hcast : partialType.digits ≤ source.digits)
    (hi : i ≤ scmMaxIndex partialType source) :
    i * partialType.digits + partialType.digits ≤ source.digits := by
  have hpos : 0 < partialType.digits := by cases partialType <;> decide
  have hdiv : 1 ≤ source.digits / partialType.digits := (Nat.one_le_div_iff hpos).mpr hcast
  have hmul := Nat.mul_le_mul_right partialType.digits
    (by rw [scmMaxIndex] at hi; omega : i + 1 ≤ source.digits / partialType.digits)
  rw [Nat.succ_mul] at hmul
  exact hmul.trans (Nat.div_mul_le_self _ _)

/-- **What an accessor reads** is its slice. -/
theorem partialValue_eq (hcast : partialType.digits ≤ source.digits)
    (hi : i ≤ scmMaxIndex partialType source) (x : source.Value) :
    partialValue partialType x i = some (Slice.get partialType.digits x i) := by
  have hle := le_digits hcast hi
  have hpos : 0 < partialType.digits := by cases partialType <;> decide
  have hpromoted := source.digits_le_promoted
  rw [partialValue, if_pos hi]
  simp only [shiftRight_of_lt (by omega : i * partialType.digits < source.promoted),
    Option.bind_eq_bind, Option.bind_some]
  split_ifs with hbool
  · rw [convert_eq (.inr (toNat_and_one_lt _))]
    refine congrArg some (BitVec.eq_of_getLsbD_eq fun k hk => ?_)
    have hzero : k = 0 := by
      subst hbool
      exact Nat.lt_one_iff.mp hk
    have hwide : 0 < source.promoted := by omega
    rw [Slice.getLsbD_get x hk, BitVec.getLsbD_setWidth, decide_eq_true hk, Bool.true_and,
      BitVec.getLsbD_and, getLsbD_promote_shiftRight, hzero]
    simp [hwide]
  · rw [convert_eq (.inl hbool)]
    refine congrArg some (BitVec.eq_of_getLsbD_eq fun k hk => ?_)
    rw [Slice.getLsbD_get x hk, BitVec.getLsbD_setWidth, decide_eq_true hk, Bool.true_and,
      getLsbD_promote_shiftRight]

/-- **What an accessor leaves** is the variable with its value in the slice. -/
theorem destruct_eq (hcast : partialType.digits ≤ source.digits)
    (hi : i ≤ scmMaxIndex partialType source) (x : source.Value) (v : partialType.Value) :
    destruct x i v = some (Slice.put x i v) := by
  by_cases hbool : source = .bool
  · -- the only slice of a single bit is the bit
    subst hbool
    obtain rfl : partialType = .bool := by
      cases partialType
      · rfl
      all_goals exact absurd hcast (by decide)
    obtain rfl : i = 0 := Nat.le_zero.mp hi
    revert x v
    decide
  · have hle := le_digits hcast hi
    have hpos : 0 < partialType.digits := by cases partialType <;> decide
    have hpromoted := source.digits_le_promoted
    have hshift : i * partialType.digits < source.promoted := by omega
    rw [destruct, if_pos hi]
    simp only [shiftLeft_of_lt hshift, Option.bind_eq_bind, Option.bind_some,
      convert_eq (.inl hbool), setWidth_promote_shiftLeft]
    refine congrArg some (BitVec.eq_of_getLsbD_eq fun k hk => ?_)
    have hwide : k < source.promoted := by omega
    rw [Slice.getLsbD_put x v hk]
    have hmask := Slice.getLsbD_mask (p := partialType.digits) (i := i) hk
    rw [Slice.mask] at hmask
    simp only [promote, BitVec.getLsbD_setWidth, BitVec.getLsbD_xor, BitVec.getLsbD_and, hk, hwide,
      hmask, decide_true, Bool.true_and]
    by_cases h : Slice.Has partialType.digits i k
    · have hfirst := h.1
      simp [h, hk, Nat.not_lt.mpr hfirst]
    · simp [h]

end Slices

/-! ### Accessors -/

/-- The type of an accessor of a variable, which `is_implicitly_castable_v` has to hold of, and its
index. -/
structure Accessor (source : AnyBit) where
  partialType : AnyBit
  castable : partialType.digits ≤ source.digits
  mIndex : ℕ

namespace Accessor

variable {source : AnyBit} (a : Accessor source)

/-- There is a slice at the index. -/
def InRange : Prop := a.mIndex * a.partialType.digits + a.partialType.digits ≤ source.digits

instance : Decidable a.InRange :=
  inferInstanceAs (Decidable (_ ≤ source.digits))

/-- A bit belongs to the slice. -/
def Has (k : ℕ) : Prop := a.InRange ∧ Slice.Has a.partialType.digits a.mIndex k

/-- Two accessors have no bit in common. -/
def Disjoint (b : Accessor source) : Prop := ∀ k, ¬(a.Has k ∧ b.Has k)

/-- The bits of the slice, and 0 if there is none. -/
def get (x : source.Value) : a.partialType.Value :=
  if a.InRange then Slice.get a.partialType.digits x a.mIndex else 0

/-- The variable with other bits in the slice. -/
def put (x : source.Value) (v : a.partialType.Value) : source.Value :=
  if a.InRange then Slice.put x a.mIndex v else x

/-- The last index is that of the last slice. -/
theorem le_scmMaxIndex_iff : a.mIndex ≤ scmMaxIndex a.partialType source ↔ a.InRange := by
  refine ⟨le_digits a.castable, fun h => ?_⟩
  have hpos : 0 < a.partialType.digits := by cases a.partialType <;> decide
  have hdiv : a.mIndex + 1 ≤ source.digits / a.partialType.digits :=
    (Nat.le_div_iff_mul_le hpos).mpr (by rwa [Nat.succ_mul])
  rw [scmMaxIndex]
  omega

theorem partialValue_eq (x : source.Value) :
    partialValue a.partialType x a.mIndex = some (a.get x) := by
  by_cases h : a.InRange
  · rw [BitPartial.partialValue_eq a.castable (a.le_scmMaxIndex_iff.mpr h), get, if_pos h]
  · rw [partialValue, if_neg (mt a.le_scmMaxIndex_iff.mp h), get, if_neg h]
    rfl

theorem destruct_eq (x : source.Value) (v : a.partialType.Value) :
    destruct x a.mIndex v = some (a.put x v) := by
  by_cases h : a.InRange
  · rw [BitPartial.destruct_eq a.castable (a.le_scmMaxIndex_iff.mpr h), put, if_pos h]
  · rw [destruct, if_neg (mt a.le_scmMaxIndex_iff.mp h), put, if_neg h]
    rfl

theorem get_put (h : a.InRange) (x : source.Value) (v : a.partialType.Value) :
    a.get (a.put x v) = v := by
  rw [get, put, if_pos h, if_pos h, Slice.get_put h]

theorem put_get (x : source.Value) : a.put x (a.get x) = x := by
  rw [put, get]
  split_ifs
  · exact Slice.put_get x
  · rfl

/-- The bits outside of the slice stay. -/
theorem getLsbD_put {k : ℕ} (h : ¬a.Has k) (x : source.Value) (v : a.partialType.Value) :
    (a.put x v).getLsbD k = x.getLsbD k := by
  rw [put]
  split_ifs with hin
  · by_cases hk : k < source.digits
    · rw [Slice.getLsbD_put x v hk, if_neg fun hhas => h ⟨hin, hhas⟩]
    · rw [BitVec.getLsbD_of_ge _ _ (Nat.not_lt.mp hk), BitVec.getLsbD_of_ge _ _ (Nat.not_lt.mp hk)]
  · rfl

variable {a} {b : Accessor source}

theorem get_put_of_disjoint (h : a.Disjoint b) (x : source.Value) (v : b.partialType.Value) :
    a.get (b.put x v) = a.get x := by
  rw [get, get, put]
  split_ifs with ha hb
  · exact Slice.get_put_of_disjoint ha (fun k hk => h k ⟨⟨ha, hk.1⟩, ⟨hb, hk.2⟩⟩) x v
  · rfl
  · rfl

theorem put_comm (h : a.Disjoint b) (x : source.Value) (v : a.partialType.Value)
    (u : b.partialType.Value) : b.put (a.put x v) u = a.put (b.put x u) v := by
  rw [put, put, put, put]
  split_ifs with hb ha
  · exact Slice.put_comm (fun k hk => h k ⟨⟨ha, hk.1⟩, ⟨hb, hk.2⟩⟩) x v u
  all_goals rfl

end Accessor

/-! ### Runs -/

section Runs

variable {ι : Type} [DecidableEq ι] {source : AnyBit} (acc : ι → Accessor source)

/-- The variable and what the accessors that are there hold. -/
structure State where
  mOriginalValue : source.Value
  value : (i : ι) → Option (acc i).partialType.Value

/-- What happens to an accessor. -/
inductive Event
  | construct (i : ι)
  | assign (i : ι) (v : (acc i).partialType.Value)
  | destruct (i : ι)

variable {acc}

/-- The accessor that an event happens to. -/
def Event.owner : Event acc → ι
  | construct i => i
  | assign i _ => i
  | destruct i => i

/-- An event. What is not there is neither assigned to nor destroyed. -/
def step (s : State acc) : Event acc → Option (State acc)
  | .construct i => do
    let v ← partialValue (acc i).partialType s.mOriginalValue (acc i).mIndex
    pure { s with value := Function.update s.value i (some v) }
  | .assign i v =>
    pure { s with value := Function.update s.value i ((s.value i).map fun _ => v) }
  | .destruct i =>
    match s.value i with
    | some v => do
      let x ← destruct s.mOriginalValue (acc i).mIndex v
      pure { mOriginalValue := x, value := Function.update s.value i none }
    | none => pure s

/-- A run of events. -/
def run (es : List (Event acc)) (s : State acc) : Option (State acc) := es.foldlM step s

/-- What an event puts into the slice of its accessor. -/
def merged (s : State acc) : (e : Event acc) → Option (acc e.owner).partialType.Value
  | .destruct i => s.value i
  | _ => none

/-- What an event leaves in the variable. -/
def written (s : State acc) (e : Event acc) : source.Value :=
  (merged s e).elim s.mOriginalValue ((acc e.owner).put s.mOriginalValue)

/-- What an event leaves in its accessor. -/
def held (s : State acc) : (e : Event acc) → Option (acc e.owner).partialType.Value
  | .construct i => some ((acc i).get s.mOriginalValue)
  | .assign i v => (s.value i).map fun _ => v
  | .destruct _ => none

/-- The state behind an event. -/
def next (s : State acc) (e : Event acc) : State acc :=
  { mOriginalValue := written s e, value := Function.update s.value e.owner (held s e) }

/-- An event does nothing undefined. -/
theorem step_eq (s : State acc) (e : Event acc) : step s e = some (next s e) := by
  cases e with
  | construct i =>
    rw [step, Accessor.partialValue_eq]
    rfl
  | assign i v => rfl
  | destruct i =>
    cases h : s.value i with
    | none =>
      -- what is not there is left as it is
      have hnext : next s (.destruct i) = s := by
        have hvalue : Function.update s.value i none = s.value :=
          Function.update_eq_self_iff.mpr h.symm
        have hwritten : written s (.destruct i) = s.mOriginalValue :=
          congrArg (Option.elim · s.mOriginalValue ((acc i).put s.mOriginalValue)) h
        exact congrArg₂ State.mk hwritten hvalue
      rw [hnext, step]
      simp only [h]
      rfl
    | some v =>
      have hwritten : written s (.destruct i) = (acc i).put s.mOriginalValue v :=
        congrArg (Option.elim · s.mOriginalValue ((acc i).put s.mOriginalValue)) h
      rw [step, next, hwritten]
      simp only [h, Accessor.destruct_eq]
      rfl

theorem run_eq (es : List (Event acc)) (s : State acc) : run es s = some (es.foldl next s) := by
  induction es generalizing s with
  | nil => rfl
  | cons e es ih =>
    rw [run, List.foldlM_cons, step_eq]
    exact ih (next s e)

section Disjoint

variable {s : State acc} {e e' : Event acc}

theorem value_next (h : e.owner ≠ e'.owner) : (next s e).value e'.owner = s.value e'.owner :=
  Function.update_of_ne h.symm _ _

omit [DecidableEq ι] in
/-- An event leaves the slices of other accessors as they are. -/
theorem get_written (hdisjoint : ∀ i j, i ≠ j → (acc i).Disjoint (acc j)) {i : ι}
    (h : e.owner ≠ i) : (acc i).get (written s e) = (acc i).get s.mOriginalValue := by
  rw [written]
  cases merged s e with
  | none => rfl
  | some v => exact Accessor.get_put_of_disjoint (hdisjoint i e.owner h.symm) _ v

theorem held_next (hdisjoint : ∀ i j, i ≠ j → (acc i).Disjoint (acc j))
    (h : e.owner ≠ e'.owner) : held (next s e) e' = held s e' := by
  cases e' with
  | construct i => exact congrArg some (get_written hdisjoint h)
  | assign i v => exact congrArg (Option.map fun _ => v) (value_next h)
  | destruct i => rfl

theorem merged_next (h : e.owner ≠ e'.owner) : merged (next s e) e' = merged s e' := by
  cases e' with
  | construct i => rfl
  | assign i v => rfl
  | destruct i => exact value_next h

theorem written_next (h : e.owner ≠ e'.owner) :
    written (next s e) e' = (merged s e').elim (written s e) ((acc e'.owner).put (written s e)) := by
  rw [written, merged_next h]
  rfl

/-- Events of accessors that have no bit in common can be done in either order. -/
theorem independent (hdisjoint : ∀ i j, i ≠ j → (acc i).Disjoint (acc j)) :
    Independent (next : State acc → Event acc → State acc) Event.owner := by
  intro s e e' h
  have hvalue : written (next s e) e' = written (next s e') e := by
    rw [written_next h, written_next h.symm, written, written]
    cases merged s e with
    | none => rfl
    | some v =>
      cases merged s e' with
      | none => rfl
      | some u => exact Accessor.put_comm (hdisjoint _ _ h) _ v u
  have hheld : (next (next s e) e').value = (next (next s e') e).value := by
    change Function.update (Function.update s.value _ (held s e)) _ (held (next s e) e')
      = Function.update (Function.update s.value _ (held s e')) _ (held (next s e') e)
    rw [held_next hdisjoint h, held_next hdisjoint h.symm, Function.update_comm h]
  exact congrArg₂ State.mk hvalue hheld

end Disjoint

/-- **Accessors of slices that share no bit** do not disturb each other: of runs with the same
events for each of them, the outcome is the same. -/
theorem run_eq_of_eventsOf (hdisjoint : ∀ i j, i ≠ j → (acc i).Disjoint (acc j))
    {es es' : List (Event acc)}
    (h : ∀ i, eventsOf Event.owner i es = eventsOf Event.owner i es') (s : State acc) :
    run es s = run es' s := by
  rw [run_eq, run_eq, foldl_eq_of_filter (independent hdisjoint) h]

/-- What a value written through an accessor leaves in the variable. -/
theorem mOriginalValue_write (s : State acc) (i : ι) (v : (acc i).partialType.Value) :
    ∃ t, run [.construct i, .assign i v, .destruct i] s = some t ∧
      t.mOriginalValue = (acc i).put s.mOriginalValue v := by
  refine ⟨_, run_eq _ s, ?_⟩
  have hconstruct : (next s (.construct i)).value i = some ((acc i).get s.mOriginalValue) :=
    Function.update_self _ _ _
  have hassign : (next (next s (.construct i)) (.assign i v)).value i = some v := by
    refine (Function.update_self _ _ _).trans ?_
    rw [held, hconstruct]
    rfl
  exact congrArg (Option.elim · s.mOriginalValue ((acc i).put s.mOriginalValue)) hassign

/-- **The laws of partial access.** An accessor reads the bits of its slice, or zeros if there is
no slice at its index. What is written through it is what is read from then on; the other bits of
the variable stay, and so do all bits if there is no slice or if what was read is written. If no two
accessors have a bit in common, it does not matter which of them does what first. -/
theorem laws (acc : ι → Accessor source) (s : State acc) :
    (∀ i, ∃ v, partialValue (acc i).partialType s.mOriginalValue (acc i).mIndex = some v ∧
      ∀ k < (acc i).partialType.digits, v.getLsbD k = (decide (acc i).InRange &&
        s.mOriginalValue.getLsbD ((acc i).mIndex * (acc i).partialType.digits + k))) ∧
    (∀ i v, ∃ t, run [.construct i, .assign i v, .destruct i] s = some t ∧
      ((acc i).InRange →
        partialValue (acc i).partialType t.mOriginalValue (acc i).mIndex = some v) ∧
      (∀ k, ¬(acc i).Has k → t.mOriginalValue.getLsbD k = s.mOriginalValue.getLsbD k) ∧
      (¬(acc i).InRange ∨
          partialValue (acc i).partialType s.mOriginalValue (acc i).mIndex = some v →
        t.mOriginalValue = s.mOriginalValue)) ∧
    ((∀ i j, i ≠ j → (acc i).Disjoint (acc j)) → ∀ es es' : List (Event acc),
      (∀ i, eventsOf Event.owner i es = eventsOf Event.owner i es') →
        ∃ t, run es s = some t ∧ run es' s = some t) := by
  refine ⟨fun i => ⟨_, (acc i).partialValue_eq _, fun k hk => ?_⟩, fun i v => ?_,
    fun hdisjoint es es' h => ⟨_, run_eq es s, ?_⟩⟩
  · rw [Accessor.get]
    split_ifs with h
    · rw [Slice.getLsbD_get _ hk, decide_eq_true h, Bool.true_and]
    · rw [decide_eq_false h, Bool.false_and]
      exact BitVec.getLsbD_zero
  · obtain ⟨t, hrun, ht⟩ := mOriginalValue_write s i v
    refine ⟨t, hrun, fun h => ?_, fun k hk => ?_, fun h => ?_⟩
    · rw [(acc i).partialValue_eq, ht, (acc i).get_put h]
    · rw [ht, (acc i).getLsbD_put hk]
    · rw [ht]
      rcases h with h | h
      · rw [Accessor.put, if_neg h]
      · obtain rfl := Option.some.inj (((acc i).partialValue_eq _).symm.trans h)
        exact (acc i).put_get _
  · rw [← run_eq_of_eventsOf hdisjoint h, run_eq]

/-- The first byte and the second word of a `CIEC_DWORD`, written with both accessors there. -/
theorem laws_dword :
    let acc : Bool → Accessor .dword := fun i =>
      if i then ⟨.word, by decide, 1⟩ else ⟨.byte, by decide, 0⟩
    let s : State acc := ⟨0x12345678#32, fun _ => none⟩
    let toByte : Event acc := .assign false 0xff#8
    let toWord : Event acc := .assign true 0xabcd#16
    ∃ t, run [.construct true, .construct false, toByte, toWord, .destruct true,
        .destruct false] s = some t ∧
      run [.construct false, toByte, .destruct false, .construct true, toWord,
        .destruct true] s = some t := by
  intro acc s toByte toWord
  refine (laws acc s).2.2 (fun i j hne k hk => ?_) _ _ (fun i => ?_)
  · obtain ⟨⟨-, hi⟩, -, hj⟩ := hk
    revert hi hj
    cases i <;> cases j
    case false.true =>
      rintro ⟨-, hi⟩ ⟨hj, -⟩
      exact absurd (hj.trans_lt hi) (by decide)
    case true.false =>
      rintro ⟨hi, -⟩ ⟨-, hj⟩
      exact absurd (hi.trans_lt hj) (by decide)
    all_goals exact absurd rfl hne
  · cases i <;> rfl

end Runs

end Forte.BitPartial
