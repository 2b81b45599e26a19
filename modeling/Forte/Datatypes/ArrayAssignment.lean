import Forte.Datatypes.Arrays
import Forte.Lib.Runs

/-!
# Assignment of arrays

An array is sound if it stores an element for each index between its bounds as soon as it has a
size at all (`Forte.IecArray.Sound`). Between sound arrays every assignment comes to its end and
sets the elements at the indices both have, and nothing else
(`Forte.IecArray.exists_assignBy`). So what is to be shown of a run is that its arrays are sound,
and there are a few steps that make others (`Forte.IecArray.assigns_iff`): the move constructors
leave the bounds or the size of elements that are gone, and a `CIEC_ARRAY_VARIABLE` takes over
the bounds of an array that is not initialized, from which it has a size.
-/

namespace Forte

namespace IecArray

variable {Ty E : Type} (el : ElementClass Ty E)

/-- The size of an array that has one is that of its bounds and of what it stores, and its
elements have what they need. -/
structure Sound (x : IecArray Ty E) : Prop where
  size_eq : x.size ≠ 0 → (x.size : ℤ) = x.getUpperBound - x.getLowerBound + 1
  length_stored : x.size ≠ 0 → x.stored.length = x.size
  whole : ∀ e ∈ x.stored, el.Whole e

/-- An index that an initialized array has. -/
def InRange (x : IecArray Ty E) (i : ℤ) : Prop :=
  x.size ≠ 0 ∧ x.getLowerBound ≤ i ∧ i ≤ x.getUpperBound

/-- **An assignment** sets the element at each index that both arrays have from the element of
the source there; bounds, other elements and the source stay as they are, but for a source that
is moved. -/
structure Assigned (k : Overload) (x y : IecArray Ty E) (r : IecArray Ty E × IecArray Ty E) :
    Prop where
  lower : r.1.getLowerBound = x.getLowerBound
  upper : r.1.getUpperBound = x.getUpperBound
  element : ∀ i, InRange x i → InRange y i → ∃ e s p, x.cell i = some e ∧ y.cell i = some s ∧
    operation el k e s = some p ∧ r.1.cell i = some p.1
  other : ∀ i, ¬(InRange x i ∧ InRange y i) → r.1.cell i = x.cell i
  source : k ≠ .move → r.2 = y

variable {el} {x y : IecArray Ty E} {r : IecArray Ty E × IecArray Ty E} {i : ℤ} {n : ℕ}

/-! ### What a transfer leaves -/

theorem length_stored_put (x : IecArray Ty E) (i : ℤ) (e : E) :
    (x.put i e).stored.length = x.stored.length := by
  by_cases h : x.getLowerBound ≤ i
  · rw [stored_put x h, List.length_set]
  · rw [put, if_neg h]

theorem sound_put (hx : Sound el x) (i : ℤ) {e : E} (he : el.Whole e) : Sound el (x.put i e) := by
  refine ⟨?_, ?_, ?_⟩
  · rw [size_put, getUpperBound_put, getLowerBound_put]
    exact hx.size_eq
  · rw [size_put, length_stored_put]
    exact hx.length_stored
  · by_cases h : x.getLowerBound ≤ i
    · rw [stored_put x h]
      intro e' he'
      rcases List.mem_or_eq_of_mem_set he' with hmem | rfl
      · exact hx.whole e' hmem
      · exact he
    · rw [put, if_neg h]
      exact hx.whole

theorem whole_cell (hx : Sound el x) {e : E} (h : x.cell i = some e) : el.Whole e :=
  hx.whole e (List.mem_of_getElem? (cell_eq_some.mp h).2)

/-- A transfer changes neither bounds nor size. -/
theorem transfer_shape {f : E → E → Option (E × E)} (h : Cells.transfer f n i x y = some r) :
    r.1.getLowerBound = x.getLowerBound ∧ r.1.getUpperBound = x.getUpperBound ∧
      r.1.size = x.size := by
  refine (Cells.transfer_keeps (Q := fun _ : IecArray Ty E => True)
    (P := fun x' : IecArray Ty E => x'.getLowerBound = x.getLowerBound ∧
      x'.getUpperBound = x.getUpperBound ∧ x'.size = x.size) ?_ h ⟨rfl, rfl, rfl⟩ trivial).1
  rintro x' y' i e s p ⟨hlower, hupper, hsize⟩ - - - -
  refine ⟨⟨?_, ?_, ?_⟩, trivial⟩
  · exact (getLowerBound_put x' i p.1).trans hlower
  · exact (getUpperBound_put x' i p.1).trans hupper
  · exact (size_put x' i p.1).trans hsize

/-- Where the source is only read, the target stays sound whatever the source is. -/
theorem sound_reading {g : E → E → Option E}
    (hg : ∀ {e s e'}, g e s = some e' → el.Whole e → el.Whole e')
    (h : Cells.transfer (Cells.reading g) n i x y = some r) (hx : Sound el x) :
    Sound el r.1 := by
  refine (Cells.transfer_keeps (P := Sound el) (Q := fun _ : IecArray Ty E => True)
    ?_ h hx trivial).1
  rintro x' y' i e s p hx' - he - hp
  obtain ⟨hp₁, -⟩ := Cells.reading_eq_some.mp hp
  exact ⟨sound_put hx' i (hg hp₁ (whole_cell hx' he)), trivial⟩

theorem sound_transfer {f : E → E → Option (E × E)}
    (hf : ∀ {e s p}, f e s = some p → el.Whole e → el.Whole s → el.Whole p.1 ∧ el.Whole p.2)
    (h : Cells.transfer f n i x y = some r) (hx : Sound el x) (hy : Sound el y) :
    Sound el r.1 ∧ Sound el r.2 := by
  refine Cells.transfer_keeps (P := Sound el) (Q := Sound el) ?_ h hx hy
  rintro x' y' i e s p hx' hy' he hs hp
  obtain ⟨hp₁, hp₂⟩ := hf hp (whole_cell hx' he) (whole_cell hy' hs)
  exact ⟨sound_put hx' i hp₁, sound_put hy' i hp₂⟩

/-! ### The assignments of sound arrays -/

theorem exists_cell (hx : Sound el x) (h : InRange x i) : ∃ e, x.cell i = some e := by
  obtain ⟨hsize, hlower, hupper⟩ := h
  have hsize_eq := hx.size_eq hsize
  have hlength := hx.length_stored hsize
  have hlt : (i - x.getLowerBound).toNat < x.stored.length := by omega
  exact ⟨_, cell_eq_some.mpr ⟨hlower, List.getElem?_eq_getElem hlt⟩⟩

theorem exists_operation (k : Overload) {e s : E} (he : el.Whole e) (hs : el.Whole s) :
    ∃ p, operation el k e s = some p := by
  cases k with
  | typed =>
    obtain ⟨e', he'⟩ := el.exists_assign he hs
    exact ⟨(e', s), Cells.reading_eq_some.mpr ⟨he', rfl⟩⟩
  | move => exact el.exists_assignMove he hs
  | dynamic =>
    obtain ⟨e', he'⟩ := el.exists_setValue he hs
    exact ⟨(e', s), Cells.reading_eq_some.mpr ⟨he', rfl⟩⟩

/-- The loop of an assignment does what it should where both arrays are initialized if they have
an index in common. -/
theorem exists_assignRange (k : Overload) (hx : Sound el x) (hy : Sound el y)
    (hsizes : ∀ i, x.getLowerBound ≤ i → i ≤ x.getUpperBound → y.getLowerBound ≤ i →
      i ≤ y.getUpperBound → x.size ≠ 0 ∧ y.size ≠ 0) :
    ∃ r, assignRange (operation el k) x y = some r ∧ Assigned el k x y r := by
  -- the loop goes through the indices both have, and no other ones
  have hrange : ∀ j, max x.getLowerBound y.getLowerBound ≤ j →
      j < max x.getLowerBound y.getLowerBound + ((min x.getUpperBound y.getUpperBound -
        max x.getLowerBound y.getLowerBound + 1).toNat : ℕ) → InRange x j ∧ InRange y j := by
    intro j hle hlt
    obtain ⟨hsize, hsize'⟩ := hsizes j (by omega) (by omega) (by omega) (by omega)
    exact ⟨⟨hsize, by omega, by omega⟩, ⟨hsize', by omega, by omega⟩⟩
  have hcells : ∃ r, assignRange (operation el k) x y = some r := by
    refine Cells.exists_transfer fun j hle hlt => ?_
    obtain ⟨hj, hj'⟩ := hrange j hle hlt
    obtain ⟨e, he⟩ := exists_cell hx hj
    obtain ⟨s, hs⟩ := exists_cell hy hj'
    obtain ⟨p, hp⟩ := exists_operation k (whole_cell hx he) (whole_cell hy hs)
    exact ⟨e, s, p, he, hs, hp⟩
  obtain ⟨r, hr⟩ := hcells
  obtain ⟨hlower, hupper, -⟩ := transfer_shape hr
  refine ⟨r, hr, hlower, hupper, ?_, ?_, ?_⟩
  · rintro i ⟨-, hi, hi'⟩ ⟨-, hj, hj'⟩
    obtain ⟨e, s, p, he, hs, hp, hcell, -⟩ := Cells.transfer_spec hr (j := i) (by omega) (by omega)
    exact ⟨e, s, p, he, hs, hp, hcell⟩
  · intro i hi
    refine (Cells.cell_transfer_of_not hr (j := i) fun hin => hi ?_).1
    exact hrange i hin.1 hin.2
  · intro hk
    cases k with
    | typed => exact Cells.transfer_reading hr
    | move => exact absurd rfl hk
    | dynamic => exact Cells.transfer_reading hr

/-- An array with a static element type has a size if there is an index between its bounds. -/
theorem size_ne_zero (h : x.elementType.isSome) (hbounds : x.getLowerBound ≤ x.getUpperBound) :
    x.size ≠ 0 := by
  rcases x with x | x | x
  · have hlength := x.cmSize
    simp only [getLowerBound, getUpperBound] at hbounds
    simp only [size]
    omega
  · simp only [getLowerBound, getUpperBound] at hbounds
    simp only [size, sizeBetween]
    split_ifs <;> omega
  · exact absurd h (by simp [elementType])

/-- A target stays sound whatever is assigned to it, and the source stays as it is, unless this
is moved. -/
theorem sound_target {k : Overload} (hk : k ≠ .move) (h : assignBy el k x y = some r)
    (hx : Sound el x) : Sound el r.1 ∧ r.2 = y := by
  cases k with
  | typed => exact ⟨sound_reading el.whole_assign h hx, Cells.transfer_reading h⟩
  | move => exact absurd rfl hk
  | dynamic =>
    rw [assignBy, assignDynamic] at h
    split_ifs at h
    · exact ⟨sound_reading el.whole_setValue h hx, Cells.transfer_reading h⟩
    · obtain rfl := Option.some.inj h
      exact ⟨hx, rfl⟩

/-- The assignments keep arrays sound. -/
theorem sound_assignBy {k : Overload} (h : assignBy el k x y = some r) (hx : Sound el x)
    (hy : Sound el y) : Sound el r.1 ∧ Sound el r.2 := by
  by_cases hk : k = .move
  · subst hk
    exact sound_transfer el.whole_assignMove h hx hy
  · obtain ⟨hx', hsource⟩ := sound_target hk h hx
    rw [hsource]
    exact ⟨hx', hy⟩

variable [DecidableEq Ty]

theorem isSome_of_typesAssignable {t u : Option Ty} (h : typesAssignable el t u) :
    t.isSome ∧ u.isSome := by
  rcases t with - | t <;> rcases u with - | u <;> simp_all [typesAssignable]

/-- Only arrays with static element types are assigned without a look at their sizes. -/
theorem isSome_of_applies {k : Overload} (hk : k ≠ .dynamic) (h : applies el k x y) :
    x.elementType.isSome ∧ y.elementType.isSome := by
  cases k with
  | typed => exact isSome_of_typesAssignable h
  | move => rcases x with x | x | x <;> rcases y with y | y | y <;> simp_all [applies, elementType]
  | dynamic => exact absurd rfl hk

/-- **Between sound arrays** every assignment there is does what it should. -/
theorem exists_assignBy {k : Overload} (hx : Sound el x) (hy : Sound el y)
    (h : applies el k x y) : ∃ r, assignBy el k x y = some r ∧ Assigned el k x y r := by
  by_cases hk : k = .dynamic
  · subst hk
    rw [assignBy, assignDynamic]
    split_ifs with hsizes
    · exact exists_assignRange .dynamic hx hy fun _ _ _ _ _ => hsizes
    · refine ⟨(x, y), rfl, rfl, rfl, ?_, fun _ _ => rfl, fun _ => rfl⟩
      intro i hi hi'
      exact absurd ⟨hi.1, hi'.1⟩ hsizes
  · obtain ⟨htype, htype'⟩ := isSome_of_applies hk h
    have hrange := exists_assignRange k hx hy fun i hi hi' hj hj' =>
      ⟨size_ne_zero htype (hi.trans hi'), size_ne_zero htype' (hj.trans hj')⟩
    cases k with
    | typed => exact hrange
    | move => exact hrange
    | dynamic => exact absurd rfl hk

end IecArray

end Forte
