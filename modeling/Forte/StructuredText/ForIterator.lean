import Mathlib.Tactic.Linarith
import Mathlib.Tactic.Ring
import Forte.Datatypes.AnyInt

/-!
# The iterator of a FOR loop

`ST_FOR_ITER`, which a FOR statement is compiled to: a counter, the value it goes up or down to,
and a step, which may have another type. The constructor takes the end value back so far that the
step behind it is still a value of the type of the counter, and the loop ends when the counter has
passed it.

The step is converted to the type of the counter, there and in each step. What is computed with it
is reduced again, so that the loop is right as long as the step is less than the number of values
(`Forte.ForIterator.iterates_iff`) – in `DINT` and `LINT` as long as it is a value. A step beyond
that passes every end value at once; but its remainder may not, and then the loop is entered.
-/

namespace Forte

/-- `ST_FOR_ITER`, with the variable `mCounter` refers to. -/
structure ForIterator (E B : AnyInt) where
  mCounter : E.native.Value
  mInternalCounter : E.native.Value
  mTo : E.native.Value
  mBy : B.native.Value

namespace ForIterator

variable {E B : AnyInt}

/-- The greatest or the least value, and how far the end value is taken back from it. -/
def limit (E : AnyInt) (bound : ℤ) (byValue : E.native.Value) (hbound : E.native.Fits bound) :
    Option E.native.Value :=
  (NativeType.sub (⟨bound, hbound⟩ : E.native.Value) byValue).map fun r => E.native.convert r

theorem fits_max (E : AnyInt) : E.native.Fits E.native.max := by
  obtain ⟨hmax, hmin, hnonneg⟩ := E.native.range
  exact ⟨hmin.trans hnonneg, le_refl _⟩

theorem fits_min (E : AnyInt) : E.native.Fits E.native.min := by
  obtain ⟨hmax, hmin, hnonneg⟩ := E.native.range
  exact ⟨le_refl _, hmin.trans hnonneg⟩

/-- The constructor; `none` is undefined behaviour. -/
def construct (paStart paTo : E.native.Value) (paBy : B.native.Value) :
    Option (ForIterator E B) :=
  if 0 < paBy.val then
    (limit E _ (E.native.convert paBy) (fits_max E)).map fun limit =>
      ⟨paStart, paStart, if limit.val < paTo.val then limit else paTo, paBy⟩
  else if paBy.val < 0 then
    (limit E _ (E.native.convert paBy) (fits_min E)).map fun limit =>
      ⟨paStart, paStart, if paTo.val < limit.val then limit else paTo, paBy⟩
  else some ⟨paStart, paStart, paTo, paBy⟩

/-- `isExpired`. -/
def isExpired (it : ForIterator E B) : Bool :=
  if 0 < it.mBy.val then it.mTo.val < it.mInternalCounter.val
  else it.mInternalCounter.val < it.mTo.val

/-- `operator++`. -/
def increment (it : ForIterator E B) : Option (ForIterator E B) :=
  (NativeType.add it.mInternalCounter (E.native.convert it.mBy)).map fun r =>
    { it with mInternalCounter := E.native.convert r, mCounter := E.native.convert r }

/-- The values the counter has in the rounds of the loop, and the value behind it, with a bound
on the rounds. The iterator that `end` returns is expired, and `!=` compares nothing else. -/
def loop : ℕ → ForIterator E B → Option (List ℤ × ℤ)
  | 0, _ => none
  | bound + 1, it =>
    if it.isExpired then some ([], it.mCounter)
    else
      it.increment.bind fun next =>
        (loop bound next).map fun (visited, counter) =>
          (it.mInternalCounter.val :: visited, counter)

/-- A FOR loop. -/
def forLoop (bound : ℕ) (paStart paTo : E.native.Value) (paBy : B.native.Value) :
    Option (List ℤ × ℤ) :=
  (construct paStart paTo paBy).bind (loop bound)

/-! ### What a FOR loop is -/

/-- The end value after the adjustment. -/
def endValue (E : AnyInt) (goal step : ℤ) : ℤ :=
  if 0 < step then min goal (E.native.max - step) else max goal (E.native.min - step)

/-- A value passes the end value. -/
def Passes (E : AnyInt) (goal step value : ℤ) : Prop :=
  if 0 < step then endValue E goal step < value else value < endValue E goal step

/-- **The values that are to be visited** from a start: those that do not pass the end value, one
step after the other. They and the next one are values of the type. -/
structure Walks (E : AnyInt) (start goal step : ℤ) (visited : List ℤ) : Prop where
  values : visited = (List.range visited.length).map fun (k : ℕ) => start + k * step
  ends : ∀ k : ℕ, k < visited.length ↔ ¬Passes E goal step (start + k * step)
  fits : ∀ k ≤ visited.length, E.native.Fits (start + k * step)

/-- **What is asked of a loop**: it ends, the counter has visited these values, and is one step
behind the last of them. -/
def Meets (paStart paTo : E.native.Value) (paBy : B.native.Value) : Prop :=
  ∃ bound visited, Walks E paStart paTo paBy visited ∧
    forLoop bound paStart paTo paBy = some (visited, paStart.val + visited.length * paBy.val)

/-- A step with which all sums are right in the end. -/
def Representable (E : AnyInt) (step : ℤ) : Prop :=
  |step| < E.native.modulus ∧ (E.Wide → E.native.Fits step)

/-- A step beyond that, with which the loop is not entered. -/
def Skipped (E : AnyInt) (start goal step : ℤ) : Prop :=
  E.native.modulus ≤ |step| ∧
    if 0 < step then
      (E.Wide → 0 ≤ E.native.wrap step) ∧
        min goal (E.native.wrap (E.native.max - E.native.wrap step)) < start
    else
      (E.Wide → E.native.wrap step ≤ 0) ∧
        start < max goal (E.native.wrap (E.native.min - E.native.wrap step))

theorem passes_of_pos {goal step value : ℤ} (h : 0 < step) :
    Passes E goal step value ↔ min goal (E.native.max - step) < value := by
  rw [Passes, endValue, if_pos h, if_pos h]

theorem passes_of_neg {goal step value : ℤ} (h : step < 0) :
    Passes E goal step value ↔ value < max goal (E.native.min - step) := by
  rw [Passes, endValue, if_neg h.not_gt, if_neg h.not_gt]

/-- Behind a value that passes the end value there are only others that do. -/
theorem Passes.add {goal step value : ℤ} (h : Passes E goal step value) (hne : step ≠ 0) (k : ℕ) :
    Passes E goal step (value + k * step) := by
  rcases lt_or_gt_of_ne hne with hneg | hpos
  · rw [passes_of_neg hneg] at h ⊢
    exact lt_of_le_of_lt (by nlinarith) h
  · rw [passes_of_pos hpos] at h ⊢
    exact lt_of_lt_of_le h (by nlinarith)

theorem Passes.walks {start goal step : ℤ} (h : Passes E goal step start) (hne : step ≠ 0)
    (hfits : E.native.Fits start) : Walks E start goal step [] where
  values := rfl
  ends k := iff_of_false (Nat.not_lt_zero k) (not_not.mpr (h.add hne k))
  fits k hk := by
    obtain rfl := Nat.le_zero.mp hk
    simpa using hfits

theorem Walks.cons {start goal step : ℤ} {visited : List ℤ}
    (h : Walks E (start + step) goal step visited) (hnot : ¬Passes E goal step start)
    (hfits : E.native.Fits start) : Walks E start goal step (start :: visited) where
  values := by
    rw [List.length_cons, List.range_succ_eq_map, List.map_cons, List.map_map]
    refine congrArg₂ List.cons (by simp) (h.values.trans (List.map_congr_left fun k _ => ?_))
    simp only [Function.comp_apply, Nat.cast_succ]
    ring
  ends k := by
    rcases k with - | k
    · exact iff_of_true (Nat.succ_pos _) (by simpa using hnot)
    · have hk := h.ends k
      rw [List.length_cons, Nat.succ_lt_succ_iff, hk, Nat.cast_succ]
      rw [show start + step + k * step = start + (k + 1) * step by ring]
  fits k hk := by
    rcases k with - | k
    · simpa using hfits
    · have hk := h.fits k (Nat.le_of_succ_le_succ hk)
      rwa [Nat.cast_succ, show start + (k + 1) * step = start + step + k * step by ring]

/-! ### One step -/

section

variable {start goal : E.native.Value} {step : B.native.Value}

theorem abs_lt_modulus (x : E.native.Value) : |x.val| < E.native.modulus := by
  obtain ⟨hmax, hmin, hnonneg⟩ := E.native.range
  obtain ⟨hlower, hupper⟩ := x.2
  exact abs_lt.mpr ⟨by omega, by omega⟩

/-- The end value is taken back by the remainder of the step. -/
theorem limit_eq {bound : ℤ} (hbound : E.native.Fits bound) (x : E.native.Value) :
    limit E bound x hbound =
      if E.Wide ∧ ¬E.native.Fits (bound - x) then none
      else some (E.native.convert (bound - x)) := by
  have hfirst : |bound| < E.native.modulus := abs_lt_modulus ⟨bound, hbound⟩
  have hsecond := abs_lt_modulus x
  have hsum : |bound - x.val| ≤ 2 * E.native.modulus := (abs_sub bound x.val).trans (by omega)
  rw [limit, NativeType.sub_eq]
  exact AnyInt.map_convert_result hsum

theorem increment_eq (it : ForIterator E B) :
    it.increment =
      if E.Wide ∧ ¬E.native.Fits (it.mInternalCounter + E.native.wrap it.mBy) then none
      else
        some { it with
          mInternalCounter := E.native.convert (it.mInternalCounter + E.native.wrap it.mBy)
          mCounter := E.native.convert (it.mInternalCounter + E.native.wrap it.mBy) } := by
  have hfirst := abs_lt_modulus it.mInternalCounter
  have hsecond : |E.native.wrap it.mBy| < E.native.modulus :=
    abs_lt_modulus (E.native.convert it.mBy)
  have hadd := AnyInt.map_convert_result ((abs_add_le it.mInternalCounter.val
    (E.native.wrap it.mBy)).trans (by omega : _ ≤ 2 * E.native.modulus))
  rw [increment, NativeType.add_eq]
  split_ifs at hadd ⊢ with hcase
  · rw [Option.map_eq_none_iff] at hadd ⊢
    exact hadd
  · obtain ⟨r, hr, heq⟩ := Option.map_eq_some_iff.mp hadd
    exact Option.map_eq_some_iff.mpr ⟨r, hr, by rw [heq]⟩

/-- What is computed with the remainder of a step is computed with the step, where the result is
a value. -/
theorem wrap_add_wrap {x z : ℤ} (h : E.native.Fits (x + z)) :
    E.native.wrap (x + E.native.wrap z) = x + z := by
  rw [← h.wrap_eq]
  exact NativeType.wrap_eq_wrap_iff.mpr ((E.native.wrap_modEq z).add_left x)

theorem wrap_sub_wrap {x z : ℤ} (h : E.native.Fits (x - z)) :
    E.native.wrap (x - E.native.wrap z) = x - z := by
  rw [← h.wrap_eq]
  exact NativeType.wrap_eq_wrap_iff.mpr ((E.native.wrap_modEq z).sub_left x)

/-! ### Loops with a representable step -/

/-- The end value is taken back by the step. -/
theorem limit_of_representable (h : Representable E step) {bound : ℤ}
    (hbound : E.native.Fits bound) (hfits : E.native.Fits (bound - step)) :
    limit E bound (E.native.convert step) hbound = some ⟨bound - step, hfits⟩ := by
  rw [limit_eq]
  refine (if_neg ?_).trans (congrArg some (Subtype.ext (wrap_sub_wrap hfits)))
  rintro ⟨hwide, hnot⟩
  have hsame : (E.native.convert step).val = step := (h.2 hwide).wrap_eq
  rw [hsame] at hnot
  exact hnot hfits

/-- The constructor adjusts the end value. -/
theorem construct_of_representable (h : Representable E step) (hne : step.val ≠ 0) :
    ∃ mTo : E.native.Value, mTo.val = endValue E goal step ∧
      construct start goal step = some ⟨start, start, mTo, step⟩ := by
  obtain ⟨hmax, hmin, hnonneg⟩ := E.native.range
  obtain ⟨hlower, hupper⟩ := abs_lt.mp h.1
  rcases lt_or_gt_of_ne hne with hneg | hpos
  · have hfits : E.native.Fits (E.native.min - step) := ⟨by omega, by omega⟩
    rw [construct, if_neg hneg.not_gt, if_pos hneg, limit_of_representable h _ hfits]
    refine ⟨_, ?_, rfl⟩
    rw [endValue, if_neg hneg.not_gt, max_def]
    dsimp only
    split_ifs <;> first | rfl | omega
  · have hfits : E.native.Fits (E.native.max - step) := ⟨by omega, by omega⟩
    rw [construct, if_pos hpos, limit_of_representable h _ hfits]
    refine ⟨_, ?_, rfl⟩
    rw [endValue, if_pos hpos, min_def]
    dsimp only
    split_ifs <;> first | rfl | omega

/-- The counter and the end value are what they are in the loop. -/
structure Running (it : ForIterator E B) (goal : ℤ) : Prop where
  counter : it.mCounter = it.mInternalCounter
  last : it.mTo.val = endValue E goal it.mBy

theorem Running.isExpired_iff {it : ForIterator E B} {goal : ℤ} (h : it.Running goal) :
    it.isExpired = true ↔ Passes E goal it.mBy it.mInternalCounter := by
  rw [isExpired, Passes, h.last]
  split_ifs <;> simp

/-- **A step of a loop** that has not come to its end goes to the next value. -/
theorem Running.increment {it : ForIterator E B} {goal : ℤ} (h : it.Running goal)
    (hstep : Representable E it.mBy) (hne : it.mBy.val ≠ 0)
    (hnot : ¬Passes E goal it.mBy it.mInternalCounter) :
    ∃ next : ForIterator E B, it.increment = some next ∧ next.Running goal ∧ next.mBy = it.mBy ∧
      next.mInternalCounter.val = it.mInternalCounter.val + it.mBy := by
  have hfits : E.native.Fits (it.mInternalCounter + it.mBy) := by
    obtain ⟨hlower, hupper⟩ := it.mInternalCounter.2
    rcases lt_or_gt_of_ne hne with hneg | hpos
    · rw [passes_of_neg hneg, not_lt] at hnot
      exact ⟨by have := (le_max_right _ _).trans hnot; omega, by omega⟩
    · rw [passes_of_pos hpos, not_lt] at hnot
      exact ⟨by omega, by have := hnot.trans (min_le_right _ _); omega⟩
  have hdefined : ¬(E.Wide ∧ ¬E.native.Fits (it.mInternalCounter + E.native.wrap it.mBy)) := by
    rintro ⟨hwide, hover⟩
    rw [(hstep.2 hwide).wrap_eq] at hover
    exact hover hfits
  exact ⟨_, (increment_eq it).trans (if_neg hdefined), ⟨rfl, h.last⟩, rfl, wrap_add_wrap hfits⟩

/-- How many values there are between the counter and the last one in its direction. -/
def room (it : ForIterator E B) : ℕ :=
  if 0 < it.mBy.val then (E.native.max - it.mInternalCounter).toNat
  else (it.mInternalCounter - E.native.min).toNat

/-- **A loop with a representable step** visits the values and ends. -/
theorem Running.loop {it : ForIterator E B} {goal : ℤ} (h : it.Running goal)
    (hstep : Representable E it.mBy) (hne : it.mBy.val ≠ 0) :
    ∃ bound visited, Walks E it.mInternalCounter goal it.mBy visited ∧
      loop bound it = some (visited, it.mInternalCounter.val + visited.length * it.mBy.val) := by
  induction hroom : it.room using Nat.strong_induction_on generalizing it with
  | _ n ih =>
    by_cases hexpired : it.isExpired = true
    · have hpasses := h.isExpired_iff.mp hexpired
      refine ⟨1, [], hpasses.walks hne it.mInternalCounter.2, ?_⟩
      rw [ForIterator.loop, if_pos hexpired, h.counter]
      simp
    · have hnot := fun hpasses => hexpired (h.isExpired_iff.mpr hpasses)
      obtain ⟨next, hincrement, hnext, hby, hvalue⟩ := h.increment hstep hne hnot
      -- the counter has come closer to the last value
      have hless : next.room < n := by
        obtain ⟨hlower, hupper⟩ := next.mInternalCounter.2
        rw [← hroom, room, room, hby]
        split_ifs <;> omega
      obtain ⟨bound, visited, hwalks, hloop⟩ := ih _ hless hnext (hby ▸ hstep) (hby ▸ hne) rfl
      rw [hby, hvalue] at hwalks hloop
      refine ⟨bound + 1, it.mInternalCounter.val :: visited,
        hwalks.cons hnot it.mInternalCounter.2, ?_⟩
      rw [ForIterator.loop, if_neg hexpired, hincrement, Option.bind_some, hloop]
      simp only [Option.map_some, List.length_cons, Nat.cast_succ, Option.some.injEq,
        Prod.mk.injEq, true_and]
      ring

/-! ### Steps beyond that -/

/-- A step with a magnitude of the number of values or more passes every end value at once. -/
theorem passes_of_modulus_le (hstep : E.native.modulus ≤ |step.val|) (goal : ℤ) :
    Passes E goal step start := by
  obtain ⟨hmax, hmin, hnonneg⟩ := E.native.range
  obtain ⟨hlower, hupper⟩ := start.2
  have hpos := E.native.modulus_pos
  rcases le_abs.mp hstep with hle | hle
  · rw [passes_of_pos (by omega)]
    exact lt_of_le_of_lt (min_le_right _ _) (by omega)
  · rw [passes_of_neg (by omega)]
    exact lt_of_lt_of_le (by omega) (le_max_right _ _)

/-- Where the end value can be taken back by the remainder. -/
theorem fits_max_sub_iff (x : E.native.Value) : E.native.Fits (E.native.max - x) ↔ 0 ≤ x.val := by
  obtain ⟨hmax, hmin, hnonneg⟩ := E.native.range
  obtain ⟨hlower, hupper⟩ := x.2
  rw [NativeType.Fits]
  omega

theorem fits_min_sub_iff (x : E.native.Value) : E.native.Fits (E.native.min - x) ↔ x.val ≤ 0 := by
  obtain ⟨hmax, hmin, hnonneg⟩ := E.native.range
  obtain ⟨hlower, hupper⟩ := x.2
  rw [NativeType.Fits]
  omega

/-- What the constructor makes of any step up. -/
theorem construct_of_pos (hpos : 0 < step.val) :
    construct start goal step =
      if E.Wide ∧ ¬0 ≤ E.native.wrap step then none
      else
        some ⟨start, start,
          if E.native.wrap (E.native.max - E.native.wrap step) < goal.val then
            E.native.convert (E.native.max - E.native.wrap step)
          else goal, step⟩ := by
  have hfits := fits_max_sub_iff (E.native.convert step)
  rw [construct, if_pos hpos, limit_eq]
  by_cases hover : E.Wide ∧ ¬0 ≤ E.native.wrap step
  · rw [if_pos hover, if_pos ⟨hover.1, fun h => hover.2 (hfits.mp h)⟩]
    rfl
  · rw [if_neg hover, if_neg fun h => hover ⟨h.1, fun hnonneg => h.2 (hfits.mpr hnonneg)⟩]
    rfl

/-- What the constructor makes of any step down. -/
theorem construct_of_neg (hneg : step.val < 0) :
    construct start goal step =
      if E.Wide ∧ ¬E.native.wrap step ≤ 0 then none
      else
        some ⟨start, start,
          if goal.val < E.native.wrap (E.native.min - E.native.wrap step) then
            E.native.convert (E.native.min - E.native.wrap step)
          else goal, step⟩ := by
  have hfits := fits_min_sub_iff (E.native.convert step)
  rw [construct, if_neg hneg.not_gt, if_pos hneg, limit_eq]
  by_cases hover : E.Wide ∧ ¬E.native.wrap step ≤ 0
  · rw [if_pos hover, if_pos ⟨hover.1, fun h => hover.2 (hfits.mp h)⟩]
    rfl
  · rw [if_neg hover, if_neg fun h => hover ⟨h.1, fun hnonpos => h.2 (hfits.mpr hnonpos)⟩]
    rfl

/-- **The loop is not entered** where the end value that is made of a step is passed at the
start. -/
theorem skipped_iff (hstep : E.native.modulus ≤ |step.val|) :
    Skipped E start goal step ↔
      ∃ it, construct start goal step = some it ∧ it.isExpired = true := by
  have hmodulus := E.native.modulus_pos
  rw [Skipped, and_iff_right hstep]
  -- the two directions of the loop mirror each other
  rcases le_abs.mp hstep with hle | hle
  · have hpos : 0 < step.val := by omega
    rw [if_pos hpos, construct_of_pos hpos]
    by_cases hover : E.Wide ∧ ¬0 ≤ E.native.wrap step
    · rw [if_pos hover]
      refine iff_of_false (fun h => hover.2 (h.1 hover.1)) ?_
      rintro ⟨it, ⟨⟩, -⟩
    · rw [if_neg hover, and_iff_right (by tauto), min_comm, min_def_lt]
      constructor
      · intro h
        refine ⟨_, rfl, ?_⟩
        rw [isExpired, if_pos hpos, decide_eq_true_eq]
        split_ifs at h ⊢ <;> exact h
      · rintro ⟨it, ⟨⟩, hexpired⟩
        rw [isExpired, if_pos hpos, decide_eq_true_eq] at hexpired
        split_ifs at hexpired ⊢ <;> exact hexpired
  · have hneg : step.val < 0 := by omega
    rw [if_neg hneg.not_gt, construct_of_neg hneg]
    by_cases hover : E.Wide ∧ ¬E.native.wrap step ≤ 0
    · rw [if_pos hover]
      refine iff_of_false (fun h => hover.2 (h.1 hover.1)) ?_
      rintro ⟨it, ⟨⟩, -⟩
    · rw [if_neg hover, and_iff_right (by tauto), max_def_lt]
      constructor
      · intro h
        refine ⟨_, rfl, ?_⟩
        rw [isExpired, if_neg hneg.not_gt, decide_eq_true_eq]
        split_ifs at h ⊢ <;> exact h
      · rintro ⟨it, ⟨⟩, hexpired⟩
        rw [isExpired, if_neg hneg.not_gt, decide_eq_true_eq] at hexpired
        split_ifs at hexpired ⊢ <;> exact hexpired

theorem counter_of_construct {it : ForIterator E B} (h : construct start goal step = some it) :
    it.mCounter = start := by
  rw [construct] at h
  split_ifs at h
  · obtain ⟨limit, -, rfl⟩ := Option.map_eq_some_iff.mp h
    rfl
  · obtain ⟨limit, -, rfl⟩ := Option.map_eq_some_iff.mp h
    rfl
  · obtain rfl := Option.some.inj h
    rfl

/-- A loop that visits nothing is not entered. -/
theorem isExpired_of_loop {it : ForIterator E B} {bound : ℕ} {counter : ℤ}
    (h : loop bound it = some ([], counter)) : it.isExpired = true := by
  rcases bound with - | bound
  · exact absurd h.symm (Option.some_ne_none _)
  · by_contra hnot
    rw [loop, if_neg hnot] at h
    obtain ⟨next, -, hnext⟩ := Option.bind_eq_some_iff.mp h
    obtain ⟨rest, -, hcons⟩ := Option.map_eq_some_iff.mp hnext
    exact List.cons_ne_nil _ _ (Prod.mk.inj hcons).1

/-- **With a step of a wide type that is no value of it** the end value cannot be taken back. -/
theorem construct_eq_none (hlt : |step.val| < E.native.modulus) (hwide : E.Wide)
    (hnot : ¬E.native.Fits step) (goal : E.native.Value) :
    construct start goal step = none := by
  obtain ⟨hmax, hmin, hnonneg⟩ := E.native.range
  obtain ⟨hlower, hupper⟩ := abs_lt.mp hlt
  rw [NativeType.Fits, not_and_or, not_le, not_le] at hnot
  rcases hnot with hbelow | habove
  · have hwrap := NativeType.wrap_of_lt hbelow (by omega)
    rw [construct_of_neg (by omega), if_pos ⟨hwide, by omega⟩]
  · have hwrap := NativeType.wrap_of_gt habove (by omega)
    rw [construct_of_pos (by omega), if_pos ⟨hwide, by omega⟩]

end

/-! ### Which loops are right -/

section

variable {start goal : E.native.Value} {step : B.native.Value}

/-- A loop with a step that is not representable is right only where it is not entered. -/
theorem Meets.skipped (h : Meets start goal step) (hstep : ¬Representable E step) :
    Skipped E start goal step := by
  obtain ⟨bound, visited, hwalks, hloop⟩ := h
  obtain ⟨it, hconstruct, hrun⟩ := Option.bind_eq_some_iff.mp hloop
  rcases lt_or_ge |step.val| E.native.modulus with hlt | hge
  · refine absurd ⟨hlt, fun hwide => ?_⟩ hstep
    by_contra hnot
    rw [construct_eq_none hlt hwide hnot] at hconstruct
    exact Option.some_ne_none _ hconstruct.symm
  · -- there is no value to visit
    have hpasses : Passes E goal step start := passes_of_modulus_le hge goal
    have hempty : visited.length = 0 := by
      by_contra hne
      exact (hwalks.ends 0).mp (Nat.pos_of_ne_zero hne) (by simpa using hpasses)
    obtain rfl := List.eq_nil_of_length_eq_zero hempty
    exact (skipped_iff hge).mpr ⟨it, hconstruct, isExpired_of_loop hrun⟩

theorem Representable.meets (h : Representable E step) (hne : step.val ≠ 0) :
    Meets start goal step := by
  obtain ⟨mTo, hlast, hconstruct⟩ := construct_of_representable h hne
  have hrunning : Running (⟨start, start, mTo, step⟩ : ForIterator E B) goal := ⟨rfl, hlast⟩
  obtain ⟨bound, visited, hwalks, hloop⟩ := hrunning.loop h hne
  exact ⟨bound, visited, hwalks, by rw [forLoop, hconstruct, Option.bind_some, hloop]⟩

theorem Skipped.meets (h : Skipped E start goal step) (hne : step.val ≠ 0) :
    Meets start goal step := by
  obtain ⟨it, hconstruct, hexpired⟩ := (skipped_iff h.1).mp h
  refine ⟨1, [], (passes_of_modulus_le h.1 goal).walks hne start.2, ?_⟩
  rw [forLoop, hconstruct, Option.bind_some, loop, if_pos hexpired,
    counter_of_construct hconstruct]
  simp

end

/-- **A FOR loop does what it is for** exactly with the steps that are representable, and with
the ones beyond with which it is not entered. -/
theorem iterates_iff (start goal : E.native.Value) (step : B.native.Value) (hne : step.val ≠ 0) :
    Meets start goal step ↔ Representable E step ∨ Skipped E start goal step := by
  constructor
  · intro h
    by_cases hstep : Representable E step
    · exact .inl hstep
    · exact .inr (h.skipped hstep)
  · rintro (hstep | hskipped)
    · exact hstep.meets hne
    · exact hskipped.meets hne

/-- A counter without sign goes down. -/
theorem iterates_iff_down : Meets (⟨10, by decide⟩ : AnyInt.usint.native.Value) ⟨0, by decide⟩
    (⟨-3, by decide⟩ : AnyInt.int.native.Value) :=
  (iterates_iff _ _ _ (by decide)).mpr (.inl ⟨by decide, by decide⟩)

/-- **A loop that never ends**: a `SINT` that is to go up to 10 in steps of 256. -/
theorem not_iterates_remainder : ¬Meets (⟨0, by decide⟩ : AnyInt.sint.native.Value) ⟨10, by decide⟩
    (⟨256, by decide⟩ : AnyInt.int.native.Value) := by
  intro h
  obtain ⟨-, hskipped⟩ := h.skipped fun hstep => absurd hstep.1 (by decide)
  exact absurd hskipped.2 (by decide)

end ForIterator

end Forte
