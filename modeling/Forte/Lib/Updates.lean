import Mathlib.Data.List.Nodup
import Mathlib.Logic.Function.Basic

/-!
# Variables updated one after the other

A loop goes through a list and gives each time one variable a value that is computed from the
one it has (`Forte.Updates.updateAll`). A variable that no round is about stays as it is
(`Forte.Updates.updateAll_eq_self`), and where no two rounds are about the same variable each has
what its own round computes (`Forte.Updates.updateAll_of_mem`).
-/

namespace Forte.Updates

variable {Variable Value Round : Type} [DecidableEq Variable]

/-- The variables behind the rounds of a list. -/
def updateAll (target : Round → Variable) (compute : Round → Value → Value) (rounds : List Round)
    (values : Variable → Value) : Variable → Value :=
  rounds.foldl (fun values r => Function.update values (target r) (compute r (values (target r))))
    values

variable {target : Round → Variable} {compute : Round → Value → Value} {rounds : List Round}
  {values : Variable → Value} {x : Variable}

theorem updateAll_cons (r : Round) (rounds : List Round) (values : Variable → Value) :
    updateAll target compute (r :: rounds) values =
      updateAll target compute rounds
        (Function.update values (target r) (compute r (values (target r)))) := rfl

/-- **A variable keeps its value** if no round that is about it computes another one. -/
theorem updateAll_eq_self (h : ∀ r ∈ rounds, target r = x → compute r (values x) = values x) :
    updateAll target compute rounds values x = values x := by
  induction rounds generalizing values with
  | nil => rfl
  | cons r rounds ih =>
    -- The round in front leaves `x` as it is, so that the others still meet the same value.
    have hround :
        Function.update values (target r) (compute r (values (target r))) x = values x := by
      by_cases hx : target r = x
      · subst hx
        rw [Function.update_self]
        exact h r List.mem_cons_self rfl
      · exact Function.update_of_ne (Ne.symm hx) _ _
    rw [updateAll_cons, ih, hround]
    intro r' hr' hx
    rw [hround]
    exact h r' (List.mem_cons_of_mem r hr') hx

/-- **A variable has what its round computes** if there is only one round about it. -/
theorem updateAll_of_mem (hnodup : (rounds.map target).Nodup) {r : Round} (hr : r ∈ rounds) :
    updateAll target compute rounds values (target r) = compute r (values (target r)) := by
  induction rounds generalizing values with
  | nil => exact absurd hr List.not_mem_nil
  | cons r' rounds ih =>
    rw [List.map_cons, List.nodup_cons] at hnodup
    rw [updateAll_cons]
    rcases List.mem_cons.mp hr with rfl | hlater
    · rw [updateAll_eq_self, Function.update_self]
      intro r' hr' hx
      exact absurd (hx ▸ List.mem_map_of_mem hr') hnodup.1
    · have hne : target r ≠ target r' := by
        intro heq
        exact hnodup.1 (heq ▸ List.mem_map_of_mem hlater)
      rw [ih hnodup.2 hlater, Function.update_of_ne hne]

end Forte.Updates
