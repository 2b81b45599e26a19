import Mathlib.Data.List.Basic

/-!
# Replaying recorded updates

A state with places that hold values, and records of updates, each of one place. A record may
have no place in a state any more, and then does nothing. Places can overlap, such as a whole
and its parts; an update leaves everything alone that does not overlap its place.

Replayed in any order, a record that no other one overlaps has the effect it has alone
(`Forte.Replay.get_replay`), and what no record overlaps is left alone
(`Forte.Replay.get_replay_of_forall`).
-/

namespace Forte

/-- Records of updates of the places of a state. -/
structure Replay (State Place Value Rec : Type) where
  /-- What is in a place. -/
  get : State → Place → Option Value
  /-- The place of a record. -/
  place : Rec → Option Place
  /-- What a record makes of the value in its place. -/
  update : Rec → Value → Value
  /-- The update of a state. -/
  apply : State → Rec → State
  overlap : Place → Place → Prop
  get_apply : ∀ s r p v, place r = some p → get s p = some v →
    get (apply s r) p = some (update r v)
  get_apply_of_not : ∀ s r q, (∀ p, place r = some p → ¬overlap p q) →
    get (apply s r) q = get s q

namespace Replay

variable {State Place Value Rec : Type} (R : Replay State Place Value Rec)

/-- All records, one after the other. -/
def replay (rs : List Rec) (s : State) : State := rs.foldl R.apply s

/-- **What no record overlaps is left alone.** -/
theorem get_replay_of_forall {rs : List Rec} {q : Place}
    (h : ∀ r ∈ rs, ∀ p, R.place r = some p → ¬R.overlap p q) (s : State) :
    R.get (R.replay rs s) q = R.get s q := by
  induction rs generalizing s with
  | nil => rfl
  | cons r rs ih =>
    calc R.get (R.replay (r :: rs) s) q
        = R.get (R.apply s r) q := ih (fun r' hr' => h r' (List.mem_cons_of_mem r hr')) _
      _ = R.get s q := R.get_apply_of_not s r q (h r List.mem_cons_self)

/-- Two records without a common place. -/
def Apart (r r' : Rec) : Prop :=
  ∀ p p', R.place r = some p → R.place r' = some p' → ¬R.overlap p p' ∧ ¬R.overlap p' p

theorem Apart.symm {r r' : Rec} (h : R.Apart r r') : R.Apart r' r :=
  fun p' p hp' hp => (h p p' hp hp').symm

/-- **A record that no other one overlaps** has the effect it has alone. -/
theorem get_replay {rs : List Rec} (hrs : rs.Pairwise R.Apart) {r : Rec} (hr : r ∈ rs) {p : Place}
    (hp : R.place r = some p) {s : State} {v : Value} (hv : R.get s p = some v) :
    R.get (R.replay rs s) p = some (R.update r v) := by
  induction rs generalizing s with
  | nil => exact absurd hr List.not_mem_nil
  | cons r₁ rs ih =>
    obtain ⟨hfirst, hrest⟩ := List.pairwise_cons.mp hrs
    rcases List.mem_cons.mp hr with rfl | hmem
    · -- the others come later and leave its place alone
      have hlater : ∀ r' ∈ rs, ∀ p', R.place r' = some p' → ¬R.overlap p' p :=
        fun r' hr' p' hp' => (hfirst r' hr' p p' hp hp').2
      exact (R.get_replay_of_forall hlater _).trans (R.get_apply s r p v hp hv)
    · refine ih hrest hmem ?_
      rw [R.get_apply_of_not s r₁ p fun p₁ hp₁ => (hfirst r hmem p₁ p hp₁ hp).1]
      exact hv

end Replay

end Forte
