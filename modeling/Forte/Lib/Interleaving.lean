import Mathlib.Data.List.Basic

/-!
# Interleavings

Events of several owners happen one after the other. Where events of different owners can be done
in either order, only the order among the events of each owner matters for what comes out
(`Forte.foldl_eq_of_filter`).
-/

namespace Forte

variable {σ ε ι : Type} [DecidableEq ι] {step : σ → ε → σ} {owner : ε → ι}

/-- Events of different owners can be done in either order. -/
def Independent (step : σ → ε → σ) (owner : ε → ι) : Prop :=
  ∀ s e e', owner e ≠ owner e' → step (step s e) e' = step (step s e') e

/-- The events of an owner. -/
def eventsOf (owner : ε → ι) (i : ι) (es : List ε) : List ε := es.filter (owner · = i)

omit [DecidableEq ι] in
/-- An event can be done before others that are not its owner's. -/
theorem foldl_append_cons (h : Independent step owner) {e : ε} {front : List ε}
    (hfront : ∀ e' ∈ front, owner e' ≠ owner e) (s : σ) (rest : List ε) :
    (front ++ e :: rest).foldl step s = (e :: (front ++ rest)).foldl step s := by
  induction front generalizing s with
  | nil => rfl
  | cons e' front ih =>
    obtain ⟨hne, hfront⟩ := List.forall_mem_cons.mp hfront
    rw [List.cons_append, List.foldl_cons, ih hfront, List.foldl_cons, List.foldl_cons,
      List.cons_append, List.foldl_cons, h s e' e hne]

/-- **Interleavings of the same events** come out the same. -/
theorem foldl_eq_of_filter (h : Independent step owner) {es es' : List ε}
    (heq : ∀ i, eventsOf owner i es = eventsOf owner i es') (s : σ) :
    es.foldl step s = es'.foldl step s := by
  induction es generalizing es' s with
  | nil =>
    cases es' with
    | nil => rfl
    | cons e es' =>
      have hfirst := heq (owner e)
      rw [eventsOf, eventsOf, List.filter_nil, List.filter_cons_of_pos (by simp)] at hfirst
      cases hfirst
  | cons e es ih =>
    have hfirst := heq (owner e)
    rw [eventsOf, eventsOf, List.filter_cons_of_pos (by simp)] at hfirst
    -- the event is the first one of its owner in the other list as well
    obtain ⟨front, rest, rfl, hfront, he, hrest⟩ := List.filter_eq_cons_iff.mp hfirst.symm
    have hne : ∀ e' ∈ front, owner e' ≠ owner e := fun e' he' => by simpa using hfront e' he'
    rw [foldl_append_cons h hne, List.foldl_cons, List.foldl_cons]
    refine ih (fun i => ?_) _
    have hothers := heq i
    rw [eventsOf, eventsOf, List.filter_append] at hothers
    rw [eventsOf, eventsOf, List.filter_append]
    by_cases hi : owner e = i
    · subst hi
      have hnone : front.filter (owner · = owner e) = [] :=
        List.filter_eq_nil_iff.mpr fun e' he' => by simpa using hne e' he'
      rw [hnone, List.nil_append, ← hrest]
    · rwa [List.filter_cons_of_neg (by simpa using hi), List.filter_cons_of_neg (by simpa using hi)]
        at hothers

end Forte
