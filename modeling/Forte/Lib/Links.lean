import Mathlib.Logic.Function.Basic

/-!
# Links stored at both of their ends

Two kinds of objects, each of which has room for a pointer to one of the other kind. The pointers
stand for a relation if two objects point to each other exactly when they are related
(`Forte.Links.Linked`). Joining two objects overwrites what they pointed to, so that the pointers
go on to stand for the relation exactly if neither was related to a third
(`Forte.Links.linked_join_iff`); parting them does exactly if they are no longer related
(`Forte.Links.linked_part_iff`).
-/

namespace Forte.Links

variable {α β : Type}

/-- An object is pointed to by what it points to. -/
def Mutual (f : α → Option β) (g : β → Option α) : Prop := ∀ a b, f a = some b ↔ g b = some a

/-- **The pointers stand for a relation.** -/
def Linked (f : α → Option β) (g : β → Option α) (R : α → β → Prop) : Prop :=
  ∀ a b, (f a = some b ∧ g b = some a) ↔ R a b

variable {f : α → Option β} {g : β → Option α} {R R' : α → β → Prop} {a : α} {b : β}

theorem Mutual.symm (h : Mutual f g) : Mutual g f := fun b a => (h a b).symm

theorem linked_symm : Linked f g R ↔ Linked g f fun b a => R a b :=
  ⟨fun h b a => and_comm.trans (h a b), fun h a b => and_comm.trans (h b a)⟩

theorem Linked.apply_iff (h : Linked f g R) (hm : Mutual f g) (a : α) (b : β) :
    f a = some b ↔ R a b := by
  rw [← h a b, ← hm a b, and_self]

theorem Linked.congr (hR : ∀ a b, R a b ↔ R' a b) : Linked f g R ↔ Linked f g R' :=
  forall₂_congr fun a b => iff_congr Iff.rfl (hR a b)

/-- An object that is related to nothing is not pointed to. -/
theorem Linked.ne_of_not (h : Linked f g R) (hm : Mutual f g) (hnone : ∀ b, ¬R a b) (b : β) :
    g b ≠ some a := by
  rw [Ne, ← hm a b, h.apply_iff hm]
  exact hnone b

variable [DecidableEq α] [DecidableEq β]

/-- **Joining two objects** is right if and only if neither is related to another one. -/
theorem linked_join_iff (h : Linked f g R) (hR : ∀ a' b', R' a' b' ↔ R a' b' ∨ a' = a ∧ b' = b) :
    Linked (Function.update f a (some b)) (Function.update g b (some a)) R' ↔
      (∀ b', R a b' → b' = b) ∧ ∀ a', R a' b → a' = a := by
  constructor
  · intro h'
    refine ⟨fun b' hb' => ?_, fun a' ha' => ?_⟩
    · obtain ⟨hf, -⟩ := (h' a b').mpr ((hR a b').mpr (.inl hb'))
      rw [Function.update_self] at hf
      exact (Option.some.inj hf).symm
    · obtain ⟨-, hg⟩ := (h' a' b).mpr ((hR a' b).mpr (.inl ha'))
      rw [Function.update_self] at hg
      exact (Option.some.inj hg).symm
  · rintro ⟨hright, hleft⟩ a' b'
    rw [hR a' b']
    rcases eq_or_ne a' a with rfl | ha
    · rcases eq_or_ne b' b with rfl | hb
      · rw [Function.update_self, Function.update_self]
        exact iff_of_true ⟨rfl, rfl⟩ (.inr ⟨rfl, rfl⟩)
      · rw [Function.update_self]
        refine iff_of_false ?_ ?_
        · rintro ⟨hsome, -⟩
          exact hb (Option.some.inj hsome).symm
        · rintro (hold | ⟨-, heq⟩)
          · exact hb (hright b' hold)
          · exact hb heq
    · rcases eq_or_ne b' b with rfl | hb
      · rw [Function.update_self]
        refine iff_of_false ?_ ?_
        · rintro ⟨-, hsome⟩
          exact ha (Option.some.inj hsome).symm
        · rintro (hold | ⟨heq, -⟩)
          · exact ha (hleft a' hold)
          · exact ha heq
      · rw [Function.update_of_ne ha, Function.update_of_ne hb, h a' b']
        exact (or_iff_left fun hnew => ha hnew.1).symm

theorem Mutual.join (hm : Mutual f g) (h : Linked f g R) (hright : ∀ b', R a b' → b' = b)
    (hleft : ∀ a', R a' b → a' = a) :
    Mutual (Function.update f a (some b)) (Function.update g b (some a)) := by
  intro a' b'
  rcases eq_or_ne a' a with rfl | ha
  · rcases eq_or_ne b' b with rfl | hb
    · rw [Function.update_self, Function.update_self]
      exact iff_of_true rfl rfl
    · rw [Function.update_self, Function.update_of_ne hb]
      refine iff_of_false (fun hsome => hb (Option.some.inj hsome).symm) fun hsome => ?_
      exact hb (hright b' ((h.apply_iff hm a' b').mp ((hm a' b').mpr hsome)))
  · rcases eq_or_ne b' b with rfl | hb
    · rw [Function.update_self, Function.update_of_ne ha]
      refine iff_of_false (fun hsome => ?_) fun hsome => ha (Option.some.inj hsome).symm
      exact ha (hleft a' ((h.apply_iff hm a' b').mp hsome))
    · rw [Function.update_of_ne ha, Function.update_of_ne hb]
      exact hm a' b'

/-- **Parting two objects** is right if and only if they are no longer related. -/
theorem linked_part_iff (h : Linked f g R) (hm : Mutual f g) (hab : R a b)
    (hR : ∀ a' b', R' a' b' → R a' b')
    (hother : ∀ a' b', R a' b' → R' a' b' ∨ a' = a ∧ b' = b) :
    Linked (Function.update f a none) (Function.update g b none) R' ↔ ¬R' a b := by
  constructor
  · intro h' hrelated
    obtain ⟨hf, -⟩ := (h' a b).mpr hrelated
    rw [Function.update_self] at hf
    exact Option.some_ne_none b hf.symm
  · intro hnot a' b'
    have hf := (h.apply_iff hm a b).mpr hab
    have hg := (hm a b).mp hf
    rcases eq_or_ne a' a with rfl | ha
    · rw [Function.update_self]
      refine iff_of_false (fun hand => Option.some_ne_none b' hand.1.symm) fun hrelated => ?_
      have heq := (h.apply_iff hm a' b').mpr (hR a' b' hrelated)
      rw [hf] at heq
      rw [← Option.some.inj heq] at hrelated
      exact hnot hrelated
    · rcases eq_or_ne b' b with rfl | hb
      · rw [Function.update_self]
        refine iff_of_false (fun hand => Option.some_ne_none a' hand.2.symm) fun hrelated => ?_
        have heq := (hm a' b').mp ((h.apply_iff hm a' b').mpr (hR a' b' hrelated))
        rw [hg] at heq
        exact ha (Option.some.inj heq).symm
      · rw [Function.update_of_ne ha, Function.update_of_ne hb, h a' b']
        refine ⟨fun hold => ?_, hR a' b'⟩
        exact (hother a' b' hold).resolve_right fun heq => ha heq.1

theorem Mutual.part (hm : Mutual f g) (hf : f a = some b) :
    Mutual (Function.update f a none) (Function.update g b none) := by
  have hg := (hm a b).mp hf
  intro a' b'
  rcases eq_or_ne a' a with rfl | ha
  · rw [Function.update_self]
    refine iff_of_false (fun hsome => Option.some_ne_none b' hsome.symm) fun hsome => ?_
    rcases eq_or_ne b' b with rfl | hb
    · rw [Function.update_self] at hsome
      exact Option.some_ne_none a' hsome.symm
    · rw [Function.update_of_ne hb, ← hm a' b', hf] at hsome
      exact hb (Option.some.inj hsome).symm
  · rcases eq_or_ne b' b with rfl | hb
    · rw [Function.update_self, Function.update_of_ne ha]
      refine iff_of_false (fun hsome => ?_) fun hsome => Option.some_ne_none a' hsome.symm
      rw [hm a' b', hg] at hsome
      exact ha (Option.some.inj hsome).symm
    · rw [Function.update_of_ne ha, Function.update_of_ne hb]
      exact hm a' b'

end Forte.Links
