import Mathlib.Data.List.Basic

/-!
# Computations with a log

A computation that may end without a result and that logs what it does on the way, in the order in
which it does it. What has been logged before a computation ends without a result stays logged.
-/

namespace Forte

/-- A computation that logs. -/
structure Logged (ε α : Type) where
  /-- What the computation has done. -/
  log : List ε
  /-- What it has come to, if anything. -/
  result : Option α

namespace Logged

variable {ε α β : Type}

instance : Monad (Logged ε) where
  pure a := ⟨[], some a⟩
  bind x f :=
    match x.result with
    | none => ⟨x.log, none⟩
    | some a => ⟨x.log ++ (f a).log, (f a).result⟩

/-- A computation that ends here. -/
def stop : Logged ε α := ⟨[], none⟩

/-- A result, or none, without anything logged. -/
def ofOption (r : Option α) : Logged ε α := ⟨[], r⟩

/-- All that is logged has the property. -/
def Each (x : Logged ε α) (P : ε → Prop) : Prop := ∀ e ∈ x.log, P e

variable {P : ε → Prop} {x : Logged ε α} {f : α → Logged ε β}

@[simp]
theorem each_pure (a : α) : (pure a : Logged ε α).Each P := fun _ h => absurd h List.not_mem_nil

@[simp]
theorem each_stop : (stop : Logged ε α).Each P := fun _ h => absurd h List.not_mem_nil

@[simp]
theorem each_ofOption (r : Option α) : (ofOption r : Logged ε α).Each P :=
  fun _ h => absurd h List.not_mem_nil

@[simp]
theorem result_pure (a : α) : (pure a : Logged ε α).result = some a := rfl

@[simp]
theorem result_stop : (stop : Logged ε α).result = none := rfl

@[simp]
theorem result_ofOption (r : Option α) : (ofOption r : Logged ε α).result = r := rfl

@[simp]
theorem result_bind : (x >>= f).result = x.result.bind fun a => (f a).result := by
  change (match x.result with
    | none => (⟨x.log, none⟩ : Logged ε β)
    | some a => ⟨x.log ++ (f a).log, (f a).result⟩).result = _
  cases x.result <;> rfl

/-- What is logged by one computation and then another. -/
theorem mem_log_bind {e : ε} :
    e ∈ (x >>= f).log ↔ e ∈ x.log ∨ ∃ a, x.result = some a ∧ e ∈ (f a).log := by
  change e ∈ (match x.result with
    | none => (⟨x.log, none⟩ : Logged ε β)
    | some a => ⟨x.log ++ (f a).log, (f a).result⟩).log ↔ _
  cases hx : x.result with
  | none => exact ⟨.inl, fun h => h.elim id fun ⟨_, ha, _⟩ => absurd ha nofun⟩
  | some a =>
    dsimp only
    rw [List.mem_append]
    refine or_congr_right ⟨fun h => ⟨a, rfl, h⟩, ?_⟩
    rintro ⟨b, hb, h⟩
    rwa [Option.some.inj hb]

/-- **A property of all that is logged** goes through a sequence of computations. -/
theorem each_bind : (x >>= f).Each P ↔ x.Each P ∧ ∀ a, x.result = some a → (f a).Each P := by
  constructor
  · exact fun h => ⟨fun e he => h e (mem_log_bind.mpr (.inl he)),
      fun a ha e he => h e (mem_log_bind.mpr (.inr ⟨a, ha, he⟩))⟩
  · rintro ⟨hx, hf⟩ e he
    rcases mem_log_bind.mp he with he | ⟨a, ha, he⟩
    · exact hx e he
    · exact hf a ha e he

end Logged

end Forte
