import Mathlib.Order.Lattice
import Mathlib.Data.Option.Basic

/-!
# Containers read and written one cell at a time

A container has cells at some of the integers, and writing a cell changes this one alone
(`Forte.Cells`). A transfer goes through a range of integers and hands the cells that two
containers have there to an operation, which puts something in place of both
(`Forte.Cells.transfer`). It comes to its end if all cells of the range exist and the operation
works on each pair (`Forte.Cells.exists_transfer`), and then it has changed each pair once and no
other cell (`Forte.Cells.transfer_spec`); an operation that only reads the second cell leaves
the second container as it is (`Forte.Cells.transfer_reading`).
-/

namespace Forte

/-- Containers `C` with cells of type `E` at integers. -/
class Cells (C : Type) (E : outParam Type) where
  /-- What is in a cell, if the container has it. -/
  cell : C → ℤ → Option E
  /-- The container with something else in a cell. -/
  put : C → ℤ → E → C
  put_cell : ∀ {c : C} {i : ℤ} {e : E}, cell c i = some e → put c i e = c
  cell_put_self : ∀ {c : C} {i : ℤ} {e : E} (e' : E), cell c i = some e →
    cell (put c i e') i = some e'
  cell_put_of_ne : ∀ (c : C) (e : E) {i j : ℤ}, j ≠ i → cell (put c i e) j = cell c j

namespace Cells

variable {C D E F : Type} [Cells C E] [Cells D F]

/-- The cells of two containers at `n` integers from `i` on, one after the other, given to an
operation and overwritten with what it makes of them. -/
def transfer (f : E → F → Option (E × F)) : ℕ → ℤ → C → D → Option (C × D)
  | 0, _, c, d => some (c, d)
  | n + 1, i, c, d => do
    let e ← cell c i
    let e' ← cell d i
    let r ← f e e'
    transfer f n (i + 1) (put c i r.1) (put d i r.2)

/-- An operation that only reads the second of the two cells. -/
def reading (f : E → F → Option E) (e : E) (e' : F) : Option (E × F) := (f e e').map (·, e')

variable {f : E → F → Option (E × F)} {n : ℕ} {i : ℤ} {c : C} {d : D} {r : C × D}

theorem reading_eq_some {g : E → F → Option E} {e : E} {e' : F} {p : E × F} :
    reading g e e' = some p ↔ g e e' = some p.1 ∧ p.2 = e' := by
  obtain ⟨p₁, p₂⟩ := p
  rw [reading, Option.map_eq_some_iff]
  constructor
  · rintro ⟨a, ha, ⟨⟩⟩
    exact ⟨ha, rfl⟩
  · rintro ⟨hp, rfl⟩
    exact ⟨p₁, hp, rfl⟩

/-- One step of a transfer. -/
theorem transfer_succ : transfer f (n + 1) i c d = some r ↔
    ∃ e e' p, cell c i = some e ∧ cell d i = some e' ∧ f e e' = some p ∧
      transfer f n (i + 1) (put c i p.1) (put d i p.2) = some r := by
  simp [transfer, Option.bind_eq_some_iff]

/-- **What a transfer keeps**, if writing a pair of cells keeps it. -/
theorem transfer_keeps {P : C → Prop} {Q : D → Prop}
    (hput : ∀ c d i e e' p, P c → Q d → cell c i = some e → cell d i = some e' →
      f e e' = some p → P (put c i p.1) ∧ Q (put d i p.2))
    (h : transfer f n i c d = some r) (hc : P c) (hd : Q d) : P r.1 ∧ Q r.2 := by
  induction n generalizing i c d with
  | zero =>
    obtain rfl := Option.some.inj h
    exact ⟨hc, hd⟩
  | succ n ih =>
    obtain ⟨e, e', p, he, he', hp, hrest⟩ := transfer_succ.mp h
    obtain ⟨hc', hd'⟩ := hput c d i e e' p hc hd he he' hp
    exact ih hrest hc' hd'

/-- An operation that only reads the second container leaves it as it is. -/
theorem transfer_reading {g : E → F → Option E} (h : transfer (reading g) n i c d = some r) :
    r.2 = d := by
  refine (transfer_keeps (P := fun _ : C => True) (Q := fun d' => d' = d) ?_ h trivial rfl).2
  rintro c d' i e e' p - rfl - he' hp
  obtain ⟨-, rfl⟩ := reading_eq_some.mp hp
  exact ⟨trivial, put_cell he'⟩

/-- **A transfer comes to its end** if both containers have all cells of the range and the
operation works on each pair of them. -/
theorem exists_transfer (h : ∀ j, i ≤ j → j < i + n → ∃ e e' p, cell c j = some e ∧
    cell d j = some e' ∧ f e e' = some p) : ∃ r, transfer f n i c d = some r := by
  induction n generalizing i c d with
  | zero => exact ⟨_, rfl⟩
  | succ n ih =>
    obtain ⟨e, e', p, he, he', hp⟩ := h i le_rfl (by omega)
    -- the cells behind the first are those the loop started with
    have hrest : ∀ j, i + 1 ≤ j → j < i + 1 + n → ∃ e e' q, cell (put c i p.1) j = some e ∧
        cell (put d i p.2) j = some e' ∧ f e e' = some q := by
      intro j hle hlt
      rw [cell_put_of_ne c p.1 (by omega), cell_put_of_ne d p.2 (by omega)]
      exact h j (by omega) (by omega)
    obtain ⟨r, hr⟩ := ih hrest
    exact ⟨r, transfer_succ.mpr ⟨e, e', p, he, he', hp, hr⟩⟩

/-- A transfer leaves the cells outside its range alone. -/
theorem cell_transfer_of_not (h : transfer f n i c d = some r) {j : ℤ}
    (hj : ¬(i ≤ j ∧ j < i + n)) : cell r.1 j = cell c j ∧ cell r.2 j = cell d j := by
  induction n generalizing i c d with
  | zero =>
    obtain rfl := Option.some.inj h
    exact ⟨rfl, rfl⟩
  | succ n ih =>
    obtain ⟨e, e', p, -, -, -, hrest⟩ := transfer_succ.mp h
    have hne : j ≠ i := by omega
    rw [← cell_put_of_ne c p.1 hne, ← cell_put_of_ne d p.2 hne]
    exact ih hrest (by omega)

/-- **A transfer changes each pair of cells of its range once.** -/
theorem transfer_spec (h : transfer f n i c d = some r) {j : ℤ} (hle : i ≤ j) (hlt : j < i + n) :
    ∃ e e' p, cell c j = some e ∧ cell d j = some e' ∧ f e e' = some p ∧
      cell r.1 j = some p.1 ∧ cell r.2 j = some p.2 := by
  induction n generalizing i c d with
  | zero => omega
  | succ n ih =>
    obtain ⟨e, e', p, he, he', hp, hrest⟩ := transfer_succ.mp h
    rcases hle.eq_or_lt with rfl | hlater
    · obtain ⟨hc, hd⟩ := cell_transfer_of_not hrest (j := i) (by omega)
      refine ⟨e, e', p, he, he', hp, ?_, ?_⟩
      · rw [hc, cell_put_self p.1 he]
      · rw [hd, cell_put_self p.2 he']
    · have hne : j ≠ i := by omega
      have hspec := ih hrest (by omega) (by omega)
      rwa [cell_put_of_ne c p.1 hne, cell_put_of_ne d p.2 hne] at hspec

end Cells

/-! ### Lists made one element at a time -/

section

variable {α β : Type} {f : α → Option β} {l : List α} {l' : List β}

theorem mapM_eq_some_iff : l.mapM f = some l' ↔ l.map f = l'.map some := by
  induction l generalizing l' with
  | nil => cases l' <;> simp
  | cons a l ih =>
    rw [List.mapM_cons, List.map_cons]
    rcases l' with - | ⟨b, l'⟩
    · rcases f a with - | b'
      · simp
      · rcases l.mapM f with - | l'' <;> simp
    · rw [List.map_cons, List.cons.injEq, ← ih]
      rcases f a with - | b'
      · simp
      · rcases l.mapM f with - | l'' <;> simp

theorem length_of_mapM (h : l.mapM f = some l') : l'.length = l.length := by
  have hlength := congrArg List.length (mapM_eq_some_iff.mp h)
  rw [List.length_map, List.length_map] at hlength
  exact hlength.symm

/-- Each of the elements is made of one. -/
theorem exists_of_mem_mapM (h : l.mapM f = some l') {b : β} (hb : b ∈ l') :
    ∃ a ∈ l, f a = some b := by
  have hmem : some b ∈ l.map f := by
    rw [mapM_eq_some_iff.mp h]
    exact List.mem_map_of_mem hb
  exact List.mem_map.mp hmem

end

end Forte
