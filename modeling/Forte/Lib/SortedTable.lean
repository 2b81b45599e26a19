import Mathlib.Order.Lattice
import Mathlib.Data.List.TakeWhile
import Mathlib.Tactic.Tauto
import Mathlib.Data.Option.Basic

/-!
# Tables kept sorted by a key

A table is a list of entries that is sorted strictly by a key, so that it has at most one
entry for a key. Every operation begins with a search for the lower bound of a key, the place
of the first entry that is not below it, and looks at the entry there: the entry is the one
for the key, or there is none. On a sorted table the operations do to the entries what their
names say (`Forte.Table.find?_eq_some`, `Forte.Table.mem_insertAbsent`,
`Forte.Table.mem_modify`, `Forte.Table.mem_erase`).
-/

namespace Forte

namespace Table

variable {α κ : Type} [LinearOrder κ] (key : α → κ)

/-- Sorted strictly by the key. -/
def Sorted (l : List α) : Prop := l.Pairwise fun a b => key a < key b

/-- The entries before the lower bound of `k`. -/
def below (k : κ) (l : List α) : List α := l.takeWhile fun a => key a < k

/-- The entries from the lower bound of `k` on. -/
def onward (k : κ) (l : List α) : List α := l.dropWhile fun a => key a < k

/-- The entry at the lower bound of `k`, if it is the one for `k`. -/
def find? (k : κ) (l : List α) : Option α :=
  (onward key k l).head?.filter fun a => decide (key a = k)

/-- The entry is inserted at the lower bound of its key, unless there is one for it. -/
def insertAbsent (a : α) (l : List α) : List α :=
  match find? key (key a) l with
  | some _ => l
  | none => below key (key a) l ++ a :: onward key (key a) l

/-- The entry at the lower bound of `k` is changed, if it is the one for `k`. -/
def modify (k : κ) (f : α → α) (l : List α) : List α :=
  match find? key k l with
  | some a => below key k l ++ f a :: (onward key k l).tail
  | none => l

/-- The entry at the lower bound of `k` is erased, if it is the one for `k`. -/
def erase (k : κ) (l : List α) : List α :=
  match find? key k l with
  | some _ => below key k l ++ (onward key k l).tail
  | none => l

theorem below_append_onward (k : κ) (l : List α) : below key k l ++ onward key k l = l :=
  List.takeWhile_append_dropWhile

theorem mem_iff_below_or_onward (k : κ) (l : List α) (a : α) :
    a ∈ l ↔ a ∈ below key k l ∨ a ∈ onward key k l := by
  rw [← List.mem_append, below_append_onward]

variable {key} {k : κ} {l : List α}

theorem key_lt_of_mem_below {a : α} (h : a ∈ below key k l) : key a < k :=
  of_decide_eq_true (List.mem_takeWhile_imp (p := fun a => decide (key a < k)) h)

theorem sorted_onward (h : Sorted key l) : Sorted key (onward key k l) :=
  List.Pairwise.sublist (List.dropWhile_sublist _) h

/-- The entry at a lower bound is not below it, and the others are behind it. -/
theorem Sorted.of_onward_eq_cons (h : Sorted key l) {a : α} {rest : List α}
    (heq : onward key k l = a :: rest) : k ≤ key a ∧ ∀ b ∈ rest, key a < key b := by
  constructor
  · have hhead := List.head?_dropWhile_not (fun a => decide (key a < k)) l
    rw [show l.dropWhile (fun a => decide (key a < k)) = a :: rest from heq] at hhead
    simpa using hhead
  · exact (List.pairwise_cons.mp (heq ▸ (sorted_onward h))).1

/-- **The search finds the entry for a key**, and only that. -/
theorem find?_eq_some (h : Sorted key l) {a : α} :
    find? key k l = some a ↔ a ∈ l ∧ key a = k := by
  constructor
  · intro hfind
    obtain ⟨hhead, hkey⟩ := Option.filter_eq_some_iff.mp hfind
    refine ⟨?_, of_decide_eq_true hkey⟩
    rw [← below_append_onward key k l]
    exact List.mem_append_right _ (List.mem_of_mem_head? hhead)
  · rintro ⟨hmem, hkey⟩
    rw [← below_append_onward key k l] at hmem
    rcases List.mem_append.mp hmem with hbelow | honward
    · exact absurd hkey (key_lt_of_mem_below hbelow).ne
    · cases heq : onward key k l with
      | nil =>
        rw [heq] at honward
        exact absurd honward List.not_mem_nil
      | cons b rest =>
        obtain ⟨hle, hrest⟩ := h.of_onward_eq_cons heq
        rw [heq] at honward
        rcases List.mem_cons.mp honward with rfl | hmem
        · rw [find?, heq]
          exact Option.filter_eq_some_iff.mpr ⟨rfl, decide_eq_true hkey⟩
        · exact absurd (hkey ▸ hrest a hmem) hle.not_gt

/-- There is one entry for a key. -/
theorem Sorted.eq_of_key (h : Sorted key l) {a b : α} (ha : a ∈ l) (hb : b ∈ l)
    (hkey : key a = key b) : a = b := by
  have hfind := (find?_eq_some h).mpr ⟨ha, hkey⟩
  exact Option.some.inj (hfind.symm.trans ((find?_eq_some h).mpr ⟨hb, rfl⟩))

theorem find?_eq_none (h : Sorted key l) : find? key k l = none ↔ ∀ a ∈ l, key a ≠ k := by
  constructor
  · intro hnone a ha hkey
    exact absurd (hnone.symm.trans ((find?_eq_some h).mpr ⟨ha, hkey⟩)) nofun
  · intro hall
    cases hfind : find? key k l with
    | none => rfl
    | some a =>
      obtain ⟨ha, hkey⟩ := (find?_eq_some h).mp hfind
      exact absurd hkey (hall a ha)

/-- Around the entry that was found. -/
theorem Sorted.exists_of_find? (h : Sorted key l) {a : α} (hfind : find? key k l = some a) :
    ∃ rest, onward key k l = a :: rest ∧ key a = k ∧ (∀ b ∈ below key k l, key b < k) ∧
      ∀ b ∈ rest, k < key b := by
  obtain ⟨hhead, hkey⟩ := Option.filter_eq_some_iff.mp hfind
  obtain ⟨rest, heq⟩ := List.head?_eq_some_iff.mp hhead
  replace hkey := of_decide_eq_true hkey
  exact ⟨rest, heq, hkey, fun b hb => key_lt_of_mem_below hb,
    fun b hb => hkey ▸ (h.of_onward_eq_cons heq).2 b hb⟩

theorem mem_insertAbsent (h : Sorted key l) {a b : α} :
    b ∈ insertAbsent key a l ↔ b ∈ l ∨ (b = a ∧ ∀ c ∈ l, key c ≠ key a) := by
  unfold insertAbsent
  split
  · rename_i c hfind
    obtain ⟨hc, hkey⟩ := (find?_eq_some h).mp hfind
    exact (or_iff_left fun hall => hall.2 c hc hkey).symm
  · rename_i hnone
    rw [and_iff_left ((find?_eq_none h).mp hnone), List.mem_append, List.mem_cons,
      mem_iff_below_or_onward key (key a) l]
    tauto

theorem insertAbsent_of_mem (h : Sorted key l) {a b : α} (hb : b ∈ l) (hkey : key b = key a) :
    insertAbsent key a l = l := by
  rw [insertAbsent, (find?_eq_some h).mpr ⟨hb, hkey⟩]

theorem insertAbsent_ne_nil (a : α) (l : List α) : insertAbsent key a l ≠ [] := by
  unfold insertAbsent
  split
  · rename_i c hfind
    rintro rfl
    exact absurd hfind nofun
  · exact List.append_ne_nil_of_right_ne_nil _ (List.cons_ne_nil _ _)

theorem mem_modify (h : Sorted key l) {f : α → α} {b : α} :
    b ∈ modify key k f l ↔ (b ∈ l ∧ key b ≠ k) ∨ ∃ a ∈ l, key a = k ∧ b = f a := by
  unfold modify
  split
  · rename_i a hfind
    obtain ⟨ha, -⟩ := (find?_eq_some h).mp hfind
    obtain ⟨rest, heq, hkey, hbelow, hrest⟩ := h.exists_of_find? hfind
    -- the entry of the key stands between those below and those beyond
    have hmem (b : α) : b ∈ l ↔ b ∈ below key k l ∨ b = a ∨ b ∈ rest := by
      rw [mem_iff_below_or_onward key k l, heq, List.mem_cons]
    rw [heq, List.tail_cons, List.mem_append, List.mem_cons]
    constructor
    · rintro (hb | rfl | hb)
      · exact .inl ⟨(hmem b).mpr (.inl hb), (hbelow b hb).ne⟩
      · exact .inr ⟨a, ha, hkey, rfl⟩
      · exact .inl ⟨(hmem b).mpr (.inr (.inr hb)), (hrest b hb).ne'⟩
    · rintro (⟨hb, hne⟩ | ⟨c, hc, hkeyc, rfl⟩)
      · rcases (hmem b).mp hb with hb | rfl | hb
        · exact .inl hb
        · exact absurd hkey hne
        · exact .inr (.inr hb)
      · have hsome := (find?_eq_some h).mpr ⟨hc, hkeyc⟩
        rw [hfind] at hsome
        rw [← Option.some.inj hsome]
        exact .inr (.inl rfl)
  · rename_i hnone
    have hall := (find?_eq_none h).mp hnone
    constructor
    · exact fun hb => .inl ⟨hb, hall b hb⟩
    · rintro (⟨hb, -⟩ | ⟨a, ha, hkey, -⟩)
      · exact hb
      · exact absurd hkey (hall a ha)

theorem mem_erase (h : Sorted key l) {b : α} : b ∈ erase key k l ↔ b ∈ l ∧ key b ≠ k := by
  unfold erase
  split
  · rename_i a hfind
    obtain ⟨rest, heq, hkey, hbelow, hrest⟩ := h.exists_of_find? hfind
    rw [mem_iff_below_or_onward key k l, heq, List.tail_cons, List.mem_append, List.mem_cons]
    constructor
    · rintro (hb | hb)
      · exact ⟨.inl hb, (hbelow b hb).ne⟩
      · exact ⟨.inr (.inr hb), (hrest b hb).ne'⟩
    · rintro ⟨hb | rfl | hb, hne⟩
      · exact .inl hb
      · exact absurd hkey hne
      · exact .inr hb
  · rename_i hnone
    exact (and_iff_left_of_imp fun hb => (find?_eq_none h).mp hnone b hb).symm

theorem Sorted.insertAbsent (h : Sorted key l) (a : α) : Sorted key (insertAbsent key a l) := by
  unfold Table.insertAbsent
  split
  · exact h
  · rename_i hnone
    have hall := (find?_eq_none h).mp hnone
    -- from the place found on every key is greater, since none is the same
    have hbeyond : ∀ b ∈ onward key (key a) l, key a < key b := by
      intro b hb
      have hne := hall b ((List.dropWhile_sublist _).subset hb)
      refine lt_of_le_of_ne ?_ hne.symm
      cases heq : onward key (key a) l with
      | nil =>
        rw [heq] at hb
        exact absurd hb List.not_mem_nil
      | cons c rest =>
        obtain ⟨hle, hrest⟩ := h.of_onward_eq_cons heq
        rw [heq] at hb
        rcases List.mem_cons.mp hb with rfl | hb
        · exact hle
        · exact hle.trans (hrest b hb).le
    refine List.pairwise_append.mpr ⟨List.Pairwise.sublist (List.takeWhile_sublist _) h,
      List.pairwise_cons.mpr ⟨hbeyond, (sorted_onward h)⟩, ?_⟩
    intro b hb c hc
    have hba := key_lt_of_mem_below hb
    rcases List.mem_cons.mp hc with rfl | hc
    · exact hba
    · exact hba.trans (hbeyond c hc)

theorem Sorted.modify (h : Sorted key l) {f : α → α} (hf : ∀ a ∈ l, key a = k → key (f a) = k) :
    Sorted key (modify key k f l) := by
  unfold Table.modify
  split
  · rename_i a hfind
    obtain ⟨rest, heq, hkey, hbelow, hrest⟩ := h.exists_of_find? hfind
    have hfa := hf a ((find?_eq_some h).mp hfind).1 hkey
    have hl : Sorted key (below key k l ++ a :: rest) := by
      rw [← heq, below_append_onward]
      exact h
    obtain ⟨hfirst, hlast, hacross⟩ := List.pairwise_append.mp hl
    obtain ⟨hhead, htail⟩ := List.pairwise_cons.mp hlast
    rw [heq, List.tail_cons]
    refine List.pairwise_append.mpr ⟨hfirst, List.pairwise_cons.mpr ⟨?_, htail⟩, ?_⟩
    · intro b hb
      rw [hfa]
      exact hrest b hb
    · intro b hb c hc
      rcases List.mem_cons.mp hc with rfl | hc
      · rw [hfa]
        exact hbelow b hb
      · exact hacross b hb c (List.mem_cons_of_mem _ hc)
  · exact h

theorem Sorted.erase (h : Sorted key l) : Sorted key (erase key k l) := by
  unfold Table.erase
  split
  · rename_i a hfind
    have hsub : (below key k l ++ (onward key k l).tail).Sublist l := by
      have := (List.tail_sublist (onward key k l)).append_left (below key k l)
      rwa [below_append_onward] at this
    exact List.Pairwise.sublist hsub h
  · exact h

/-- What is found after an insertion: the entry that was there, or else the new one. -/
theorem find?_insertAbsent (h : Sorted key l) (a : α) (k : κ) :
    find? key k (Table.insertAbsent key a l) =
      (find? key k l).or (if key a = k then some a else none) := by
  refine Option.ext fun b => ?_
  rw [find?_eq_some (h.insertAbsent a), mem_insertAbsent h, Option.or_eq_some_iff, find?_eq_some h,
    find?_eq_none h, Option.ite_none_right_eq_some, Option.some_inj]
  constructor
  · rintro ⟨hb | ⟨rfl, hnew⟩, rfl⟩
    · exact .inl ⟨hb, rfl⟩
    · exact .inr ⟨hnew, rfl, rfl⟩
  · rintro (⟨hb, hkey⟩ | ⟨hnew, rfl, rfl⟩)
    · exact ⟨.inl hb, hkey⟩
    · exact ⟨.inr ⟨rfl, hnew⟩, rfl⟩

end Table

end Forte
