import Mathlib.Data.List.Infix
import Mathlib.Data.Nat.Find

/-!
# Strings in a block of memory

A C function over strings is handed a pointer and reads until it meets a terminator. In a block of
memory there may be none, and then it runs off the end of the block: a program over a block has no
result in that case (`Forte.Mem`).

A program that stays within a block does the same with anything behind the block, and leaves that
as it is: it is *local* (`Forte.Local`). All programs are that are put together from reads and
writes at positions of the block, and so what such a program returns can only depend on the block
if it has a result there.
-/

namespace Forte

/-- A program over a block of memory, without a result if it leaves the block. -/
abbrev Mem (β α : Type) : Type := StateT (List β) Option α

variable {β α γ : Type}

/-- **What is done within a block** is done with anything behind it as well. -/
def Local (x : Mem β α) : Prop :=
  ∀ ⦃m a m'⦄, x.run m = some (a, m') → ∀ rest, x.run (m ++ rest) = some (a, m' ++ rest)

namespace Mem

/-- What the memory from a position on is read for. -/
def scan (f : List β → Option α) (pos : ℕ) : Mem β α := fun m => (f (m.drop pos)).map (·, m)

/-- What the memory in front of a position is read for, backwards down to a first position. -/
def scanBack (f : List β → Option α) (first pos : ℕ) : Mem β α :=
  fun m => (f ((m.take pos).drop first).reverse).map (·, m)

/-- A program that is run from a position on. -/
def within (x : Mem β α) (pos : ℕ) : Mem β α := fun m =>
  if pos ≤ m.length then (x.run (m.drop pos)).map fun (a, m') => (a, m.take pos ++ m') else none

/-- A write. -/
def write (pos : ℕ) (c : β) : Mem β Unit :=
  fun m => if pos < m.length then some ((), m.set pos c) else none

theorem run_scan (f : List β → Option α) (pos : ℕ) (m : List β) :
    (scan f pos).run m = (f (m.drop pos)).map (·, m) :=
  rfl

theorem run_within {pos : ℕ} {m : List β} (h : pos ≤ m.length) (x : Mem β α) :
    (within x pos).run m = (x.run (m.drop pos)).map fun (a, m') => (a, m.take pos ++ m') :=
  if_pos h

theorem run_write {pos : ℕ} {m : List β} (h : pos < m.length) (c : β) :
    (write pos c).run m = some ((), m.set pos c) :=
  if_pos h

/-- A part that has a result is followed by the rest of the program. -/
theorem run_bind_of_eq_some {x : Mem β α} {m : List β} {a : α} {m' : List β}
    (h : x.run m = some (a, m')) (g : α → Mem β γ) : (x >>= g).run m = (g a).run m' := by
  rw [StateT.run_bind, h]
  rfl

theorem run_bind_of_eq_none {x : Mem β α} {m : List β} (h : x.run m = none) (g : α → Mem β γ) :
    (x >>= g).run m = none := by
  rw [StateT.run_bind, h]
  rfl

theorem run_scan_bind {f : List β → Option α} {pos : ℕ} {m : List β} {a : α}
    (h : f (m.drop pos) = some a) (g : α → Mem β γ) :
    (scan f pos >>= g).run m = (g a).run m :=
  run_bind_of_eq_some (by rw [run_scan, h]; rfl) g

theorem run_scan_bind_eq_none {f : List β → Option α} {pos : ℕ} {m : List β}
    (h : f (m.drop pos) = none) (g : α → Mem β γ) : (scan f pos >>= g).run m = none :=
  run_bind_of_eq_none (by rw [run_scan, h]; rfl) g

/-- A read from the beginning on. -/
theorem run_scan_zero_bind {f : List β → Option α} {m : List β} {a : α} (h : f m = some a)
    (g : α → Mem β γ) : (scan f 0 >>= g).run m = (g a).run m :=
  run_scan_bind h g

theorem run_scan_zero_bind_eq_none {f : List β → Option α} {m : List β} (h : f m = none)
    (g : α → Mem β γ) : (scan f 0 >>= g).run m = none :=
  run_scan_bind_eq_none h g

theorem run_scanBack (f : List β → Option α) (first pos : ℕ) (m : List β) :
    (scanBack f first pos).run m = (f ((m.take pos).drop first).reverse).map (·, m) :=
  rfl

theorem run_scanBack_bind {f : List β → Option α} {first pos : ℕ} {m : List β} {a : α}
    (h : f ((m.take pos).drop first).reverse = some a) (g : α → Mem β γ) :
    (scanBack f first pos >>= g).run m = (g a).run m :=
  run_bind_of_eq_some (by rw [run_scanBack, h]; rfl) g

theorem run_write_bind {pos : ℕ} {m : List β} (h : pos < m.length) (c : β)
    (g : Unit → Mem β γ) : (write pos c >>= g).run m = (g ()).run (m.set pos c) :=
  run_bind_of_eq_some (run_write h c) g

end Mem

/-! ### Local programs -/

theorem Local.pure (a : α) : Local (pure a : Mem β α) := by
  rintro m _ _ h rest
  obtain ⟨rfl, rfl⟩ := Prod.mk.inj (Option.some.inj h)
  rfl

theorem Local.bind {x : Mem β α} {f : α → Mem β γ} (hx : Local x) (hf : ∀ a, Local (f a)) :
    Local (x >>= f) := by
  intro m c m'' h rest
  rw [StateT.run_bind] at h ⊢
  obtain ⟨⟨a, m'⟩, ha, hc⟩ := Option.bind_eq_some_iff.mp h
  rw [hx ha rest]
  exact hf a hc rest

theorem Local.ite {p : Prop} [Decidable p] {x y : Mem β α} (hx : Local x) (hy : Local y) :
    Local (if p then x else y) := by
  split
  · exact hx
  · exact hy

theorem Local.scan {f : List β → Option α}
    (hf : ∀ ⦃t a⦄, f t = some a → ∀ rest, f (t ++ rest) = some a) (pos : ℕ) :
    Local (Mem.scan f pos) := by
  intro m a m' h rest
  rw [Mem.run_scan] at h ⊢
  obtain ⟨b, hb, heq⟩ := Option.map_eq_some_iff.mp h
  obtain ⟨rfl, rfl⟩ := Prod.mk.inj heq
  rw [List.drop_append, hf hb]
  rfl

theorem Local.within {x : Mem β α} (hx : Local x) (pos : ℕ) : Local (Mem.within x pos) := by
  intro m a m' h rest
  by_cases hpos : pos ≤ m.length
  · rw [Mem.run_within hpos] at h
    obtain ⟨⟨b, t⟩, hb, heq⟩ := Option.map_eq_some_iff.mp h
    obtain ⟨rfl, rfl⟩ := Prod.mk.inj heq
    rw [Mem.run_within (by rw [List.length_append]; omega), List.drop_append_of_le_length hpos,
      hx hb, List.take_append_of_le_length hpos]
    exact congrArg (fun t => some (b, t)) (List.append_assoc _ _ _).symm
  · exact absurd (h.symm.trans (if_neg hpos)) nofun

theorem Local.write (pos : ℕ) (c : β) : Local (Mem.write pos c) := by
  rintro m ⟨⟩ m' h rest
  change (if pos < m.length then some ((), m.set pos c) else none) = some ((), m') at h
  split at h
  · rename_i hpos
    obtain rfl := (Prod.mk.inj (Option.some.inj h)).2
    rw [Mem.run_write (by rw [List.length_append]; omega), List.set_append_left _ _ hpos]
  · exact absurd h nofun

/-! ### Strings -/

namespace CString

section

variable [DecidableEq β] (nul : β)

/-- How many characters of a kind come before one that is not of this kind. -/
def advance (p : β → Bool) : List β → Option ℕ
  | [] => none
  | c :: m => if p c then (advance p m).map (· + 1) else some 0

omit [DecidableEq β] in
theorem advance_append {p : β → Bool} {t rest : List β} (ht : ∀ c ∈ t, p c = true)
    (hrest : ∃ c, rest.head? = some c ∧ p c = false) : advance p (t ++ rest) = some t.length := by
  induction t with
  | nil =>
    obtain ⟨c, hc, hp⟩ := hrest
    obtain ⟨tail, rfl⟩ := List.head?_eq_some_iff.mp hc
    exact if_neg (by simp [hp])
  | cons c t ih =>
    rw [List.forall_mem_cons] at ht
    rw [List.cons_append, advance, if_pos ht.1, ih ht.2]
    rfl

/-- `strncmp`, with all characters of a word: whether the memory starts with it. -/
def startsWith : List β → List β → Option Bool
  | [], _ => some true
  | _ :: _, [] => none
  | d :: word, c :: m => if c = d then startsWith word m else some false

/-- `strstr`, with the distance of the word that has been found. -/
def strstr (word : List β) : List β → Option (Option ℕ)
  | [] => none
  | c :: m =>
    match startsWith word (c :: m) with
    | none => none
    | some true => some (some 0)
    | some false =>
      if c = nul then some none else (strstr word m).map fun found => found.map (· + 1)

/-- The string that begins where a pointer points to. -/
def string : List β → Option (List β)
  | [] => none
  | c :: m => if c = nul then some [] else (string m).map (c :: ·)

end

section

variable [DecidableEq β] {nul : β} {word : List β}

theorem startsWith_eq_true_iff {t : List β} : startsWith word t = some true ↔ word <+: t := by
  induction word generalizing t with
  | nil => exact iff_of_true rfl List.nil_prefix
  | cons d word ih =>
    cases t with
    | nil => exact iff_of_false nofun fun h => List.cons_ne_nil _ _ (List.prefix_nil.mp h)
    | cons c t =>
      rw [startsWith, List.cons_prefix_cons]
      split
      · rename_i heq
        rw [ih, and_iff_right heq.symm]
      · rename_i hne
        exact iff_of_false nofun fun h => hne h.1.symm

/-- The comparison runs off the block exactly at a beginning of the word. -/
theorem startsWith_eq_none_iff {t : List β} :
    startsWith word t = none ↔ t <+: word ∧ t ≠ word := by
  induction word generalizing t with
  | nil => exact iff_of_false nofun fun h => h.2 (List.prefix_nil.mp h.1)
  | cons d word ih =>
    cases t with
    | nil => exact iff_of_true rfl ⟨List.nil_prefix, (List.cons_ne_nil _ _).symm⟩
    | cons c t =>
      rw [startsWith, List.cons_prefix_cons, Ne, List.cons.injEq]
      split
      · rename_i heq
        rw [ih, and_iff_right heq, and_iff_right heq]
      · rename_i hne
        exact iff_of_false nofun fun h => hne h.1.1

theorem startsWith_eq_false_iff {t : List β} :
    startsWith word t = some false ↔ ¬t <+: word ∧ ¬word <+: t := by
  constructor
  · intro h
    have hnot : ¬word <+: t := fun hpre =>
      nomatch h.symm.trans (startsWith_eq_true_iff.mpr hpre)
    refine ⟨fun hpre => ?_, hnot⟩
    have hne : t ≠ word := fun heq => hnot (heq ▸ List.prefix_rfl)
    exact nomatch h.symm.trans (startsWith_eq_none_iff.mpr ⟨hpre, hne⟩)
  · rintro ⟨hpre, hnot⟩
    rcases h : startsWith word t with _ | _ | _
    · exact absurd (startsWith_eq_none_iff.mp h).1 hpre
    · rfl
    · exact absurd (startsWith_eq_true_iff.mp h) hnot

theorem startsWith_append {t : List β} {b : Bool} (h : startsWith word t = some b)
    (rest : List β) : startsWith word (t ++ rest) = some b := by
  induction word generalizing t with
  | nil => exact h
  | cons d word ih =>
    cases t with
    | nil => exact absurd h nofun
    | cons c t =>
      rw [startsWith] at h
      rw [List.cons_append, startsWith]
      split at h
      · rename_i heq
        rw [if_pos heq]
        exact ih h
      · rename_i hne
        rw [if_neg hne]
        exact h

/-- **The search runs off the block** exactly where neither the word nor a terminator is in it. -/
theorem strstr_eq_none_iff (hword : word ≠ []) (hnul : nul ∉ word) {t : List β} :
    strstr nul word t = none ↔ nul ∉ t ∧ ∀ j, ¬word <+: t.drop j := by
  induction t with
  | nil =>
    refine iff_of_true rfl ⟨List.not_mem_nil, fun j h => hword ?_⟩
    rwa [List.drop_nil, List.prefix_nil] at h
  | cons c t ih =>
    rw [strstr]
    rcases hstart : startsWith word (c :: t) with _ | _ | _
    · obtain ⟨hpre, hne⟩ := startsWith_eq_none_iff.mp hstart
      refine iff_of_true rfl ⟨fun h => hnul (hpre.subset h), fun j h => hne ?_⟩
      refine hpre.eq_of_length_le (h.length_le.trans ?_)
      rw [List.length_drop]
      omega
    · have hnot : ¬word <+: c :: t := fun h =>
        nomatch hstart.symm.trans (startsWith_eq_true_iff.mpr h)
      dsimp only
      split
      · rename_i heq
        exact iff_of_false nofun fun h => h.1 (heq ▸ List.mem_cons_self)
      · rename_i hne
        rw [Option.map_eq_none_iff, ih, List.mem_cons, not_or, and_iff_right (Ne.symm hne)]
        refine and_congr_right fun _ => ⟨fun h j => ?_, fun h j => h (j + 1)⟩
        cases j with
        | zero => exact hnot
        | succ j => exact h j
    · exact iff_of_false nofun fun h => h.2 0 (startsWith_eq_true_iff.mp hstart)

/-- **The search finds the first place** of the word, if no terminator is in front of it. -/
theorem strstr_eq_some_iff (hword : word ≠ []) {t : List β} {i : ℕ} :
    strstr nul word t = some (some i) ↔
      word <+: t.drop i ∧ nul ∉ t.take i ∧ ∀ j < i, ¬word <+: t.drop j := by
  induction t generalizing i with
  | nil =>
    refine iff_of_false nofun fun h => hword ?_
    rw [List.drop_nil, List.prefix_nil] at h
    exact h.1
  | cons c t ih =>
    rw [strstr]
    rcases hstart : startsWith word (c :: t) with _ | _ | _
    · obtain ⟨hpre, hne⟩ := startsWith_eq_none_iff.mp hstart
      refine iff_of_false nofun fun h => hne (hpre.eq_of_length_le (h.1.length_le.trans ?_))
      rw [List.length_drop]
      omega
    · have hnot : ¬word <+: c :: t := fun h =>
        nomatch hstart.symm.trans (startsWith_eq_true_iff.mpr h)
      have hsucc : (strstr nul word t).map (fun found => found.map (· + 1)) = some (some i) ↔
          ∃ k, i = k + 1 ∧ strstr nul word t = some (some k) := by
        rcases strstr nul word t with _ | _ | k
        · simp
        · simp
        · simp [eq_comm]
      dsimp only
      cases i with
      | zero =>
        refine iff_of_false (fun h => ?_) fun h => hnot h.1
        split at h
        · exact absurd h nofun
        · obtain ⟨k, hk, -⟩ := hsucc.mp h
          exact absurd hk (by omega)
      | succ i =>
        rw [List.take_succ_cons, List.mem_cons, not_or, List.drop_succ_cons]
        split
        · rename_i heq
          exact iff_of_false nofun fun h => h.2.1.1 heq.symm
        · rename_i hne
          rw [hsucc, and_iff_right (Ne.symm hne)]
          constructor
          · rintro ⟨k, hk, hfound⟩
            obtain rfl : i = k := by omega
            obtain ⟨hplace, hstring, hfirst⟩ := ih.mp hfound
            refine ⟨hplace, hstring, fun j hj => ?_⟩
            cases j with
            | zero => exact hnot
            | succ j => exact hfirst j (by omega)
          · rintro ⟨hplace, hstring, hfirst⟩
            exact ⟨i, rfl, ih.mpr ⟨hplace, hstring, fun j hj => hfirst (j + 1) (by omega)⟩⟩
    · refine ⟨fun h => ?_, fun h => ?_⟩
      · obtain rfl : 0 = i := Option.some.inj (Option.some.inj h)
        exact ⟨startsWith_eq_true_iff.mp hstart, List.not_mem_nil, fun j hj => absurd hj (by omega)⟩
      · cases i with
        | zero => rfl
        | succ i => exact absurd (startsWith_eq_true_iff.mp hstart) (h.2.2 0 (Nat.succ_pos i))

/-- The place of a single character. -/
theorem strstr_singleton_iff {c : β} {t : List β} {i : ℕ} :
    strstr nul [c] t = some (some i) ↔
      ∃ a b, t = a ++ c :: b ∧ c ∉ a ∧ nul ∉ a ∧ a.length = i := by
  rw [strstr_eq_some_iff (List.cons_ne_nil c [])]
  constructor
  · rintro ⟨⟨b, hb⟩, hstring, hfirst⟩
    have hi : i < t.length := by
      have hlength := congrArg List.length hb
      rw [List.length_append, List.length_singleton, List.length_drop] at hlength
      omega
    refine ⟨t.take i, b, ?_, fun hmem => ?_, hstring, List.length_take_of_le hi.le⟩
    · nth_rewrite 1 [← List.take_append_drop i t]
      rw [← hb]
      rfl
    · obtain ⟨j, hj, hc⟩ := List.mem_take_iff_getElem.mp hmem
      refine hfirst j (lt_of_lt_of_le hj (min_le_left _ _)) ⟨t.drop (j + 1), ?_⟩
      have hjt : j < t.length := lt_of_lt_of_le hj (min_le_right _ _)
      rw [List.drop_eq_getElem_cons hjt, hc]
      rfl
  · rintro ⟨a, b, rfl, hfirst, hstring, rfl⟩
    refine ⟨?_, ?_, fun j hj hpre => hfirst ?_⟩
    · rw [List.drop_left]
      exact ⟨b, rfl⟩
    · rwa [List.take_left]
    · rw [List.drop_append_of_le_length hj.le] at hpre
      obtain ⟨d, rest, hd⟩ := List.exists_cons_of_ne_nil
        (List.ne_nil_of_length_pos (l := a.drop j) (by rw [List.length_drop]; omega))
      rw [hd, List.cons_append, List.cons_prefix_cons] at hpre
      refine List.mem_of_mem_drop (i := j) ?_
      rw [hd, hpre.1]
      exact List.mem_cons_self

/-- Without a word there is a terminator. -/
theorem nul_mem_of_strstr {t : List β} (h : strstr nul word t = some none) : nul ∈ t := by
  induction t with
  | nil => exact absurd h nofun
  | cons c t ih =>
    rw [strstr] at h
    rcases hstart : startsWith word (c :: t) with _ | _ | _
    · rw [hstart] at h
      exact absurd h nofun
    · rw [hstart] at h
      dsimp only at h
      split at h
      · rename_i heq
        exact heq ▸ List.mem_cons_self
      · obtain ⟨place, hplace, hnone⟩ := Option.map_eq_some_iff.mp h
        rw [Option.map_eq_none_iff] at hnone
        exact List.mem_cons_of_mem c (ih (hnone ▸ hplace))
    · rw [hstart] at h
      exact absurd h nofun

/-- Behind a word that has been found there is still the terminator. -/
theorem nul_mem_drop_iff_of_strstr (hword : word ≠ []) (hnul : nul ∉ word) {t : List β} {i : ℕ}
    (h : strstr nul word t = some (some i)) : nul ∈ t.drop (i + word.length) ↔ nul ∈ t := by
  refine ⟨List.mem_of_mem_drop, fun hmem => ?_⟩
  obtain ⟨⟨rest, hrest⟩, hstring, -⟩ := (strstr_eq_some_iff hword).mp h
  rw [← List.drop_drop, ← hrest, List.drop_left]
  rw [← List.take_append_drop i t, ← hrest] at hmem
  exact ((List.mem_append.mp hmem).resolve_left hstring |> List.mem_append.mp).resolve_left hnul

/-- A word that has been found is within the block. -/
theorem add_length_le_of_strstr (hword : word ≠ []) {t : List β} {i : ℕ}
    (h : strstr nul word t = some (some i)) : i + word.length ≤ t.length := by
  obtain ⟨hplace, -, -⟩ := (strstr_eq_some_iff hword).mp h
  have hle := hplace.length_le
  have hpos := List.length_pos_iff.mpr hword
  rw [List.length_drop] at hle
  omega

theorem strstr_append {t : List β} {found : Option ℕ} (h : strstr nul word t = some found)
    (rest : List β) : strstr nul word (t ++ rest) = some found := by
  induction t generalizing found with
  | nil => exact absurd h nofun
  | cons c t ih =>
    rw [strstr] at h
    rw [List.cons_append, strstr, ← List.cons_append]
    rcases hstart : startsWith word (c :: t) with _ | _ | _
    · rw [hstart] at h
      exact absurd h nofun
    · rw [hstart] at h
      rw [startsWith_append hstart]
      dsimp only at h ⊢
      split at h
      · rename_i heq
        rw [if_pos heq]
        exact h
      · rename_i hne
        rw [if_neg hne]
        obtain ⟨place, hplace, rfl⟩ := Option.map_eq_some_iff.mp h
        rw [ih hplace]
        rfl
    · rw [hstart] at h
      rw [startsWith_append hstart]
      exact h

theorem string_eq_none_iff {t : List β} : string nul t = none ↔ nul ∉ t := by
  induction t with
  | nil => exact iff_of_true rfl List.not_mem_nil
  | cons c t ih =>
    rw [string, List.mem_cons, not_or]
    split
    · rename_i heq
      exact iff_of_false nofun fun h => h.1 heq.symm
    · rename_i hne
      rw [Option.map_eq_none_iff, ih, and_iff_right (Ne.symm hne)]

theorem string_append_cons {t : List β} (h : nul ∉ t) (rest : List β) :
    string nul (t ++ nul :: rest) = some t := by
  induction t with
  | nil => exact if_pos rfl
  | cons c t ih =>
    rw [List.mem_cons, not_or] at h
    rw [List.cons_append, string, if_neg (Ne.symm h.1), ih h.2]
    rfl

theorem string_append {t found : List β} (h : string nul t = some found) (rest : List β) :
    string nul (t ++ rest) = some found := by
  induction t generalizing found with
  | nil => exact absurd h nofun
  | cons c t ih =>
    rw [string] at h
    rw [List.cons_append, string]
    split at h
    · rename_i heq
      rw [if_pos heq]
      exact h
    · rename_i hne
      rw [if_neg hne]
      obtain ⟨tail, htail, rfl⟩ := Option.map_eq_some_iff.mp h
      rw [ih htail]
      rfl

end

/-! ### Where a word is in a text -/

section

/-- Behind characters that do not begin the word. -/
theorem infix_append_iff_of_first {c : β} {word xs : List β} (h : c ∉ xs) (ys : List β) :
    c :: word <:+: xs ++ ys ↔ c :: word <:+: ys := by
  induction xs with
  | nil => rfl
  | cons x xs ih =>
    rw [List.mem_cons, not_or] at h
    rw [List.cons_append, List.infix_cons_iff, List.cons_prefix_cons, ih h.2]
    exact or_iff_right fun hx => h.1 hx.1

/-- In front of characters that do not end the word. -/
theorem infix_append_iff_of_last {c : β} {word ys : List β} (h : c ∉ ys) (xs : List β) :
    word ++ [c] <:+: xs ++ ys ↔ word ++ [c] <:+: xs := by
  have hreverse : ∀ zs, word ++ [c] <:+: zs ↔ c :: word.reverse <:+: zs.reverse := by
    intro zs
    rw [← List.reverse_infix, List.reverse_append]
    rfl
  rw [hreverse, hreverse, List.reverse_append]
  exact infix_append_iff_of_first (mt List.mem_reverse.mp h) _

/-- A beginning of a text that has a character which is not in it. -/
theorem prefix_append_cons_iff {sep : β} {word : List β} (h : sep ∉ word) (xs ys : List β) :
    word <+: xs ++ sep :: ys ↔ word <+: xs := by
  refine ⟨fun hword => ?_, fun hword => hword.trans (List.prefix_append xs _)⟩
  refine List.prefix_of_prefix_length_le hword (List.prefix_append xs _) ?_
  by_contra hlong
  have hsep : xs ++ [sep] <+: word := by
    refine List.prefix_of_prefix_length_le ⟨ys, List.append_assoc _ _ _⟩ hword ?_
    rw [List.length_append, List.length_singleton]
    omega
  exact h (hsep.subset (List.mem_append_right xs List.mem_cons_self))

/-- An end of a text that has a character which is not in it. -/
theorem suffix_append_cons_iff {sep : β} {word : List β} (h : sep ∉ word) (xs ys : List β) :
    word <:+ xs ++ sep :: ys ↔ word <:+ ys := by
  rw [← List.reverse_prefix, ← List.reverse_prefix, List.reverse_append, List.reverse_cons,
    List.append_assoc]
  exact prefix_append_cons_iff (mt List.mem_reverse.mp h) _ _

/-- **A character that is not in the word** parts the places of the word. -/
theorem infix_append_cons_iff {sep : β} {word : List β} (h : sep ∉ word) (xs ys : List β) :
    word <:+: xs ++ sep :: ys ↔ word <:+: xs ∨ word <:+: ys := by
  induction xs with
  | nil =>
    rw [List.nil_append, List.infix_cons_iff, ← List.nil_append (sep :: ys),
      prefix_append_cons_iff h, List.prefix_nil, List.infix_nil]
  | cons x xs ih =>
    rw [List.cons_append, List.infix_cons_iff, List.infix_cons_iff, ih, ← List.cons_append,
      prefix_append_cons_iff h, or_assoc]

variable [DecidableEq β] {nul : β} {word : List β}

/-- **A string in which the word is not** is searched up to its terminator. -/
theorem strstr_append_nul (hword : word ≠ []) (hnul : nul ∉ word) {t : List β}
    (hnot : ¬word <:+: t) (rest : List β) : strstr nul word (t ++ nul :: rest) = some none := by
  rcases hfound : strstr nul word (t ++ nul :: rest) with _ | _ | i
  · exact absurd (List.mem_append_right t List.mem_cons_self)
      ((strstr_eq_none_iff hword hnul).mp hfound).1
  · rfl
  · obtain ⟨hplace, hstring, -⟩ := (strstr_eq_some_iff hword).mp hfound
    have hi : i ≤ t.length := by
      by_contra hlong
      have hterminated : t ++ [nul] <+: (t ++ nul :: rest).take i := by
        refine List.prefix_take_iff.mpr ⟨⟨rest, List.append_assoc _ _ _⟩, ?_⟩
        rw [List.length_append, List.length_singleton]
        omega
      exact hstring (hterminated.subset (List.mem_append_right t List.mem_cons_self))
    rw [List.drop_append_of_le_length hi, prefix_append_cons_iff hnul] at hplace
    exact absurd (hplace.isInfix.trans (List.drop_suffix i t).isInfix) hnot

/-- **A word in a string** is found, there or before. -/
theorem exists_strstr_append (hword : word ≠ []) {t : List β} (ht : nul ∉ t) (rest : List β) :
    ∃ i, strstr nul word (t ++ (word ++ rest)) = some (some i) := by
  classical
  have hplace : ∃ i, word <+: (t ++ (word ++ rest)).drop i :=
    ⟨t.length, by rw [List.drop_left]; exact List.prefix_append word rest⟩
  refine ⟨Nat.find hplace, (strstr_eq_some_iff hword).mpr
    ⟨Nat.find_spec hplace, fun hmem => ht ?_, fun j hj => Nat.find_min hplace hj⟩⟩
  have hle : Nat.find hplace ≤ t.length :=
    Nat.find_min' hplace (by rw [List.drop_left]; exact List.prefix_append word rest)
  rw [List.take_append_of_le_length hle] at hmem
  exact List.mem_of_mem_take hmem

/-- **The word at the end of a text** is found there exactly if it is nowhere before. -/
theorem strstr_append_iff (hword : word ≠ []) {t : List β} (ht : nul ∉ t) (rest : List β) :
    strstr nul word (t ++ (word ++ rest)) = some (some t.length) ↔
      ¬word <:+: (t ++ word).dropLast := by
  have hpos := List.length_pos_iff.mpr hword
  rw [strstr_eq_some_iff hword, List.drop_left, List.take_left,
    and_iff_right (List.prefix_append word rest), and_iff_right ht, ← List.append_assoc,
    List.dropLast_eq_take, List.length_append]
  have hshort : t.length + word.length - 1 ≤ (t ++ word).length := by
    rw [List.length_append]
    omega
  constructor
  · rintro hfirst ⟨a, b, hab⟩
    have hlength := congrArg List.length hab
    rw [List.length_append, List.length_append, List.length_take_of_le hshort] at hlength
    refine hfirst a.length (by omega) ?_
    rw [← List.take_append_drop (t.length + word.length - 1) (t ++ word), ← hab,
      List.append_assoc, List.append_assoc, List.append_assoc, List.drop_left]
    exact List.prefix_append word _
  · rintro hnot j hj ⟨b, hb⟩
    refine hnot (List.IsInfix.trans (List.suffix_append ((t ++ word).take j) word).isInfix
      (List.IsPrefix.isInfix ?_))
    have hplace : (t ++ word).take j ++ word <+: t ++ word ++ rest := by
      refine ⟨b, ?_⟩
      rw [List.append_assoc, hb,
        ← List.take_append_of_le_length (by rw [List.length_append]; omega),
        List.take_append_drop]
    refine List.prefix_of_prefix_length_le hplace
      ((List.take_prefix _ _).trans (List.prefix_append _ rest)) ?_
    rw [List.length_append, List.length_take, List.length_take, List.length_append]
    omega

end

end CString

end Forte
