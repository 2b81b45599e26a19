import Forte.Datatypes.Numbers
import Forte.Lib.Brackets
import Forte.Lib.Scanner

/-!
# The identifiers of communication layers

The `ID` of a communication function block names the layers of its stack, each with its
parameters in brackets. `CBaseCommFB::extractLayerIdAndParams` cuts one layer off: it
overwrites the two brackets in the text with zeros, so that the name and the parameters become
strings of their own, and leaves a pointer behind the closing bracket.

The character behind a closing bracket is passed over whatever it is. What is accepted is
therefore `Forte.ComInfra.Loose`: layers with any character behind each of them, which the
last may lack; and a name may hold closing brackets.
-/

namespace Forte.ComInfra

/-- The brackets around the parameters. -/
def brackets : Brackets UInt8 := ⟨'['.toUInt8, ']'.toUInt8, by decide⟩

/-! ### The extraction, in the memory of the text -/

/-- The C string at a position of a buffer. -/
def cStringAt (buffer : List UInt8) (pos : ℕ) : Text := (buffer.drop pos).takeWhile (· ≠ 0)

/-- `strchr`. -/
def strchr (buffer : List UInt8) (pos : ℕ) (c : UInt8) : Option ℕ :=
  let s := cStringAt buffer pos
  if c ∈ s then some (pos + s.idxOf c) else none

/-- How far the bracket that brings the count back to zero is away. -/
def closingBracket : ℤ → Text → Option ℕ
  | _, [] => none
  | bracketCount, c :: cs =>
    if c = brackets.opening then (closingBracket (bracketCount + 1) cs).map (· + 1)
    else if c = brackets.closing then
      if bracketCount - 1 = 0 then some 0
      else (closingBracket (bracketCount - 1) cs).map (· + 1)
    else (closingBracket bracketCount cs).map (· + 1)

/-- The buffer and the three pointers after an extraction. -/
structure Extraction where
  buffer : List UInt8
  layerID : ℕ
  layerParams : ℕ
  remainingID : ℕ

/-- `CBaseCommFB::extractLayerIdAndParams`; `none` is the null pointer. The caller looks at the
remaining text only after a success. -/
def extractLayerIdAndParams (buffer : List UInt8) (pos : ℕ) : Option Extraction :=
  if buffer.getD pos 0 = 0 then none
  else
    match strchr buffer pos brackets.opening with
    | none => none
    | some paramsStart =>
      match closingBracket 0 (cStringAt buffer paramsStart) with
      | none => none
      | some k =>
        let currentChar := paramsStart + k
        let buffer := (buffer.set paramsStart 0).set currentChar 0
        some {
          buffer := buffer
          layerID := pos
          layerParams := paramsStart + 1
          remainingID :=
            if buffer.getD (currentChar + 1) 0 ≠ 0 then currentChar + 2 else currentChar + 1 }

/-- The extraction again and again, until nothing remains: the layers, and whether the end was
reached. There is no result when the fuel is used up. -/
def extractAll : ℕ → List UInt8 → ℕ → Option (List (Text × Text) × Bool)
  | 0, _, _ => none
  | fuel + 1, buffer, pos =>
    if buffer.getD pos 0 = 0 then some ([], true)
    else
      match extractLayerIdAndParams buffer pos with
      | none => some ([], false)
      | some e =>
        (extractAll fuel e.buffer e.remainingID).map fun r =>
          ((cStringAt e.buffer e.layerID, cStringAt e.buffer e.layerParams) :: r.1, r.2)

/-! ### The extraction, of a text -/

/-- The name of the first layer, its parameters, and what remains. -/
def splitLayer (t : Text) : Option (Text × Text × Text) :=
  if brackets.opening ∈ t then
    let cut := takeUntil brackets.opening t
    (brackets.close 0 cut.2).map fun r => (cut.1, r.1, r.2.drop 1)
  else none

/-- A layer as it is written. -/
def layerText (layer : Text × Text) : Text :=
  layer.1 ++ brackets.opening :: (layer.2 ++ [brackets.closing])

theorem layerText_append (layer : Text × Text) (behind : Text) :
    layerText layer ++ behind =
      layer.1 ++ brackets.opening :: (layer.2 ++ brackets.closing :: behind) := by
  rw [layerText, List.append_assoc, List.cons_append, List.append_assoc]
  rfl

/-- **What is split off** is a name without an opening bracket and balanced parameters. -/
theorem splitLayer_eq_some_iff {t name params rest : Text} :
    splitLayer t = some (name, params, rest) ↔
      brackets.opening ∉ name ∧ brackets.Balanced params ∧
        ∃ behind, t = layerText (name, params) ++ behind ∧ rest = behind.drop 1 := by
  constructor
  · intro h
    rw [splitLayer] at h
    split_ifs at h with hmem
    obtain ⟨a, inner, rfl, ha⟩ := List.eq_append_cons_of_mem hmem
    rw [takeUntil_append ha] at h
    obtain ⟨r, hr, heq⟩ := Option.map_eq_some_iff.mp h
    obtain ⟨rfl, hpr⟩ := Prod.mk.inj heq
    obtain ⟨rfl, rfl⟩ := Prod.mk.inj hpr
    obtain ⟨hinner, hbal⟩ := brackets.close_eq_some_iff.mp hr
    refine ⟨ha, hbal, r.2, ?_, rfl⟩
    rw [layerText_append]
    exact congrArg (a ++ brackets.opening :: ·) hinner
  · rintro ⟨hname, hbal, behind, rfl, rfl⟩
    rw [layerText_append, splitLayer, if_pos (List.mem_append_right name List.mem_cons_self),
      takeUntil_append hname]
    exact Option.map_eq_some_iff.mpr
      ⟨(params, behind), brackets.close_eq_some_iff.mpr ⟨rfl, hbal⟩, rfl⟩

/-- What remains is shorter. -/
theorem length_splitLayer {t name params rest : Text}
    (h : splitLayer t = some (name, params, rest)) : rest.length < t.length := by
  obtain ⟨-, -, behind, rfl, rfl⟩ := splitLayer_eq_some_iff.mp h
  rw [layerText_append, List.length_drop]
  simp only [List.length_append, List.length_cons]
  omega

/-- All layers of a text, and whether its end was reached. -/
def layers (t : Text) : List (Text × Text) × Bool :=
  if t = [] then ([], true)
  else
    match h : splitLayer t with
    | none => ([], false)
    | some (name, params, rest) =>
      have := length_splitLayer h
      ((name, params) :: (layers rest).1, (layers rest).2)
  termination_by t.length

theorem layers_nil : layers [] = ([], true) := by
  rw [layers]
  rfl

theorem layers_of_none {t : Text} (hne : t ≠ []) (h : splitLayer t = none) :
    layers t = ([], false) := by
  rw [layers, if_neg hne]
  split
  · rfl
  · rename_i heq
    exact absurd (h.symm.trans heq) (by simp)

theorem layers_of_some {t name params rest : Text}
    (h : splitLayer t = some (name, params, rest)) :
    layers t = ((name, params) :: (layers rest).1, (layers rest).2) := by
  have hne : t ≠ [] := by
    rintro rfl
    exact absurd (length_splitLayer h) (Nat.not_lt_zero _)
  rw [layers, if_neg hne]
  split
  · rename_i heq
    exact absurd (heq.symm.trans h) (by simp)
  · rename_i heq
    obtain ⟨rfl, hpr⟩ := Prod.mk.inj (Option.some.inj (heq.symm.trans h))
    obtain ⟨rfl, rfl⟩ := Prod.mk.inj hpr
    rfl

/-! ### The memory holds the text -/

/-- A C string stands at a position of a buffer. -/
def Holds (buffer : List UInt8) (pos : ℕ) (t : Text) : Prop :=
  ∃ before behind, buffer = before ++ (t ++ 0 :: behind) ∧ before.length = pos ∧ 0 ∉ t

theorem Holds.cStringAt_eq {buffer : List UInt8} {pos : ℕ} {t : Text} (h : Holds buffer pos t) :
    cStringAt buffer pos = t := by
  obtain ⟨before, behind, rfl, rfl, hzero⟩ := h
  have hall : ∀ c ∈ t, decide (c ≠ 0) = true := fun c hc =>
    decide_eq_true fun heq => hzero (heq ▸ hc)
  rw [cStringAt, List.drop_left, List.takeWhile_append_of_pos hall,
    List.takeWhile_cons_of_neg (by simp), List.append_nil]

theorem Holds.getD_eq_zero_iff {buffer : List UInt8} {pos : ℕ} {t : Text}
    (h : Holds buffer pos t) : buffer.getD pos 0 = 0 ↔ t = [] := by
  obtain ⟨before, behind, rfl, rfl, hzero⟩ := h
  rw [List.getD_eq_getElem?_getD, List.getElem?_append_right (le_refl _), Nat.sub_self]
  cases t with
  | nil => exact iff_of_true rfl rfl
  | cons c t =>
    refine iff_of_false (fun heq => hzero ?_) (by simp)
    rw [← show c = 0 from heq]
    exact List.mem_cons_self

theorem Holds.strchr_eq {buffer : List UInt8} {pos : ℕ} {c : UInt8} {name rest : Text}
    (h : Holds buffer pos (name ++ c :: rest)) (hc : c ∉ name) :
    strchr buffer pos c = some (pos + name.length) := by
  rw [strchr, h.cStringAt_eq, if_pos (List.mem_append_right name List.mem_cons_self),
    List.idxOf_append_of_notMem hc, List.idxOf_cons_self, Nat.add_zero]

/-- What is behind the first characters of a string is a string. -/
theorem Holds.drop {buffer : List UInt8} {pos : ℕ} {t u : Text} (h : Holds buffer pos (t ++ u)) :
    Holds buffer (pos + t.length) u := by
  obtain ⟨before, behind, rfl, rfl, hzero⟩ := h
  refine ⟨before ++ t, behind, ?_, List.length_append, fun hmem => ?_⟩
  · rw [List.append_assoc, List.append_assoc]
  · exact hzero (List.mem_append_right t hmem)

/-- The count in the source is one more than the depth. -/
theorem closingBracket_eq (d : ℕ) (l : Text) :
    closingBracket (d + 1) l = (brackets.close d l).map fun r => r.1.length := by
  induction l generalizing d with
  | nil => rfl
  | cons c l ih =>
    rw [closingBracket, Brackets.close]
    split_ifs with ho hc hcount hd hd
    · have hih := ih (d + 1)
      rw [Nat.cast_add, Nat.cast_one] at hih
      rw [hih, Option.map_map, Option.map_map]
      rfl
    · rfl
    · exact absurd hd (by omega)
    · exact absurd hcount (by omega)
    · have hih := ih (d - 1)
      rw [show ((d - 1 : ℕ) : ℤ) + 1 = (d : ℤ) + 1 - 1 by omega] at hih
      rw [hih, Option.map_map, Option.map_map]
      rfl
    · rw [ih, Option.map_map, Option.map_map]
      rfl

/-- A character that is overwritten with a zero ends a string, and another one begins behind
it. -/
theorem Holds.set {buffer : List UInt8} {pos : ℕ} {name rest : Text} {c : UInt8}
    (h : Holds buffer pos (name ++ c :: rest)) :
    Holds (buffer.set (pos + name.length) 0) pos name ∧
      Holds (buffer.set (pos + name.length) 0) (pos + name.length + 1) rest := by
  obtain ⟨before, behind, rfl, rfl, hzero⟩ := h
  have hset : (before ++ ((name ++ c :: rest) ++ 0 :: behind)).set (before.length + name.length) 0 =
      before ++ (name ++ 0 :: (rest ++ 0 :: behind)) := by
    rw [List.append_assoc, List.set_append_right _ _ (Nat.le_add_right _ _),
      Nat.add_sub_cancel_left, List.set_append_right _ _ (le_refl _), Nat.sub_self]
    rfl
  rw [hset]
  refine ⟨⟨before, rest ++ 0 :: behind, rfl, rfl, fun hmem => ?_⟩,
    before ++ (name ++ [0]), behind, ?_, ?_, fun hmem => ?_⟩
  · exact hzero (List.mem_append_left _ hmem)
  · simp only [List.append_assoc, List.cons_append, List.nil_append]
  · simp only [List.length_append, List.length_cons, List.length_nil]
    omega
  · exact hzero (List.mem_append_right name (List.mem_cons_of_mem c hmem))

/-- What is written behind a string leaves it alone. -/
theorem Holds.set_of_lt {buffer : List UInt8} {pos i : ℕ} {t : Text} (h : Holds buffer pos t)
    (hi : pos + t.length < i) (c : UInt8) : Holds (buffer.set i c) pos t := by
  obtain ⟨before, behind, rfl, rfl, hzero⟩ := h
  refine ⟨before, behind.set (i - before.length - t.length - 1) c, ?_, rfl, hzero⟩
  rw [List.set_append_right _ _ (by omega), List.set_append_right _ _ (by omega)]
  obtain ⟨k, hk⟩ : ∃ k, i - before.length - t.length = k + 1 :=
    ⟨i - before.length - t.length - 1, by omega⟩
  rw [hk, List.set_cons_succ, Nat.add_sub_cancel]

/-- **The extraction splits the first layer off**, in the memory of the text. -/
theorem extractLayerIdAndParams_of_some {buffer : List UInt8} {pos : ℕ}
    {t name params rest : Text} (h : Holds buffer pos t)
    (hsplit : splitLayer t = some (name, params, rest)) :
    ∃ e, extractLayerIdAndParams buffer pos = some e ∧
      cStringAt e.buffer e.layerID = name ∧ cStringAt e.buffer e.layerParams = params ∧
      Holds e.buffer e.remainingID rest := by
  have hne : ¬buffer.getD pos 0 = 0 := fun heq => by
    rw [h.getD_eq_zero_iff.mp heq] at hsplit
    exact absurd hsplit (by simp [splitLayer])
  obtain ⟨hname, hbal, behind, rfl, rfl⟩ := splitLayer_eq_some_iff.mp hsplit
  rw [layerText_append] at h
  dsimp only at h
  -- the bracket in front of the parameters, and the one behind them
  have hopen := h.strchr_eq hname
  have hclose : closingBracket 0 (cStringAt buffer (pos + name.length)) =
      some (params.length + 1) := by
    rw [h.drop.cStringAt_eq, closingBracket, if_pos rfl]
    have hfound : brackets.close 0 (params ++ brackets.closing :: behind) = some (params, behind) :=
      brackets.close_eq_some_iff.mpr ⟨rfl, hbal⟩
    have hcount := closingBracket_eq 0 (params ++ brackets.closing :: behind)
    rw [hfound] at hcount
    exact congrArg (Option.map (· + 1)) hcount
  -- the two zeros that are written
  obtain ⟨hid, hinner⟩ := h.set
  obtain ⟨hparams, hbehind⟩ := hinner.set
  have hid' := hid.set_of_lt (i := pos + name.length + 1 + params.length) (by omega) 0
  generalize hbuffer : ((buffer.set (pos + name.length) 0).set
    (pos + name.length + 1 + params.length) 0) = buffer' at hparams hbehind hid'
  have hpos : pos + name.length + (params.length + 1) = pos + name.length + 1 + params.length := by
    omega
  rw [extractLayerIdAndParams, if_neg hne, hopen]
  dsimp only
  rw [hclose]
  dsimp only
  rw [hpos, hbuffer]
  refine ⟨_, rfl, hid'.cStringAt_eq, hparams.cStringAt_eq, ?_⟩
  dsimp only
  cases behind with
  | nil =>
    rw [if_neg (not_not_intro (hbehind.getD_eq_zero_iff.mpr rfl))]
    exact hbehind
  | cons c behind =>
    rw [if_pos fun heq => absurd (hbehind.getD_eq_zero_iff.mp heq) (by simp)]
    exact Holds.drop (t := [c]) hbehind

/-- **Without a layer at the front the extraction fails.** -/
theorem extractLayerIdAndParams_of_none {buffer : List UInt8} {pos : ℕ} {t : Text}
    (h : Holds buffer pos t) (hsplit : splitLayer t = none) :
    extractLayerIdAndParams buffer pos = none := by
  rw [extractLayerIdAndParams]
  split_ifs with hzero
  · rfl
  by_cases hmem : brackets.opening ∈ t
  · obtain ⟨name, inner, rfl, hname⟩ := List.eq_append_cons_of_mem hmem
    rw [splitLayer, if_pos hmem, takeUntil_append hname] at hsplit
    have hclose : closingBracket 0 (cStringAt buffer (pos + name.length)) = none := by
      rw [h.drop.cStringAt_eq, closingBracket, if_pos rfl]
      have hcount := closingBracket_eq 0 inner
      rw [Option.map_eq_none_iff.mp hsplit] at hcount
      exact congrArg (Option.map (· + 1)) hcount
    rw [h.strchr_eq hname]
    dsimp only
    rw [hclose]
  · have hchr : strchr buffer pos brackets.opening = none := by
      rw [strchr, h.cStringAt_eq]
      exact if_neg hmem
    rw [hchr]

/-- **The extraction again and again** finds all layers of the text. -/
theorem extractAll_eq {fuel : ℕ} {buffer : List UInt8} {pos : ℕ} {t : Text}
    (h : Holds buffer pos t) (hfuel : t.length < fuel) :
    extractAll fuel buffer pos = some (layers t) := by
  induction fuel generalizing buffer pos t with
  | zero => exact absurd hfuel (Nat.not_lt_zero _)
  | succ fuel ih =>
    rw [extractAll]
    by_cases hne : t = []
    · rw [if_pos (h.getD_eq_zero_iff.mpr hne), hne, layers_nil]
    rw [if_neg fun hzero => hne (h.getD_eq_zero_iff.mp hzero)]
    cases hsplit : splitLayer t with
    | none => rw [extractLayerIdAndParams_of_none h hsplit, layers_of_none hne hsplit]
    | some r =>
      obtain ⟨name, params, rest⟩ := r
      obtain ⟨e, he, hname, hparams, hrest⟩ := extractLayerIdAndParams_of_some h hsplit
      have hlength := length_splitLayer hsplit
      rw [he, layers_of_some hsplit]
      dsimp only
      rw [ih hrest (by omega), hname, hparams]
      rfl

/-! ### Which texts are accepted -/

/-- A list of layers, joined by dots. -/
def render (ls : List (Text × Text)) : Text := (text ".").intercalate (ls.map layerText)

/-- A layer whose name ends at the bracket in front of its parameters. -/
structure Opens (layer : Text × Text) : Prop where
  name : brackets.opening ∉ layer.1
  params : brackets.Balanced layer.2

/-- A layer whose name has no bracket. -/
structure WellNamed (layer : Text × Text) : Prop extends Opens layer where
  closing : brackets.closing ∉ layer.1

theorem Opens.splitLayer_append {layer : Text × Text} (h : Opens layer) (behind : Text) :
    splitLayer (layerText layer ++ behind) = some (layer.1, layer.2, behind.drop 1) :=
  splitLayer_eq_some_iff.mpr ⟨h.name, h.params, behind, rfl, rfl⟩

theorem Opens.layers_append {layer : Text × Text} (h : Opens layer) (behind : Text) :
    layers (layerText layer ++ behind) =
      (layer :: (layers (behind.drop 1)).1, (layers (behind.drop 1)).2) :=
  layers_of_some (h.splitLayer_append behind)

/-- **A list that is written and read** is the same list, and nothing remains. -/
theorem layers_render {ls : List (Text × Text)} (h : ∀ l ∈ ls, WellNamed l) :
    layers (render ls) = (ls, true) := by
  induction ls with
  | nil => exact layers_nil
  | cons l ls ih =>
    obtain ⟨hl, hls⟩ := List.forall_mem_cons.mp h
    cases ls with
    | nil =>
      have hone := hl.layers_append []
      rw [List.drop_nil, layers_nil, List.append_nil] at hone
      rw [render, List.map_singleton, List.intercalate_singleton]
      exact hone
    | cons m ls =>
      have hmore := hl.layers_append (text "." ++ render (m :: ls))
      rw [show (text "." ++ render (m :: ls)).drop 1 = render (m :: ls) from rfl, ih hls] at hmore
      have hrender : render (l :: m :: ls) = layerText l ++ (text "." ++ render (m :: ls)) := by
        rw [render, List.map_cons, List.map_cons, List.intercalate_cons_cons, List.append_assoc]
        rfl
      rw [hrender]
      exact hmore

/-- Layers with a character behind each of them. -/
def separated (ls : List ((Text × Text) × UInt8)) : Text :=
  ls.flatMap fun l => layerText l.1 ++ [l.2]

/-- The names and the characters behind the layers, without the parameters. -/
def outside (ls : List ((Text × Text) × UInt8)) : Text := ls.flatMap fun l => l.1.1 ++ [l.2]

/-- **A sequence of layers with any character behind each of them**; behind the last there may
be none. -/
structure Loose (t : Text) (ls : List ((Text × Text) × UInt8)) (last : Option (Text × Text)) :
    Prop where
  opens : ∀ l ∈ ls, Opens l.1
  lastOpens : ∀ l ∈ last, Opens l
  eq : t = separated ls ++ last.elim [] layerText

theorem separated_cons (l : (Text × Text) × UInt8) (ls : List ((Text × Text) × UInt8)) (m : Text) :
    separated (l :: ls) ++ m = layerText l.1 ++ (l.2 :: (separated ls ++ m)) := by
  rw [separated, List.flatMap_cons, List.append_assoc, List.append_assoc]
  rfl

theorem Loose.ended {t : Text} {ls : List ((Text × Text) × UInt8)} {last : Option (Text × Text)}
    (h : Loose t ls last) : (layers t).2 = true := by
  obtain ⟨hls, hlast, rfl⟩ := h
  induction ls with
  | nil =>
    cases last with
    | none =>
      change (layers []).2 = true
      rw [layers_nil]
    | some l =>
      have hone := (hlast l rfl).layers_append []
      rw [List.drop_nil, layers_nil, List.append_nil] at hone
      change (layers (layerText l)).2 = true
      rw [hone]
  | cons l ls ih =>
    obtain ⟨hl, hls⟩ := List.forall_mem_cons.mp hls
    rw [separated_cons, hl.layers_append]
    exact ih hls

/-- **What is accepted**: nothing but layers, each with any character behind it. -/
theorem layers_ended_iff {t : Text} : (layers t).2 = true ↔ ∃ ls last, Loose t ls last := by
  refine ⟨fun h => ?_, fun ⟨ls, last, hloose⟩ => hloose.ended⟩
  induction hn : t.length using Nat.strong_induction_on generalizing t with
  | _ n ih =>
    subst hn
    by_cases hne : t = []
    · exact ⟨[], none, by simp, by simp, hne⟩
    cases hsplit : splitLayer t with
    | none =>
      rw [layers_of_none hne hsplit] at h
      exact absurd h (by simp)
    | some r =>
      obtain ⟨name, params, rest⟩ := r
      have hlength := length_splitLayer hsplit
      rw [layers_of_some hsplit] at h
      obtain ⟨hname, hbal, behind, rfl, rfl⟩ := splitLayer_eq_some_iff.mp hsplit
      cases behind with
      | nil =>
        refine ⟨[], some (name, params), by simp, fun l hl => ?_, List.append_nil _⟩
        obtain rfl := Option.some.inj hl
        exact ⟨hname, hbal⟩
      | cons c behind =>
        obtain ⟨ls, last, hopens, hlast, heq⟩ := ih _ hlength h rfl
        refine ⟨((name, params), c) :: ls, last,
          List.forall_mem_cons.mpr ⟨⟨hname, hbal⟩, hopens⟩, hlast, ?_⟩
        rw [separated_cons, ← heq]
        rfl

/-! ### Brackets that are not seen -/

/-- **A text with unbalanced or missing brackets.** Where a text does not end with a closing
bracket, there is something at its end that has no brackets. -/
def Faulty (t : Text) : Prop :=
  ¬brackets.Balanced t ∨ t ≠ [] ∧ t.getLast? ≠ some brackets.closing

/-- **A text whose fault is not seen**: a sequence of layers, each with one character behind it
that the last may lack, where the brackets in the names and among these characters are
unbalanced, or the text does not end with a closing bracket. -/
def Hides (t : Text) : Prop :=
  ∃ ls last, Loose t ls last ∧
    (¬brackets.Balanced (outside ls ++ last.elim [] Prod.fst) ∨
      t ≠ [] ∧ t.getLast? ≠ some brackets.closing)

/-- Parameters in brackets do not count. -/
theorem Opens.depth_append {layer : Text × Text} (h : Opens layer) (d : ℕ) (m : Text) :
    brackets.depth d (layerText layer ++ m) = brackets.depth d (layer.1 ++ m) := by
  rw [layerText_append, Brackets.depth_append, Brackets.depth_append]
  exact congrArg (Option.bind _) (funext fun e => h.params.depth_block e m)

theorem Loose.balanced_iff {t : Text} {ls : List ((Text × Text) × UInt8)}
    {last : Option (Text × Text)} (h : Loose t ls last) :
    brackets.Balanced t ↔ brackets.Balanced (outside ls ++ last.elim [] Prod.fst) := by
  have hdepth : ∀ d, brackets.depth d t =
      brackets.depth d (outside ls ++ last.elim [] Prod.fst) := by
    obtain ⟨hls, hlast, rfl⟩ := h
    induction ls with
    | nil =>
      intro d
      cases last with
      | none => rfl
      | some l =>
        have hone := (hlast l rfl).depth_append d []
        rwa [List.append_nil, List.append_nil] at hone
    | cons l ls ih =>
      intro d
      obtain ⟨hl, hls⟩ := List.forall_mem_cons.mp hls
      have hcons : ∀ m, outside (l :: ls) ++ m = l.1.1 ++ ([l.2] ++ (outside ls ++ m)) := by
        intro m
        rw [outside, List.flatMap_cons, List.append_assoc, List.append_assoc]
        rfl
      rw [separated_cons, hl.depth_append, hcons, Brackets.depth_append, Brackets.depth_append]
      refine congrArg (Option.bind _) (funext fun e => ?_)
      have hsep := brackets.depth_append e [l.2] (separated ls ++ last.elim [] layerText)
      rw [List.singleton_append] at hsep
      rw [hsep, Brackets.depth_append]
      exact congrArg (Option.bind _) (funext fun e => ih hls e)
  rw [Brackets.Balanced, Brackets.Balanced, hdepth 0]

/-- **When a faulty text is refused**: exactly when its fault is not hidden. -/
theorem refused_iff {t : Text} : (Faulty t → (layers t).2 = false) ↔ ¬Hides t := by
  constructor
  · rintro h ⟨ls, last, hloose, hfault⟩
    rw [← hloose.balanced_iff] at hfault
    exact absurd (hloose.ended.symm.trans (h hfault)) (by simp)
  · intro h hfaulty
    by_contra hended
    obtain ⟨ls, last, hloose⟩ := layers_ended_iff.mp (Bool.eq_true_of_not_eq_false hended)
    rw [Faulty, hloose.balanced_iff] at hfaulty
    exact h ⟨ls, last, hloose, hfaulty⟩

end Forte.ComInfra
