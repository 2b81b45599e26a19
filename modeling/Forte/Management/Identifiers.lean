import Forte.Management.Grammar

/-!
# Identifiers in responses

A response names what was asked for as the request did: `appendIdentifierName` writes the names
of an identifier with dots between them. It takes each name as a C string and tells
`CIEC_STRING::append` its length in 16 bits, so that of a name with a terminator in it, or of one
that is longer, only the beginning is written (`Forte.CommandParser.Written`).

What `parseIdentifier` accepts are the names of the identifier with dots between them, all of
them (`Forte.CommandParser.eq_joined_of_dotted`); so an identifier is restored from what was written
exactly if each name was written as it is (`Forte.CommandParser.identifiers_restored_iff`).
-/

namespace Forte

/-- The bytes of a name. -/
theorem text_insert (t : Text) : text (StringId.insert t) = t := by
  have hbyte : ∀ c : UInt8, (Char.ofUInt8 c).toUInt8 = c := by
    intro c
    change c.toUInt32.toUInt8 = c
    simp
  rw [text, StringId.insert, String.toList_ofList, List.map_map]
  exact (List.map_congr_left fun c _ => hbyte c).trans (List.map_id t)

namespace CommandParser

/-! ### What is written -/

/-- `CIEC_STRING::append` of a C string: its length is an unsigned number of 16 bits. -/
def appendCString (dest s : Text) : Text :=
  let data := s.takeWhile (· ≠ 0)
  dest ++ data.take (data.length % 2 ^ 16)

/-- `appendIdentifierName`. -/
def appendIdentifierName (paDest : Text) (paIdentifier : TNameIdentifier) : Text :=
  match paIdentifier.names with
  | [] => paDest
  | name :: names =>
    names.foldl (fun dest name => appendCString (appendCString dest (text ".")) (text name))
      (appendCString paDest (text name))

/-- What is written of a name. -/
def written (t : Text) : Text := appendCString [] t

/-- A name that is written as it is: a C string whose length 16 bits can say. -/
def Written (t : Text) : Prop := 0 ∉ t ∧ t.length < 2 ^ 16

theorem appendCString_eq (dest t : Text) : appendCString dest t = dest ++ written t := rfl

/-- Of a name a beginning is written. -/
theorem written_isPrefix (t : Text) : written t <+: t := by
  rw [written, appendCString, List.nil_append]
  exact (List.take_prefix _ _).trans (List.takeWhile_prefix _)

theorem written_eq_iff (t : Text) : written t = t ↔ Written t := by
  have hwritten : written t =
      (t.takeWhile (· ≠ 0)).take ((t.takeWhile (· ≠ 0)).length % 2 ^ 16) := rfl
  rw [hwritten]
  constructor
  · intro h
    have hlen := congrArg List.length h
    have hle := (List.takeWhile_prefix (l := t) (· ≠ 0)).length_le
    rw [List.length_take] at hlen
    -- nothing was left out by either step
    have hdata : t.takeWhile (· ≠ 0) = t :=
      (List.takeWhile_prefix _).eq_of_length (by omega)
    rw [hdata] at hlen
    refine ⟨fun hzero => ?_, by omega⟩
    exact absurd (List.takeWhile_eq_self_iff.mp hdata 0 hzero) (by decide)
  · rintro ⟨hzero, hlen⟩
    have hdata : t.takeWhile (· ≠ 0) = t :=
      List.takeWhile_eq_self_iff.mpr fun c hc => decide_eq_true (ne_of_mem_of_not_mem hc hzero)
    rw [hdata, Nat.mod_eq_of_lt hlen, List.take_length]

/-- Texts with dots between them. -/
def joined (ts : List Text) : Text := (text ".").intercalate ts

theorem joined_cons {ts : List Text} (hne : ts ≠ []) (t : Text) :
    joined (t :: ts) = t ++ '.'.toUInt8 :: joined ts := by
  obtain ⟨u, us, rfl⟩ := List.exists_cons_of_ne_nil hne
  rw [joined, List.intercalate_cons_cons, List.append_assoc]
  rfl

theorem joined_singleton (t : Text) : joined [t] = t := List.intercalate_singleton

theorem joined_eq_flatMap (t : Text) (ts : List Text) :
    joined (t :: ts) = t ++ ts.flatMap ('.'.toUInt8 :: ·) := by
  induction ts generalizing t with
  | nil => rw [joined_singleton, List.flatMap_nil, List.append_nil]
  | cons u ts ih => rw [joined_cons (List.cons_ne_nil _ _), ih, List.flatMap_cons, List.cons_append]

/-- **What is written are the beginnings of the names**, with dots between them. -/
theorem appendIdentifierName_eq (dest : Text) (id : TNameIdentifier) :
    appendIdentifierName dest id =
      dest ++ joined (id.names.map fun name => written (text name)) := by
  have hloop : ∀ (names : List StringId) (dest : Text),
      names.foldl (fun dest name => appendCString (appendCString dest (text ".")) (text name))
        dest = dest ++ (names.map fun name => written (text name)).flatMap ('.'.toUInt8 :: ·) := by
    intro names
    induction names with
    | nil => exact fun dest => (List.append_nil dest).symm
    | cons name names ih =>
      intro dest
      have hdot : appendCString dest (text ".") = dest ++ text "." := rfl
      rw [List.foldl_cons, ih, hdot, appendCString_eq, List.map_cons, List.flatMap_cons,
        List.append_assoc, List.append_assoc, List.cons_append]
      rfl
  rw [appendIdentifierName]
  split
  · rename_i hnil
    rw [hnil]
    exact (List.append_nil dest).symm
  · rename_i name names hcons
    rw [hcons, hloop, List.map_cons, joined_eq_flatMap, appendCString_eq, List.append_assoc]

/-- Beginnings that together are as long as the texts are the texts. -/
theorem joined_inj {ts us : List Text} (h : List.Forall₂ (· <+: ·) us ts)
    (heq : joined us = joined ts) : us = ts := by
  have hlen : ∀ {us ts : List Text}, List.Forall₂ (· <+: ·) us ts →
      (joined us).length ≤ (joined ts).length := by
    intro us ts h
    induction h with
    | nil => exact Nat.le_refl _
    | @cons u t us ts hut h ih =>
      have hle := hut.length_le
      cases h with
      | nil =>
        rw [joined_singleton, joined_singleton]
        exact hle
      | cons _ _ =>
        rw [joined_cons (List.cons_ne_nil _ _), joined_cons (List.cons_ne_nil _ _),
          List.length_append, List.length_append, List.length_cons, List.length_cons]
        omega
  induction h with
  | nil => rfl
  | @cons u t us ts hut h ih =>
    cases h with
    | nil =>
      rw [joined_singleton, joined_singleton] at heq
      rw [heq]
    | cons hut' h' =>
      have hrest := hlen (List.Forall₂.cons hut' h')
      rw [joined_cons (List.cons_ne_nil _ _), joined_cons (List.cons_ne_nil _ _)] at heq
      have htotal := congrArg List.length heq
      rw [List.length_append, List.length_append, List.length_cons, List.length_cons] at htotal
      obtain rfl : u = t := hut.eq_of_length (by have := hut.length_le; omega)
      have htail := List.append_cancel_left heq
      rw [ih (List.cons.inj htail).2]

/-- Names are written as they are exactly if each of them is. -/
theorem joined_written_iff (ts : List Text) :
    joined (ts.map written) = joined ts ↔ ∀ t ∈ ts, Written t := by
  have hprefix : List.Forall₂ (· <+: ·) (ts.map written) ts :=
    List.forall₂_map_left_iff.mpr (List.forall₂_same.mpr fun t _ => written_isPrefix t)
  have heach : ts.map written = ts ↔ ∀ t ∈ ts, Written t := by
    conv_lhs => rw [← List.map_id ts, List.map_map, List.map_inj_left]
    exact forall₂_congr fun t _ => written_eq_iff t
  exact ⟨fun h => heach.mp (joined_inj hprefix h), fun h => by rw [heach.mpr h]⟩

/-! ### What is read -/

/-- **A text that is read as names is these names** with dots between them. -/
theorem eq_joined_of_dotted {allow : Bool} {t : Text} {names : List StringId}
    (h : Dotted allow t names) : t = joined (names.map text) := by
  induction h with
  | last _ _ => rw [List.map_singleton, joined_singleton, text_insert]
  | emptyLast _ _ _ =>
    rw [List.map_cons, List.map_singleton, joined_cons (List.cons_ne_nil _ _), joined_singleton,
      text_insert, text_insert]
    rfl
  | cons _ _ h ih =>
    rw [List.map_cons, text_insert, joined_cons, ← ih, List.append_assoc]
    · rfl
    · rintro hnil
      cases h <;> cases hnil

theorem dotted_joined {ts : List Text} (hne : ts ≠ [])
    (hts : ∀ t ∈ ts, t ≠ [] ∧ '.'.toUInt8 ∉ t) (allow : Bool) :
    Dotted allow (joined ts) (ts.map .insert) := by
  induction ts with
  | nil => exact absurd rfl hne
  | cons t ts ih =>
    obtain ⟨ht, hdot⟩ := hts t List.mem_cons_self
    by_cases hnil : ts = []
    · subst hnil
      rw [joined_singleton]
      exact .last ht hdot
    · have h := Dotted.cons ht hdot (ih hnil fun u hu => hts u (List.mem_cons_of_mem t hu))
      rw [List.append_assoc] at h
      rw [joined_cons hnil]
      exact h

/-- `parseIdentifier` at a name with a dot behind it. -/
theorem parseIdentifier_append {allow : Bool} {t : Text} (ht : t ≠ [])
    (hdot : '.'.toUInt8 ∉ t) (rest : Text) (id : TNameIdentifier) :
    parseIdentifier allow (t ++ '.'.toUInt8 :: rest) id =
      match id.tryPushBack (.insert t) with
      | none => .error .overflow
      | some id =>
        if rest = [] then do
          demand .badParams (allow = true)
          required .overflow (id.tryPushBack (.insert []))
        else parseIdentifier allow rest id := by
  have hall : ∀ c ∈ t, decide (c ≠ '.'.toUInt8) = true := fun c hc =>
    decide_eq_true (ne_of_mem_of_not_mem hc hdot)
  have htake : (t ++ '.'.toUInt8 :: rest).takeWhile (· ≠ '.'.toUInt8) = t := by
    rw [List.takeWhile_append_of_pos hall, List.takeWhile_cons_of_neg (by decide), List.append_nil]
  have hdrop : (t ++ '.'.toUInt8 :: rest).dropWhile (· ≠ '.'.toUInt8) = '.'.toUInt8 :: rest := by
    rw [List.dropWhile_append_of_pos hall, List.dropWhile_cons_of_neg (by decide)]
  rw [parseIdentifier, if_neg (List.append_ne_nil_of_left_ne_nil ht _), htake]
  split
  · rename_i hnil
    exact absurd (hdrop.symm.trans hnil) (List.cons_ne_nil _ _)
  · rename_i c rest' hcons
    obtain ⟨-, rfl⟩ := List.cons.inj (hdrop.symm.trans hcons)
    have hdemand : demand EMGMResponse.badParams (t ≠ []) = .ok () := demand_eq_ok.mpr ht
    dsimp only
    rw [hdemand]
    cases id.tryPushBack (.insert t) with
    | none => rfl
    | some id => rfl

/-- Without a dot, the text is a name. -/
theorem parseIdentifier_last {allow : Bool} {t : Text} (ht : t ≠ []) (hdot : '.'.toUInt8 ∉ t)
    (id : TNameIdentifier) :
    parseIdentifier allow t id = required .overflow (id.tryPushBack (.insert t)) := by
  have hdrop : t.dropWhile (· ≠ '.'.toUInt8) = [] :=
    List.dropWhile_eq_nil_iff.mpr fun c hc => decide_eq_true (ne_of_mem_of_not_mem hc hdot)
  rw [parseIdentifier, if_neg ht]
  split
  · rfl
  · rename_i hcons
    exact absurd (hdrop.symm.trans hcons) (List.cons_ne_nil _ _).symm

theorem tryPushBack_of_full {id : TNameIdentifier}
    (h : id.names.length = cgMaxSupportedNameHierarchy) (name : StringId) :
    id.tryPushBack name = none :=
  dif_neg (by rw [h]; exact Nat.lt_irrefl _)

theorem tryPushBack_of_lt {id : TNameIdentifier}
    (h : id.names.length < cgMaxSupportedNameHierarchy) (name : StringId) :
    ∃ id', id.tryPushBack name = some id' ∧ id'.names.length = id.names.length + 1 := by
  refine ⟨_, dif_pos h, ?_⟩
  rw [List.length_append, List.length_singleton]

/-- **More names than there is room for are an overflow**: none of them is left out. -/
theorem parseIdentifier_overflow {allow : Bool} {t : Text} {names : List StringId}
    (h : Dotted allow t names) {id : TNameIdentifier}
    (hlen : cgMaxSupportedNameHierarchy < id.names.length + names.length) :
    parseIdentifier allow t id = .error .overflow := by
  induction h generalizing id with
  | last hne hdot =>
    have hfull : id.names.length = cgMaxSupportedNameHierarchy :=
      Nat.le_antisymm id.bound (Nat.le_of_lt_succ hlen)
    rw [parseIdentifier_last hne hdot, tryPushBack_of_full hfull]
    rfl
  | emptyLast hallow hne hdot =>
    rw [← List.append_nil (text "."), text_dot_append, parseIdentifier_append hne hdot]
    rcases Nat.lt_or_eq_of_le id.bound with hroom | hfull
    · -- there is room for the name, but not for the empty one
      obtain ⟨id', hpush, hid'⟩ := tryPushBack_of_lt hroom (.insert _)
      have hfull : id'.names.length = cgMaxSupportedNameHierarchy := by
        simp only [List.length_cons, List.length_nil] at hlen
        omega
      rw [hpush, hallow]
      simp only [if_true, tryPushBack_of_full hfull]
      rfl
    · rw [tryPushBack_of_full hfull]
  | cons hne hdot h ih =>
    rw [List.append_assoc, text_dot_append, parseIdentifier_append hne hdot]
    rcases Nat.lt_or_eq_of_le id.bound with hroom | hfull
    · obtain ⟨id', hpush, hid'⟩ := tryPushBack_of_lt hroom (.insert _)
      rw [hpush]
      simp only [if_neg h.ne_nil]
      refine ih ?_
      rw [List.length_cons] at hlen
      omega
    · rw [tryPushBack_of_full hfull]

/-! ### Round trips -/

/-- **Identifiers in texts.** An identifier is restored from what is written of it exactly if
each of its names is a C string whose length 16 bits can say, and so is a text that is read as
an identifier; more names than there is room for are refused. -/
theorem identifiers_restored_iff (allow : Bool) :
    (∀ (ts : List Text) (id : TNameIdentifier), id.names = ts.map .insert → ts ≠ [] →
      (∀ t ∈ ts, t ≠ [] ∧ '.'.toUInt8 ∉ t) →
        (parseIdentifier allow (appendIdentifierName [] id) .nil = .ok id ↔
          ∀ t ∈ ts, 0 ∉ t ∧ t.length < 2 ^ 16)) ∧
    (∀ (t : Text) (id : TNameIdentifier), parseIdentifier allow t .nil = .ok id →
      (appendIdentifierName [] id = t ↔
        ∀ name ∈ id.names, 0 ∉ text name ∧ (text name).length < 2 ^ 16)) ∧
    ∀ (t : Text) (names : List StringId), Dotted allow t names →
      cgMaxSupportedNameHierarchy < names.length →
        parseIdentifier allow t .nil = .error .overflow := by
  refine ⟨fun ts id hid hne hts => ?_, fun t id hread => ?_, fun t names h hlen => ?_⟩
  · have hnames : id.names.map text = ts := by
      rw [hid, List.map_map]
      exact (List.map_congr_left fun t _ => text_insert t).trans (List.map_id ts)
    have hwritten : appendIdentifierName [] id = joined (ts.map written) := by
      rw [appendIdentifierName_eq, List.nil_append, ← hnames, List.map_map]
      rfl
    have hiff := joined_written_iff ts
    rw [parseIdentifier_nil_eq_ok, hwritten]
    constructor
    · intro h
      exact hiff.mp (by rw [eq_joined_of_dotted h, hnames])
    · intro h
      rw [hiff.mpr h, hid]
      exact dotted_joined hne hts allow
  · have hdotted := parseIdentifier_nil_eq_ok.mp hread
    have hwritten : appendIdentifierName [] id = joined ((id.names.map text).map written) := by
      rw [appendIdentifierName_eq, List.nil_append, List.map_map]
      rfl
    rw [hwritten, eq_joined_of_dotted hdotted, joined_written_iff]
    exact List.forall_mem_map
  · refine parseIdentifier_overflow h ?_
    exact Nat.lt_of_lt_of_le hlen (Nat.le_add_left _ _)

/-- A name with a terminator in it is cut there. -/
theorem name_with_terminator_cut :
    ∃ id, parseIdentifier true [65, 0, 66, 46, 88] .nil = .ok id ∧
      appendIdentifierName [] id = text "A.X" := by
  refine ⟨⟨[.insert [65, 0, 66], .insert [88]], by decide⟩, ?_, by decide +kernel⟩
  rw [parseIdentifier_nil_eq_ok]
  exact .cons (t := [65, 0, 66]) (by decide) (by decide) (.last (by decide) (by decide))

end CommandParser

end Forte
