import Forte.Communication.LayerIds

/-!
# The identifiers of channels

`parseComId` reads the names of channels with their configurations in brackets, joined by dots.
Its loop ends behind the text, or behind a character that is not a dot, which it has passed over
then; and the names are what is in front of the first bracket, whatever that is.

What is read is therefore `Forte.Com.Reads`: a list of descriptors that may be followed by one
character that is not a dot. `Forte.Com.parseComId_eq_nil_iff` says that all other texts are
refused, and `Forte.Com.parsed_iff` which texts are read as they should be.
-/

namespace Forte.Com

open ComInfra (brackets closingBracket layerText render Opens layerText_append)

/-- `ComChannelDescriptor`. -/
structure ComChannelDescriptor (StringId : Type) where
  mChannel : StringId
  mConfigString : Text

/-- `find` of a character from a position on. -/
def find (paString : Text) (c : UInt8) (paStart : ℕ) : Option ℕ :=
  if c ∈ paString.drop paStart then some (paStart + (paString.drop paStart).idxOf c) else none

/-- `substr`. -/
def substr (paString : Text) (paStart count : ℕ) : Text := (paString.drop paStart).take count

/-- `findClosingBracket`. -/
def findClosingBracket (paString : Text) (paStart : ℕ) : Option ℕ :=
  (closingBracket 1 (paString.drop paStart)).map (paStart + ·)

variable {StringId : Type} (lookup : Text → StringId)

/-- `parseChannelDescriptor`: the position behind it and the descriptor; `none` is `npos`. -/
def parseChannelDescriptor (paID : Text) (paStart : ℕ) :
    Option (ℕ × ComChannelDescriptor StringId) :=
  match find paID brackets.opening paStart with
  | none => none
  | some openingBracket =>
    match findClosingBracket paID (openingBracket + 1) with
    | none => none
    | some closingBracket =>
      some (closingBracket + 1,
        ⟨lookup (substr paID paStart (openingBracket - paStart)),
          substr paID (openingBracket + 1) (closingBracket - openingBracket - 1)⟩)

/-! ### A descriptor in the text -/

variable {lookup}

/-- What a descriptor is made of. -/
def descriptor (lookup : Text → StringId) (channel : Text × Text) :
    ComChannelDescriptor StringId := ⟨lookup channel.1, channel.2⟩

theorem find_append {t rest name : Text} {c : UInt8} {start : ℕ}
    (ht : t.drop start = name ++ c :: rest) (hc : c ∉ name) :
    find t c start = some (start + name.length) := by
  rw [find, ht, if_pos (List.mem_append_right name List.mem_cons_self),
    List.idxOf_append_of_notMem hc, List.idxOf_cons_self, Nat.add_zero]

/-- What is behind the first characters, and the character behind them. -/
theorem drop_append_cons {t rest name : Text} {c : UInt8} {start : ℕ}
    (ht : t.drop start = name ++ c :: rest) : t.drop (start + name.length + 1) = rest := by
  rw [Nat.add_assoc, ← List.drop_drop, ht, ← List.drop_drop, List.drop_left]
  rfl

theorem findClosingBracket_eq (t : Text) (start : ℕ) : findClosingBracket t start =
    (brackets.close 0 (t.drop start)).map fun r => start + r.1.length := by
  have hcount := ComInfra.closingBracket_eq 0 (t.drop start)
  rw [findClosingBracket, show (1 : ℤ) = ((0 : ℕ) : ℤ) + 1 from rfl, hcount, Option.map_map]
  rfl

/-- **A descriptor is read** where a name without an opening bracket is followed by a balanced
configuration in brackets. -/
theorem parseChannelDescriptor_append {t behind : Text} {start : ℕ} {channel : Text × Text}
    (h : Opens channel) (ht : t.drop start = layerText channel ++ behind) :
    parseChannelDescriptor lookup t start =
      some (start + (layerText channel).length, descriptor lookup channel) := by
  obtain ⟨name, config⟩ := channel
  rw [layerText_append] at ht
  have hinner := drop_append_cons ht
  have hname : substr t start (start + name.length - start) = name := by
    rw [substr, ht, Nat.add_sub_cancel_left, List.take_left]
  have hconfig : substr t (start + name.length + 1)
      (start + name.length + 1 + config.length - (start + name.length) - 1) = config := by
    have hlength : start + name.length + 1 + config.length - (start + name.length) - 1 =
        config.length := by omega
    rw [substr, hinner, hlength, List.take_left]
  have hclose : brackets.close 0 (config ++ brackets.closing :: behind) = some (config, behind) :=
    brackets.close_eq_some_iff.mpr ⟨rfl, h.params⟩
  have hend : start + name.length + 1 + config.length + 1 =
      start + (layerText (name, config)).length := by
    simp only [layerText, List.length_append, List.length_cons, List.length_nil]
    omega
  rw [parseChannelDescriptor, find_append ht h.name]
  dsimp only
  rw [findClosingBracket_eq, hinner, hclose]
  dsimp only [Option.map_some]
  rw [hname, hconfig, hend]
  rfl

/-- Nothing else is read as a descriptor. -/
theorem exists_of_parseChannelDescriptor {t : Text} {start : ℕ}
    {r : ℕ × ComChannelDescriptor StringId} (h : parseChannelDescriptor lookup t start = some r) :
    ∃ channel behind, Opens channel ∧ t.drop start = layerText channel ++ behind := by
  by_cases hmem : brackets.opening ∈ t.drop start
  · obtain ⟨name, inner, ht, hname⟩ := List.eq_append_cons_of_mem hmem
    rw [parseChannelDescriptor, find_append ht hname] at h
    dsimp only at h
    rw [findClosingBracket_eq, drop_append_cons ht] at h
    cases hclose : brackets.close 0 inner with
    | none =>
      rw [hclose] at h
      exact absurd h (by simp)
    | some split =>
      obtain ⟨config, behind⟩ := split
      obtain ⟨rfl, hbalanced⟩ := brackets.close_eq_some_iff.mp hclose
      refine ⟨(name, config), behind, ⟨hname, hbalanced⟩, ?_⟩
      rw [layerText_append]
      exact ht
  · rw [parseChannelDescriptor, find, if_neg hmem] at h
    exact absurd h (by simp)

/-! ### The loop -/

section

variable (lookup)

/-- The loop of `parseComId`, with what has been read. -/
def parseLoop (paId : Text) (result : List (ComChannelDescriptor StringId)) (start : ℕ) :
    List (ComChannelDescriptor StringId) :=
  match h : parseChannelDescriptor lookup paId start with
  | none => []
  | some (stop, d) =>
    if hlt : stop < paId.length then
      if paId[stop] = '.'.toUInt8 then parseLoop paId (result ++ [d]) (stop + 1)
      else if stop + 1 < paId.length then []
      else result ++ [d]
    else result ++ [d]
  termination_by paId.length + 1 - start
  decreasing_by
    obtain ⟨channel, behind, hopens, ht⟩ := exists_of_parseChannelDescriptor h
    rw [parseChannelDescriptor_append hopens ht] at h
    have hstop : start + (layerText channel).length = stop :=
      congrArg Prod.fst (Option.some.inj h)
    omega

/-- `parseComId`. -/
def parseComId (paId : Text) : List (ComChannelDescriptor StringId) := parseLoop lookup paId [] 0

end

/-- What the loop does behind a descriptor depends on the next character, and on whether it is
the last one. -/
def behindDescriptor (lookup : Text → StringId) (t : Text)
    (result : List (ComChannelDescriptor StringId)) (stop : ℕ) :
    Text → List (ComChannelDescriptor StringId)
  | [] => result
  | c :: rest =>
    if c = '.'.toUInt8 then parseLoop lookup t result (stop + 1)
    else if rest = [] then result else []

theorem parseLoop_append {t behind : Text} {start : ℕ} {channel : Text × Text}
    (h : Opens channel) (ht : t.drop start = layerText channel ++ behind)
    (result : List (ComChannelDescriptor StringId)) :
    parseLoop lookup t result start = behindDescriptor lookup t
      (result ++ [descriptor lookup channel]) (start + (layerText channel).length) behind := by
  have hread : parseChannelDescriptor lookup t start = _ := parseChannelDescriptor_append h ht
  have hlength := congrArg List.length ht
  rw [List.length_drop, List.length_append] at hlength
  have hpos : 0 < (layerText channel).length := by
    rw [layerText, List.length_append, List.length_cons]
    omega
  rw [parseLoop]
  split
  · rename_i hnone
    exact absurd (hnone.symm.trans hread) (by simp)
  · rename_i stop d hsome
    obtain ⟨rfl, rfl⟩ := Prod.mk.inj (Option.some.inj (hsome.symm.trans hread))
    cases behind with
    | nil =>
      rw [List.length_nil] at hlength
      exact dif_neg (by omega)
    | cons c rest =>
      rw [List.length_cons] at hlength
      have hlt : start + (layerText channel).length < t.length := by omega
      have hat : t[start + (layerText channel).length] = c := by
        have hget := congrArg (fun u : Text => u[(layerText channel).length]?) ht
        rw [List.getElem?_drop, List.getElem?_append_right (le_refl _), Nat.sub_self,
          List.getElem?_eq_getElem hlt] at hget
        exact Option.some.inj hget
      have hrest : start + (layerText channel).length + 1 < t.length ↔ rest ≠ [] := by
        rw [← List.length_pos_iff]
        omega
      rw [dif_pos hlt, hat, behindDescriptor]
      split
      · rfl
      · by_cases hnil : rest = []
        · rw [if_pos hnil, if_neg fun hmore => hrest.mp hmore hnil]
        · rw [if_neg hnil, if_pos (hrest.mpr hnil)]

/-! ### Which texts are read -/

/-- **Descriptors joined by dots**, with at most one character behind them that is not a dot. -/
structure Reads (t : Text) (channels : List (Text × Text)) (last : Option UInt8) : Prop where
  ne_nil : channels ≠ []
  opens : ∀ channel ∈ channels, Opens channel
  ne_dot : ∀ c ∈ last, c ≠ '.'.toUInt8
  eq : t = render channels ++ last.toList

theorem render_singleton (channel : Text × Text) : render [channel] = layerText channel := by
  rw [render, List.map_singleton, List.intercalate_singleton]

theorem render_cons_cons (channel channel' : Text × Text) (channels : List (Text × Text)) :
    render (channel :: channel' :: channels) =
      layerText channel ++ '.'.toUInt8 :: render (channel' :: channels) := by
  rw [render, List.map_cons, List.map_cons, List.intercalate_cons_cons, List.append_assoc]
  rfl

/-- The descriptors are what is read. -/
theorem parseLoop_of_reads {t : Text} {start : ℕ} {channels : List (Text × Text)}
    {last : Option UInt8} (h : Reads (t.drop start) channels last)
    (result : List (ComChannelDescriptor StringId)) :
    parseLoop lookup t result start = result ++ channels.map (descriptor lookup) := by
  induction channels generalizing start result with
  | nil => exact absurd rfl h.ne_nil
  | cons channel channels ih =>
    obtain ⟨hchannel, hchannels⟩ := List.forall_mem_cons.mp h.opens
    cases channels with
    | nil =>
      have ht := h.eq
      rw [render_singleton] at ht
      rw [parseLoop_append hchannel ht]
      cases last with
      | none => rfl
      | some c => exact (if_neg (h.ne_dot c rfl)).trans (if_pos rfl)
    | cons channel' channels =>
      have ht := h.eq
      rw [render_cons_cons, List.append_assoc, List.cons_append] at ht
      have hmore : Reads (t.drop (start + (layerText channel).length + 1))
          (channel' :: channels) last :=
        ⟨List.cons_ne_nil _ _, hchannels, h.ne_dot, drop_append_cons ht⟩
      rw [parseLoop_append hchannel ht]
      rw [behindDescriptor, if_pos rfl, ih hmore, List.append_assoc]
      rfl

theorem Reads.parseComId_eq {t : Text} {channels : List (Text × Text)} {last : Option UInt8}
    (h : Reads t channels last) : parseComId lookup t = channels.map (descriptor lookup) :=
  @parseLoop_of_reads _ lookup t 0 channels last h []

/-- Nothing else is read. -/
theorem exists_reads {t : Text} {start : ℕ} {result : List (ComChannelDescriptor StringId)}
    (h : parseLoop lookup t result start ≠ []) : ∃ channels last,
      Reads (t.drop start) channels last := by
  induction hn : (t.drop start).length using Nat.strong_induction_on generalizing start result with
  | _ n ih =>
    cases hread : parseChannelDescriptor lookup t start with
    | none =>
      rw [parseLoop] at h
      split at h
      · exact absurd rfl h
      · rename_i hsome
        exact absurd (hsome.symm.trans hread) (by simp)
    | some r =>
      obtain ⟨channel, behind, hopens, ht⟩ := exists_of_parseChannelDescriptor hread
      have hone : ∀ c ∈ [channel], Opens c := List.forall_mem_singleton.mpr hopens
      rw [parseLoop_append hopens ht] at h
      cases behind with
      | nil =>
        refine ⟨[channel], none, List.cons_ne_nil _ _, hone, nofun, ?_⟩
        rw [render_singleton]
        exact ht
      | cons c rest =>
        rw [behindDescriptor] at h
        split at h
        · rename_i hdot
          have hrest := drop_append_cons ht
          have hlt : rest.length < n := by
            rw [← hn, ht, List.length_append, List.length_cons]
            omega
          rw [hdot] at ht
          obtain ⟨channels, last, hreads⟩ := ih _ hlt h (by rw [hrest])
          rw [hrest] at hreads
          obtain ⟨channel', channels', rfl⟩ := List.exists_cons_of_ne_nil hreads.ne_nil
          refine ⟨channel :: channel' :: channels', last, List.cons_ne_nil _ _,
            List.forall_mem_cons.mpr ⟨hopens, hreads.opens⟩, hreads.ne_dot, ?_⟩
          rw [ht, render_cons_cons, List.append_assoc, List.cons_append, ← hreads.eq]
        · rename_i hdot
          split at h
          · rename_i hnil
            refine ⟨[channel], some c, List.cons_ne_nil _ _, hone, fun c' hc' => ?_, ?_⟩
            · rwa [← Option.mem_some_iff.mp hc']
            · rw [render_singleton, ht, hnil]
              rfl
          · exact absurd rfl h

/-- **A text is refused** if it is nothing that can be read. -/
theorem parseComId_eq_nil_iff {t : Text} :
    parseComId lookup t = [] ↔ ∀ channels last, ¬Reads t channels last := by
  constructor
  · intro hnil channels last hreads
    have hparse : parseComId lookup t = _ := hreads.parseComId_eq
    exact hreads.ne_nil (List.map_eq_nil_iff.mp (hparse.symm.trans hnil))
  · intro hnone
    by_contra hne
    obtain ⟨channels, last, hreads⟩ := exists_reads hne
    exact hnone channels last hreads

/-- What can be read can be read in one way only. -/
theorem Reads.unique {t : Text} {channels channels' : List (Text × Text)}
    {last last' : Option UInt8} (h : Reads t channels last) (h' : Reads t channels' last') :
    channels = channels' := by
  have hparse : parseComId id t = _ := h.parseComId_eq
  have hparse' : parseComId id t = _ := h'.parseComId_eq
  have hinjective : Function.Injective (descriptor (id : Text → Text)) := by
    rintro ⟨name, config⟩ ⟨name', config'⟩ heq
    obtain ⟨rfl, rfl⟩ := ComChannelDescriptor.mk.inj heq
    rfl
  exact hinjective.list_map (hparse.symm.trans hparse')

/-! ### Which texts are read as they should be -/

/-- A list of channels, the names of which do not begin with a dot. -/
structure Proper (channels : List (Text × Text)) : Prop where
  ne_nil : channels ≠ []
  opens : ∀ channel ∈ channels, Opens channel
  ne_dot : ∀ channel ∈ channels, channel.1.head? ≠ some '.'.toUInt8

/-- **What is asked of the parser**: it returns the list that was written, and refuses texts that
are not written so. -/
def Meets (lookup : Text → StringId) (t : Text) : Prop :=
  (∀ channels, Proper channels → t = render channels →
      parseComId lookup t = channels.map (descriptor lookup)) ∧
    ((∀ channels, Proper channels → t ≠ render channels) → parseComId lookup t = [])

/-- **A text that is read though it should not be**: there is one character behind its last
bracket, or one of its names begins with a dot. -/
def Lenient (t : Text) : Prop :=
  ∃ channels last, Reads t channels last ∧
    (last ≠ none ∨ ∃ channel ∈ channels, channel.1.head? = some '.'.toUInt8)

theorem Proper.reads {channels : List (Text × Text)} (h : Proper channels) :
    Reads (render channels) channels none where
  ne_nil := h.ne_nil
  opens := h.opens
  ne_dot _ hc := absurd hc (Option.not_mem_none _)
  eq := (List.append_nil _).symm

theorem Lenient.not_meets {t : Text} (h : Lenient t) (lookup : Text → StringId) :
    ¬Meets lookup t := by
  rintro ⟨-, hrefuses⟩
  obtain ⟨channels, last, hreads, hlenient⟩ := h
  refine (parseComId_eq_nil_iff.mp (hrefuses fun channels' hproper heq => ?_)) _ _ hreads
  rw [heq] at hreads
  obtain rfl := hreads.unique hproper.reads
  rcases hlenient with hlast | ⟨channel, hmem, hdot⟩
  · have hnil := List.append_cancel_left (hreads.eq.symm.trans hproper.reads.eq)
    exact hlast (Option.toList_eq_nil_iff.mp hnil)
  · exact hproper.ne_dot channel hmem hdot

/-- **A text is read as it should be if and only if the parser is not too lenient with it.** -/
theorem parsed_iff (lookup : Text → StringId) (t : Text) : Meets lookup t ↔ ¬Lenient t := by
  refine ⟨fun hmeets hlenient => hlenient.not_meets lookup hmeets, fun hnot => ⟨?_, ?_⟩⟩
  · rintro channels hproper rfl
    exact hproper.reads.parseComId_eq
  · intro hnone
    refine parseComId_eq_nil_iff.mpr fun channels last hreads => ?_
    have hproper : Proper channels := by
      refine ⟨hreads.ne_nil, hreads.opens, fun channel hmem hdot => hnot ?_⟩
      exact ⟨channels, last, hreads, .inr ⟨channel, hmem, hdot⟩⟩
    cases last with
    | none => exact hnone channels hproper (hreads.eq.trans (List.append_nil _))
    | some c => exact hnot ⟨channels, some c, hreads, .inl (Option.some_ne_none c)⟩

/-- The character behind the bracket of `A[x]y` is passed over. -/
theorem not_meets_trailing : ¬Meets (id : Text → Text) (text "A[x]y") := by
  refine Lenient.not_meets ⟨[(text "A", text "x")], some 'y'.toUInt8,
    ⟨List.cons_ne_nil _ _, ?_, ?_, rfl⟩, .inl (Option.some_ne_none _)⟩ id
  · refine List.forall_mem_singleton.mpr ⟨?_, ?_⟩
    · decide
    · decide
  · rintro c ⟨⟩
    decide

end Forte.Com
