import Forte.Management.Grammar
import Mathlib.Algebra.Group.Nat.Even

/-!
# Which requests are accepted

The parser reads every complete request as what it says, and refuses the other texts without
executing anything, but for the incomplete requests of `Forte.Management.Grammar`: those it
executes. `Forte.judges_iff` says so. No text is both a complete request and an incomplete one
(`Forte.CompleteRequest.not_incomplete`), which comes down to the first characters behind the
tag of the request, the last character of the text, and whether the quotes of an element are
even in number.
-/

namespace Forte

open CommandParser

/-! ### Quotes -/

/-- The number of quotes in a text. -/
def quotes (t : Text) : ℕ := t.count '"'.toUInt8

@[simp]
theorem quotes_append (s t : Text) : quotes (s ++ t) = quotes s + quotes t := List.count_append

theorem Unquoted.quotes_eq {t : Text} (h : Unquoted t) : quotes t = 0 := List.count_eq_zero.mpr h

theorem White.quotes_eq {w : Text} (h : White w) : quotes w = 0 := h.unquoted.quotes_eq

theorem FBData.even_quotes {complete : Bool} {e hash : Text} {first second : TNameIdentifier}
    (h : FBData complete e first second hash) : Even (quotes e) ↔ complete = true := by
  cases h with
  | complete hn ht hw hw' =>
    simp only [quotes_append, hn.quotes_eq, ht.quotes_eq, hw.quotes_eq, hw'.quotes_eq]
    decide
  | unclosed hn hw hw' =>
    simp only [quotes_append, hn.quotes_eq, hw.quotes_eq, hw'.quotes_eq]
    decide

theorem LinkData.even_quotes {word e : Text} {first second : TNameIdentifier}
    (hword : Unquoted word) (h : LinkData word e first second) : Even (quotes e) := by
  cases h with
  | intro hs hd hw hw' =>
    simp only [quotes_append, hword.quotes_eq, hs.quotes_eq, hd.quotes_eq, hw.quotes_eq,
      hw'.quotes_eq]
    decide

theorem Force.even_quotes {value force : Text} {cmd : EMGMCommandType}
    (h : Force value force cmd) : Even (quotes force) := by
  cases h with
  | force hw =>
    rw [quotes_append, hw.quotes_eq]
    decide
  | clearForce hw =>
    rw [quotes_append, hw.quotes_eq]
    decide
  | triggerEvent => decide
  | resetEventCount => decide
  | write => decide

theorem WriteData.even_quotes {e value : Text} {cmd : EMGMCommandType} {first : TNameIdentifier}
    (h : WriteData e cmd first value) : Even (quotes e) := by
  cases h with
  | intro hs _ hd hw hw' _ hforce =>
    obtain ⟨n, hn⟩ := hforce.even_quotes
    simp only [quotes_append, hs.quotes_eq, hd.quotes_eq, hw.quotes_eq, hw'.quotes_eq, hn]
    exact (Even.add (Even.add (Even.add (by decide) ⟨n, rfl⟩) (by decide)) (by decide))

theorem TypesData.even_quotes {word e hash : Text} {single list cmd : EMGMCommandType}
    {first : TNameIdentifier} (hword : Unquoted word)
    (h : TypesData word single list e cmd first hash) : Even (quotes e) := by
  cases h with
  | any hw hw' =>
    simp only [quotes_append, hword.quotes_eq, hw.quotes_eq, hw'.quotes_eq]
    decide
  | name hn _ _ hw hw' =>
    simp only [quotes_append, hword.quotes_eq, hn.quotes_eq, hw.quotes_eq, hw'.quotes_eq]
    decide

/-- **The quotes of an element** are even in number just when it is complete. -/
theorem Element.even_quotes {action : Action} {complete : Bool} {e : Text} {content : Content}
    (h : Element action complete e content) : Even (quotes e) ↔ complete = true := by
  have hkinds : ∀ kind ∈ typeKinds, Unquoted kind.1 := by
    unfold Unquoted
    decide
  cases h with
  | fb _ h => exact h.even_quotes
  | connection _ h => exact iff_of_true (h.even_quotes (by unfold Unquoted; decide)) rfl
  | watch _ h => exact iff_of_true (h.even_quotes (by unfold Unquoted; decide)) rfl
  | watches => exact iff_of_true (by decide) rfl
  | write h => exact iff_of_true h.even_quotes rfl
  | types hkind h => exact iff_of_true (h.even_quotes (hkinds _ hkind)) rfl

/-! ### Complete or not -/

/-- What stands between the brackets of two tags: nothing, or an element and the second
bracket. -/
inductive Inner (action : Action) : Bool → Text → Prop
  | nothing : Inner action true []
  | element {complete : Bool} {el w : Text} {content : Content}
      (hel : Element action complete el content) (hw : White w) :
      Inner action complete (el ++ w ++ text "<")

theorem Inner.even_quotes {action : Action} {complete : Bool} {s : Text}
    (h : Inner action complete s) : Even (quotes s) ↔ complete = true := by
  cases h with
  | nothing => exact iff_of_true (by decide) rfl
  | element hel hw =>
    rw [quotes_append, quotes_append, hw.quotes_eq]
    exact hel.even_quotes

/-- Where the end tag is cut off, the text ends with a bracket that opens a tag. -/
theorem Inner.getLast_eq {action : Action} {complete : Bool} {s : Text}
    (h : Inner action complete s) : (text "<" ++ s).getLast? = some '<'.toUInt8 := by
  cases h with
  | nothing => rfl
  | element => rw [← List.append_assoc]; exact List.getLast?_concat

theorem EndTag.getLast_ne {e : Text} (h : EndTag true e) (s : Text) :
    (s ++ e).getLast? ≠ some '<'.toUInt8 := by
  cases h with
  | @complete w w' hw hw' =>
    intro hlast
    rcases List.eq_nil_or_concat w' with rfl | ⟨r, c, rfl⟩
    · rw [List.append_nil, ← List.append_assoc,
        show text "/Request>" = text "/Request" ++ text ">" from rfl, ← List.append_assoc] at hlast
      exact absurd (List.getLast?_concat.symm.trans hlast) (by decide)
    · rw [List.concat_eq_append] at hlast hw'
      rw [← List.append_assoc, ← List.append_assoc, List.getLast?_concat] at hlast
      obtain rfl := Option.some.inj hlast
      exact absurd (hw' _ (List.mem_append_right r List.mem_cons_self)) (by decide)

/-- The last character and the quotes say whether the text behind the tag of a request is
complete. -/
theorem Inner.complete_eq {action : Action} {complete complete' ended ended' : Bool}
    {s s' e e' : Text} (hs : Inner action complete s) (hs' : Inner action complete' s')
    (he : EndTag ended e) (he' : EndTag ended' e') (h : s ++ e = s' ++ e') :
    (complete && ended) = (complete' && ended') := by
  have hbracket : text "<" ++ s ++ e = text "<" ++ s' ++ e' := by
    rw [List.append_assoc, List.append_assoc, h]
  have hquotes : quotes s = quotes s' := by
    have hq := congrArg quotes h
    rw [quotes_append, quotes_append, he.unquoted.quotes_eq, he'.unquoted.quotes_eq] at hq
    exact hq
  have hended : ended = ended' := by
    cases he with
    | cut =>
      cases he' with
      | cut => rfl
      | complete hw hw' =>
        rw [List.append_nil] at hbracket
        exact absurd (hbracket ▸ hs.getLast_eq) ((EndTag.complete hw hw').getLast_ne _)
    | complete hw hw' =>
      cases he' with
      | cut =>
        rw [List.append_nil] at hbracket
        exact absurd (hbracket ▸ hs'.getLast_eq) ((EndTag.complete hw hw').getLast_ne _)
      | complete => rfl
  have hcomplete : complete = complete' := by
    rw [Bool.eq_iff_iff, ← hs.even_quotes, ← hs'.even_quotes, hquotes]
  rw [hended, hcomplete]

theorem Body.exists_inner {action : Action} {complete : Bool} {b : Text} {content : Content}
    (h : Body action complete b content) : ∃ closing rest, b = tagEnd closing ++ rest ∧
      ((White rest ∧ complete = closing) ∨ ∃ w c ended s e, White w ∧ Inner action c s ∧
        EndTag ended e ∧ rest = w ++ (text "<" ++ (s ++ e)) ∧
          complete = (!closing && (c && ended))) := by
  cases h with
  | closed _ hw => exact ⟨true, _, rfl, .inl ⟨hw, rfl⟩⟩
  | «open» _ hw => exact ⟨false, _, rfl, .inl ⟨hw, rfl⟩⟩
  | @empty closing ended w e _ hw hend =>
    simp only [List.append_assoc]
    exact ⟨closing, _, rfl, .inr ⟨w, true, ended, [], e, hw, .nothing, hend, rfl, rfl⟩⟩
  | @element closing c ended w el w' e _ hw hel hw' hend =>
    refine ⟨closing, w ++ (text "<" ++ (el ++ w' ++ text "<" ++ e)), ?_,
      .inr ⟨w, c, ended, _, e, hw, .element hel hw', hend, rfl, Bool.and_assoc _ _ _⟩⟩
    simp only [List.append_assoc]

/-- A text is the end of complete requests only, or of incomplete ones only. -/
theorem Body.complete_eq {action : Action} {complete complete' : Bool} {b : Text}
    {content content' : Content} (h : Body action complete b content)
    (h' : Body action complete' b content') : complete = complete' := by
  obtain ⟨closing, rest, rfl, hrest⟩ := h.exists_inner
  obtain ⟨closing', rest', hb, hrest'⟩ := h'.exists_inner
  obtain ⟨rfl, rfl⟩ : closing = closing' ∧ rest = rest' := by
    -- the two ends of a tag have different first characters
    cases closing <;> cases closing'
    · exact ⟨rfl, List.append_cancel_left hb⟩
    · exact absurd (show '>'.toUInt8 = '/'.toUInt8 from congrArg peek hb) (by decide)
    · exact absurd (show '/'.toUInt8 = '>'.toUInt8 from congrArg peek hb) (by decide)
    · exact ⟨rfl, List.append_cancel_left hb⟩
  have hbracket {w r : Text} : ¬White (w ++ (text "<" ++ r)) := fun hw =>
    absurd (hw '<'.toUInt8 (List.mem_append_right w List.mem_cons_self)) (by decide)
  rcases hrest with ⟨hw, rfl⟩ | ⟨w, c, ended, s, e, hw, hs, he, rfl, rfl⟩
  · rcases hrest' with ⟨-, rfl⟩ | ⟨_, _, _, _, _, -, -, -, rfl, -⟩
    · rfl
    · exact absurd hw hbracket
  · rcases hrest' with ⟨hw', -⟩ | ⟨w', c', ended', s', e', hw', hs', he', heq, rfl⟩
    · exact absurd hw' hbracket
    · have hstops (r : Text) : Stops isWhiteSpace (text "<" ++ r) :=
        stops_append (by decide) (by decide) r
      have hrest := (eq_of_skipped hw hw' (hstops _) (hstops _) heq).2
      rw [hs.complete_eq hs' he he' (List.append_cancel_left hrest)]

theorem Action.unquoted_name (action : Action) : Unquoted action.name := by
  unfold Unquoted
  cases action <;> decide

theorem Action.name_injective : Function.Injective Action.name := by
  intro action action' h
  cases action <;> cases action' <;> first | rfl | exact absurd h (by decide)

theorem Body.stops {action : Action} {complete : Bool} {b : Text} {content : Content}
    (h : Body action complete b content) : Stops isWhiteSpace b := by
  obtain ⟨closing, rest, rfl, -⟩ := h.exists_inner
  cases closing <;> exact stops_append (by decide) (by decide) rest

/-- The pieces of a request, each with its delimiter. -/
theorem Request.exists_body {complete : Bool} {t id : Text} {content : Content}
    (h : Request complete t id content) : ∃ action w w' b, Unquoted id ∧ White w ∧ White w' ∧
      Body action complete b content ∧ t = text "<Request ID=\"" ++ (id ++ '"'.toUInt8 ::
        (w ++ (text "Action=\"" ++ (action.name ++ '"'.toUInt8 :: (w' ++ b))))) := by
  obtain ⟨hid, hw, hw', hbody⟩ := h
  refine ⟨_, _, _, _, hid, hw, hw', hbody, ?_⟩
  simp only [List.append_assoc, text_quote_append, List.cons_append]

/-- **No text is a complete request and an incomplete one.** -/
theorem Request.complete_eq {complete complete' : Bool} {t id id' : Text}
    {content content' : Content} (h : Request complete t id content)
    (h' : Request complete' t id' content') : complete = complete' := by
  obtain ⟨action, w, w₁, b, hid, hw, hw₁, hbody, rfl⟩ := h.exists_body
  obtain ⟨action', w', w₁', b', hid', hw', hw₁', hbody', ht⟩ := h'.exists_body
  have hstops (r : Text) : Stops isWhiteSpace (text "Action=\"" ++ r) :=
    stops_append (by decide) (by decide) r
  have hattribute := (eq_of_delimited hid hid' (List.append_cancel_left ht)).2
  have hvalue := List.append_cancel_left
    (eq_of_skipped hw hw' (hstops _) (hstops _) hattribute).2
  obtain ⟨hname, htag⟩ := eq_of_delimited action.unquoted_name action'.unquoted_name hvalue
  obtain rfl := Action.name_injective hname
  obtain rfl := (eq_of_skipped hw₁ hw₁' hbody.stops hbody'.stops htag).2
  exact hbody.complete_eq hbody'

theorem CompleteRequest.not_incomplete {t : Text} (h : CompleteRequest t) :
    ¬IncompleteRequest t := by
  obtain ⟨id, content, h⟩ := h
  rintro ⟨id', content', h'⟩
  exact absurd (h.complete_eq h') nofun

/-! ### Refused texts -/

/-- A response that is not `Ready` to what is refused. -/
def Refuses {α : Type} (x : Except EMGMResponse α) : Prop := x ≠ .error .ready

section Refuses

variable {α β : Type} {e : EMGMResponse}

theorem refuses_ok (a : α) : Refuses (.ok a : Except EMGMResponse α) := nofun

theorem refuses_error (he : e ≠ .ready) : Refuses (.error e : Except EMGMResponse α) := by
  rintro ⟨⟩
  exact he rfl

theorem refuses_required (he : e ≠ .ready) (o : Option α) : Refuses (required e o) := by
  cases o with
  | none => exact refuses_error he
  | some a => exact refuses_ok a

theorem refuses_demand (he : e ≠ .ready) (p : Prop) [Decidable p] : Refuses (demand e p) := by
  unfold demand
  split
  · exact refuses_ok ()
  · exact refuses_error he

theorem Refuses.bind {x : Except EMGMResponse α} {f : α → Except EMGMResponse β}
    (hx : Refuses x) (hf : ∀ a, Refuses (f a)) : Refuses (x >>= f) := by
  cases x with
  | error r => exact refuses_error fun hr => hx (congrArg Except.error hr)
  | ok a => exact hf a

theorem Refuses.ite {p : Prop} [Decidable p] {x y : Except EMGMResponse α} (hx : Refuses x)
    (hy : Refuses y) : Refuses (if p then x else y) := by
  split
  · exact hx
  · exact hy

theorem Refuses.as {cmd : EMGMCommandType} {parsed : Parsed} (h : Refuses parsed) :
    Refuses (as cmd parsed) := by
  cases parsed with
  | error r => exact refuses_error fun hr => h (congrArg Except.error hr)
  | ok r => exact refuses_ok _

end Refuses

theorem Refuses.thenOpenBracket {parsed : Parsed} (h : Refuses parsed) :
    Refuses (thenOpenBracket parsed) :=
  h.bind fun _ => (refuses_required (by decide) _).bind fun _ => refuses_ok _

theorem refuses_parseIdentifier (allow : Bool) (s : Text) (id : TNameIdentifier) :
    Refuses (parseIdentifier allow s id) := by
  fun_induction parseIdentifier allow s id with
  | case1 id => exact refuses_error (by decide)
  | case2 => exact refuses_required (by decide) _
  | case3 t id hne segment c rest hdrop ih =>
    refine .bind (refuses_demand (by decide) _) fun _ => ?_
    refine .bind (refuses_required (by decide) _) fun id => .ite ?_ (ih id)
    exact .bind (refuses_demand (by decide) _) fun _ => refuses_required (by decide) _

section Parts

variable (c : SManagementCMD) (s : Text)

theorem refuses_parseNames (allow : Bool) (value : Text) (id : TNameIdentifier) :
    Refuses (parseNames allow value id) :=
  .ite (refuses_ok id) (refuses_parseIdentifier allow value id)

theorem refuses_parseType (value : Text) (id : TNameIdentifier) (hash : Text) :
    Refuses (parseType value id hash) :=
  .ite (refuses_ok _) (refuses_required (by decide) _)

theorem refuses_parseFBData : Refuses (parseFBData c s) := by
  refine .bind (refuses_required (by decide) _) fun s => ?_
  refine .bind (refuses_demand (by decide) _) fun _ => ?_
  refine .bind (refuses_parseNames _ _ _) fun _ => ?_
  refine .bind (refuses_required (by decide) _) fun s => ?_
  refine .bind (refuses_parseType _ _ _) fun _ => ?_
  exact .bind (refuses_required (by decide) _) fun _ => refuses_ok _

theorem refuses_parseConnectionContent : Refuses (parseConnectionContent c s) := by
  refine .bind (refuses_required (by decide) _) fun s => ?_
  refine .bind (refuses_demand (by decide) _) fun _ => ?_
  refine .bind (refuses_parseNames _ _ _) fun _ => ?_
  refine .bind (refuses_required (by decide) _) fun s => ?_
  refine .bind (refuses_demand (by decide) _) fun _ => ?_
  refine .bind (refuses_parseNames _ _ _) fun _ => ?_
  exact .bind (refuses_required (by decide) _) fun _ => refuses_ok _

theorem refuses_parseLinkData (word : Text) : Refuses (parseLinkData word c s) :=
  .bind (refuses_required (by decide) _) fun s => refuses_parseConnectionContent c s

theorem refuses_parseForce (value : Text) : Refuses (parseForce value s) := by
  unfold parseForce
  split
  · exact .ite (refuses_ok _) (.ite (refuses_ok _) (refuses_error (by decide)))
  · exact .ite (refuses_ok _) (.ite (refuses_ok _) (refuses_ok _))

theorem refuses_parseWriteData : Refuses (parseWriteData c s) := by
  refine .bind (refuses_required (by decide) _) fun s => ?_
  refine .bind (refuses_demand (by decide) _) fun _ => ?_
  refine .bind (refuses_required (by decide) _) fun s => ?_
  refine .bind (refuses_demand (by decide) _) fun _ => ?_
  refine .bind (refuses_parseIdentifier _ _ _) fun _ => ?_
  refine .bind (refuses_parseForce _ _) fun _ => ?_
  refine .bind (refuses_required (by decide) _) fun _ => ?_
  exact .bind (refuses_required (by decide) _) fun _ => refuses_ok _

theorem refuses_parseTypeQuery (word : Text) (single list : EMGMCommandType) :
    Refuses (parseTypeQuery c s word single list) := by
  refine .bind (refuses_required (by decide) _) fun s => ?_
  refine .bind (refuses_required (by decide) _) fun s => ?_
  refine .bind (refuses_demand (by decide) _) fun _ => ?_
  refine .bind (refuses_parseType _ _ _) fun _ => ?_
  exact .bind (refuses_required (by decide) _) fun _ => refuses_ok _

theorem refuses_parseObjectData (fbInstance connection watch : EMGMCommandType) :
    Refuses (parseObjectData fbInstance connection watch c s) :=
  .thenOpenBracket (.ite (.as (refuses_parseFBData _ _)) (.ite (.as (refuses_parseLinkData _ _ _))
    (.ite (.as (refuses_parseLinkData _ _ _)) (refuses_error (by decide)))))

theorem refuses_parseElement (action : Action) : Refuses (parseElement action c s) := by
  have hstate : Refuses (parseAdditionalStateCommandData c s) :=
    .ite (.thenOpenBracket (refuses_parseFBData c s)) (refuses_ok _)
  have hinvalid : Refuses (.error .invalidObject : Parsed) := refuses_error (by decide)
  have htypes (word : Text) (single list : EMGMCommandType) :
      Refuses (parseTypeQuery { c with cmd := .invalid } s word single list) :=
    refuses_parseTypeQuery _ s word single list
  cases action with
  | create => exact refuses_parseObjectData c s _ _ _
  | delete => exact refuses_parseObjectData c s _ _ _
  | start => exact hstate
  | stop => exact hstate
  | kill => exact hstate
  | reset => exact hstate
  | read =>
    exact .thenOpenBracket (.ite (.as (refuses_parseLinkData _ _ _))
      (.ite (.bind (refuses_required (by decide) _) fun _ => refuses_ok _) hinvalid))
  | write => exact refuses_parseWriteData c s
  | query =>
    exact .thenOpenBracket (.ite (.ite (htypes _ _ _) (.as (refuses_parseFBData _ _)))
      (.ite (.as (refuses_parseLinkData _ _ _)) (.ite (htypes _ _ _) (.ite (htypes _ _ _)
        (.ite (htypes _ _ _) hinvalid)))))

end Parts

/-- **A text is never refused as if it had been executed.** -/
theorem refuses_parseMGMCommand (dest t : Text) : Refuses (parseMGMCommand dest t) := by
  have hrequest (c : SManagementCMD) (s : Text) : Refuses (parseRequest c s) := by
    refine .bind (refuses_required (by decide) _) fun s => ?_
    refine .bind (refuses_required (by decide) _) fun s => ?_
    refine .bind (refuses_required (by decide) _) fun _ => ?_
    exact .bind (refuses_required (by decide) _) fun _ => refuses_ok _
  have htag (s : Text) : Refuses (proceedToNextTag s) :=
    .ite (refuses_ok _) (refuses_required (by decide) _)
  refine .bind (hrequest _ _) fun _ => ?_
  refine .bind (htag _) fun _ => ?_
  refine .bind (refuses_parseElement _ _ _) fun _ => ?_
  exact .bind (refuses_demand (by decide) _) fun _ => refuses_ok _

/-! ### The judgement of the parser -/

/-- **The parser judges a text as the grammar does.** A complete request is read as what it
says. Any other text is refused: the response is not `Ready`, and whatever the device does for
a command, it has not done it. -/
def Judges (dest t : Text) : Prop :=
  (∀ id content, Request true t id content →
    parseMGMCommand dest t = .ok (content.command dest id)) ∧
  (¬CompleteRequest t → ∃ response, response ≠ .ready ∧
    ∀ (Device : Type) (execute : SManagementCMD → Device → EMGMResponse × Device)
      (device : Device), executeRQST execute dest t device = (response, device))

theorem judges_iff (dest t : Text) : Judges dest t ↔ ¬IncompleteRequest t := by
  constructor
  · rintro ⟨-, hrefused⟩ hincomplete
    obtain ⟨response, -, hresponse⟩ := hrefused fun h => h.not_incomplete hincomplete
    obtain ⟨id, content, hrequest⟩ := hincomplete
    -- a device that counts the commands it executes
    have hcount := hresponse ℕ (fun _ n => (.ready, n + 1)) 0
    rw [executeRQST, parseMGMCommand_eq_ok_iff.mpr ⟨false, id, content, hrequest, rfl⟩] at hcount
    have hone : 0 + 1 = 0 := congrArg Prod.snd hcount
    exact absurd hone (by decide)
  · intro hincomplete
    refine ⟨fun id content h => parseMGMCommand_eq_ok_iff.mpr ⟨true, id, content, h, rfl⟩,
      fun hcomplete => ?_⟩
    cases hparse : parseMGMCommand dest t with
    | ok cmd =>
      obtain ⟨complete, id, content, h, -⟩ := parseMGMCommand_eq_ok_iff.mp hparse
      cases complete with
      | true => exact absurd ⟨id, content, h⟩ hcomplete
      | false => exact absurd ⟨id, content, h⟩ hincomplete
    | error response =>
      refine ⟨response, fun hready => ?_, fun Device execute device => ?_⟩
      · exact refuses_parseMGMCommand dest t (hready ▸ hparse)
      · rw [executeRQST, hparse]

/-- A request to delete a function block, with no quote behind its type. -/
def unclosedDelete : Text :=
  text "<Request ID=\"1\" Action=\"DELETE\"><FB Name=\"a\" Type=\"/></Request>"

/-- A request to start a resource that ends with its opening tag. -/
def unendedStart : Text := text "<Request ID=\"1\" Action=\"START\">"

/-- **Two texts that are executed without being requests**: one lacks a quote, one its end
tag. -/
theorem executed_without_request :
    (¬CompleteRequest unclosedDelete ∧ ¬Judges [] unclosedDelete) ∧
      ¬CompleteRequest unendedStart ∧ ¬Judges [] unendedStart := by
  have hnil : White [] := nofun
  have hblank : White (text " ") := by decide
  have hid : Unquoted (text "1") := by unfold Unquoted; decide
  have hunclosed : IncompleteRequest unclosedDelete := by
    have hfirst : Names false (text "a") ⟨[.insert (text "a")], by decide⟩ :=
      .names (by decide) (.last (by decide) (by decide))
    have hsecond : TypeName [] ⟨[.insert []], by decide⟩ [] := .plain (by decide) (by decide) rfl
    have hfb : FBData false (text "FB Name=\"" ++ text "a" ++ text "\"" ++ text " " ++
        text "Type=\"" ++ [] ++ text "/>") _ _ [] :=
      .unclosed (by unfold Unquoted; decide) hblank hnil hfirst hsecond
    have hbody : Body .delete (!false && false && true) _ _ :=
      .element hnil (.fb rfl hfb) hnil (.complete hnil hnil)
    exact ⟨_, _, .intro hid hblank hnil hbody⟩
  have hunended : IncompleteRequest unendedStart := by
    have hbody : Body .start false _ _ := .open rfl hnil
    exact ⟨_, _, .intro hid hblank hnil hbody⟩
  refine ⟨⟨fun h => h.not_incomplete hunclosed, ?_⟩, fun h => h.not_incomplete hunended, ?_⟩
  · rw [judges_iff, not_not]
    exact hunclosed
  · rw [judges_iff, not_not]
    exact hunended

end Forte
