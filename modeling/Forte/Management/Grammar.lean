import Forte.Management.CommandParser

/-!
# The grammar of management requests

Which texts the parser reads as a request, and as which command. The grammar is stated over
the text alone, from the identifiers up; `Forte.Request` has a flag that says whether the text
is complete, since the parser also accepts texts that are not:

* the tag of the request is closed by `/>`, and the request goes on all the same;
* the end tag is missing: the text ends with the opening tag, or right behind the `<` that
  should begin the end tag;
* the quote behind the type of a function block is missing.

`Forte.parseMGMCommand_eq_ok_iff` says that these are the only ones, and
`Forte.judges_iff` that the parser decides every other text as the grammar does.
-/

namespace Forte

open CommandParser

/-- A text of white space. -/
def White (w : Text) : Prop := ∀ c ∈ w, isWhiteSpace c = true

instance (w : Text) : Decidable (White w) := List.decidableBAll _ w

/-- A text without a quote, as it stands between the quotes of an attribute. -/
def Unquoted (t : Text) : Prop := '"'.toUInt8 ∉ t

/-- **Names with dots between them.** -/
inductive Dotted (allowEmptyLast : Bool) : Text → List StringId → Prop
  | last {t : Text} (hne : t ≠ []) (hdot : '.'.toUInt8 ∉ t) :
      Dotted allowEmptyLast t [.insert t]
  | emptyLast {t : Text} (hallow : allowEmptyLast = true) (hne : t ≠ [])
      (hdot : '.'.toUInt8 ∉ t) :
      Dotted allowEmptyLast (t ++ text ".") [.insert t, .insert []]
  | cons {t rest : Text} {names : List StringId} (hne : t ≠ []) (hdot : '.'.toUInt8 ∉ t)
      (h : Dotted allowEmptyLast rest names) :
      Dotted allowEmptyLast (t ++ text "." ++ rest) (.insert t :: names)

/-- The value of an attribute for names, and the names; an asterisk is for none. -/
inductive Names (allowEmptyLast : Bool) : Text → TNameIdentifier → Prop
  | any : Names allowEmptyLast (text "*") .nil
  | names {t : Text} {id : TNameIdentifier} (hne : t ≠ text "*")
      (h : Dotted allowEmptyLast t id.names) : Names allowEmptyLast t id

/-- The value of an attribute for a type, its name and its hash; an asterisk is for none. -/
inductive TypeName : Text → TNameIdentifier → Text → Prop
  | any : TypeName (text "*") .nil []
  | plain {t : Text} {id : TNameIdentifier} (hne : t ≠ text "*") (hhash : '#'.toUInt8 ∉ t)
      (hid : id.names = [.insert t]) : TypeName t id []
  | hashed {t : Text} {id : TNameIdentifier} (hash : Text) (hhash : '#'.toUInt8 ∉ t)
      (hid : id.names = [.insert t]) : TypeName (t ++ text "#" ++ hash) id hash

/-- The element for a function block. It is complete unless the quote behind its type is
missing; then the type is the empty name. -/
inductive FBData : Bool → Text → TNameIdentifier → TNameIdentifier → Text → Prop
  | complete {n t w w' : Text} {first second : TNameIdentifier} {hash : Text}
      (hn : Unquoted n) (ht : Unquoted t) (hw : White w) (hw' : White w')
      (hfirst : Names false n first) (hsecond : TypeName t second hash) :
      FBData true
        (text "FB Name=\"" ++ n ++ text "\"" ++ w ++
          text "Type=\"" ++ t ++ text "\"" ++ w' ++ text "/>")
        first second hash
  | unclosed {n w w' : Text} {first second : TNameIdentifier}
      (hn : Unquoted n) (hw : White w) (hw' : White w')
      (hfirst : Names false n first) (hsecond : TypeName [] second []) :
      FBData false
        (text "FB Name=\"" ++ n ++ text "\"" ++ w ++ text "Type=\"" ++ w' ++ text "/>")
        first second []

/-- The element for a connection or a watch, by its first word. -/
inductive LinkData (word : Text) : Text → TNameIdentifier → TNameIdentifier → Prop
  | intro {s d w w' : Text} {first second : TNameIdentifier}
      (hs : Unquoted s) (hd : Unquoted d) (hw : White w) (hw' : White w')
      (hfirst : Names true s first) (hsecond : Names false d second) :
      LinkData word
        (word ++ text "Source=\"" ++ s ++ text "\"" ++ w ++
          text "Destination=\"" ++ d ++ text "\"" ++ w' ++ text "/>")
        first second

/-- The end of the element for a written value, and which command it makes it. -/
inductive Force (value : Text) : Text → EMGMCommandType → Prop
  | force {w : Text} (hw : White w) : Force value (w ++ text "force=\"true\"") .monitoringForce
  | clearForce {w : Text} (hw : White w) :
      Force value (w ++ text "force=\"false\"") .monitoringClearForce
  | triggerEvent (h : isTriggerEvent value = true) : Force value [] .monitoringTriggerEvent
  | resetEventCount (h : isTriggerEvent value = false) (h' : isResetEventCount value = true) :
      Force value [] .monitoringResetEventCount
  | write (h : isTriggerEvent value = false) (h' : isResetEventCount value = false) :
      Force value [] .write

/-- The element for a written value. -/
inductive WriteData : Text → EMGMCommandType → TNameIdentifier → Text → Prop
  | intro {s d w w' force : Text} {cmd : EMGMCommandType} {first : TNameIdentifier}
      (hs : Unquoted s) (hne : s ≠ []) (hd : Unquoted d) (hw : White w) (hw' : White w')
      (hfirst : Dotted false d first.names)
      (hforce : Force (scEscapeMap.unescape s) force cmd) :
      WriteData
        (text "Connection Source=\"" ++ s ++ text "\"" ++ w ++
          text "Destination=\"" ++ d ++ text "\"" ++ force ++ w' ++ text "/>")
        cmd first (scEscapeMap.unescape s)

/-- The element for a query of types of a kind: the command for the list, or the one for the
type of a name. -/
inductive TypesData (word : Text) (single list : EMGMCommandType) :
    Text → EMGMCommandType → TNameIdentifier → Text → Prop
  | any {w w' : Text} (hw : White w) (hw' : White w') :
      TypesData word single list
        (word ++ w ++ text "Name=\"" ++ text "*" ++ text "\"" ++ w' ++ text "/>") list .nil []
  | name {n w w' : Text} {first : TNameIdentifier} {hash : Text} (hn : Unquoted n)
      (hne : n ≠ []) (hany : n ≠ text "*") (hw : White w) (hw' : White w')
      (hfirst : TypeName n first hash) :
      TypesData word single list
        (word ++ w ++ text "Name=\"" ++ n ++ text "\"" ++ w' ++ text "/>") single first hash

namespace Action

/-- The command for an action on a function block. -/
def fbCommand : Action → Option EMGMCommandType
  | create => some .createFBInstance
  | delete => some .deleteFBInstance
  | start => some .start
  | stop => some .stop
  | kill => some .kill
  | reset => some .reset
  | query => some .queryFB
  | read => none
  | write => none

/-- The command for an action on a connection. -/
def connectionCommand : Action → Option EMGMCommandType
  | create => some .createConnection
  | delete => some .deleteConnection
  | read => some .read
  | query => some .queryConnection
  | _ => none

/-- The command for an action on a watch. -/
def watchCommand : Action → Option EMGMCommandType
  | create => some .monitoringAddWatch
  | delete => some .monitoringRemoveWatch
  | _ => none

/-- The commands for the execution state, which need no element. -/
def isState : Action → Bool
  | start => true
  | stop => true
  | kill => true
  | reset => true
  | _ => false

end Action

/-- The kinds of types that can be queried. -/
def typeKinds : List (Text × EMGMCommandType × EMGMCommandType) :=
  [(text "FBType", .queryFBType, .queryFBTypes),
    (text "DataType", .queryDataType, .queryDTTypes),
    (text "AdapterType", .queryAdapterType, .queryAdapterTypes),
    (text "GlobalConstType", .queryGlobalConstType, .queryGlobalConstTypes)]

/-- What a request says, apart from its ID. -/
structure Content where
  cmd : EMGMCommandType
  firstParam : TNameIdentifier
  secondParam : TNameIdentifier
  additionalParams : Text

/-- **The element of a request**, which has to match the action. -/
inductive Element : Action → Bool → Text → Content → Prop
  | fb {action : Action} {complete : Bool} {e hash : Text} {cmd : EMGMCommandType}
      {first second : TNameIdentifier} (hcmd : action.fbCommand = some cmd)
      (h : FBData complete e first second hash) :
      Element action complete e ⟨cmd, first, second, hash⟩
  | connection {action : Action} {e : Text} {cmd : EMGMCommandType}
      {first second : TNameIdentifier} (hcmd : action.connectionCommand = some cmd)
      (h : LinkData (text "Connection ") e first second) :
      Element action true e ⟨cmd, first, second, []⟩
  | watch {action : Action} {e : Text} {cmd : EMGMCommandType}
      {first second : TNameIdentifier} (hcmd : action.watchCommand = some cmd)
      (h : LinkData (text "Watch ") e first second) :
      Element action true e ⟨cmd, first, second, []⟩
  | watches : Element .read true (text "Watches/>") ⟨.monitoringReadWatches, .nil, .nil, []⟩
  | write {e value : Text} {cmd : EMGMCommandType} {first : TNameIdentifier}
      (h : WriteData e cmd first value) : Element .write true e ⟨cmd, first, .nil, value⟩
  | types {word e hash : Text} {single list cmd : EMGMCommandType} {first : TNameIdentifier}
      (hkind : (word, single, list) ∈ typeKinds)
      (h : TypesData word single list e cmd first hash) :
      Element .query true e ⟨cmd, first, .nil, hash⟩

/-- The end tag behind its `<`, or nothing where it is cut off. -/
inductive EndTag : Bool → Text → Prop
  | complete {w w' : Text} (hw : White w) (hw' : White w') :
      EndTag true (w ++ text "/Request>" ++ w')
  | cut : EndTag false []

/-- The end of the tag of a request, which closes the request as well or does not. -/
def tagEnd (closing : Bool) : Text := if closing then text "/>" else text ">"

/-- **A request behind its action**, and whether it is complete. -/
inductive Body (action : Action) : Bool → Text → Content → Prop
  | closed {w : Text} (hstate : action.isState = true) (hw : White w) :
      Body action true (tagEnd true ++ w) ⟨action.command, .nil, .nil, []⟩
  | open {w : Text} (hstate : action.isState = true) (hw : White w) :
      Body action false (tagEnd false ++ w) ⟨action.command, .nil, .nil, []⟩
  | empty {closing ended : Bool} {w e : Text} (hstate : action.isState = true) (hw : White w)
      (hend : EndTag ended e) :
      Body action (!closing && ended) (tagEnd closing ++ w ++ text "<" ++ e)
        ⟨action.command, .nil, .nil, []⟩
  | element {closing complete ended : Bool} {w el w' e : Text} {content : Content}
      (hw : White w) (hel : Element action complete el content) (hw' : White w')
      (hend : EndTag ended e) :
      Body action (!closing && complete && ended)
        (tagEnd closing ++ w ++ text "<" ++ el ++ w' ++ text "<" ++ e) content

/-- **A request**, with its ID and whether it is complete. -/
inductive Request : Bool → Text → Text → Content → Prop
  | intro {complete : Bool} {action : Action} {id w w' body : Text} {content : Content}
      (hid : Unquoted id) (hw : White w) (hw' : White w')
      (hbody : Body action complete body content) :
      Request complete
        (text "<Request ID=\"" ++ id ++ text "\"" ++ w ++
          text "Action=\"" ++ action.name ++ text "\"" ++ w' ++ body)
        id content

/-- A complete request. -/
def CompleteRequest (t : Text) : Prop := ∃ id content, Request true t id content

/-- One of the texts that are accepted without being complete requests. -/
def IncompleteRequest (t : Text) : Prop := ∃ id content, Request false t id content

/-! ### Pieces of texts -/

theorem text_quote_append (t : Text) : text "\"" ++ t = '"'.toUInt8 :: t := rfl

theorem text_dot_append (t : Text) : text "." ++ t = '.'.toUInt8 :: t := rfl

theorem text_hash_append (t : Text) : text "#" ++ t = '#'.toUInt8 :: t := rfl

theorem Unquoted.append {s t : Text} (hs : Unquoted s) (ht : Unquoted t) : Unquoted (s ++ t) :=
  fun h => (List.mem_append.mp h).elim hs ht

theorem White.unquoted {w : Text} (hw : White w) : Unquoted w :=
  fun h => absurd (hw _ h) (by decide)

/-- The first character of a text is that of its first word. -/
theorem peek_append {word : Text} (hword : word ≠ []) (t : Text) :
    peek (word ++ t) = peek word := by
  obtain ⟨c, word, rfl⟩ := List.exists_cons_of_ne_nil hword
  rfl

/-- A word is not found where another character is. -/
theorem consume_eq_none {word s : Text} (hword : word ≠ []) (h : peek s ≠ peek word) :
    consume word s = none := by
  cases hcons : consume word s with
  | none => rfl
  | some rest =>
    rw [consume_eq_some.mp hcons, peek_append hword] at h
    exact absurd rfl h

/-- White space ends where a word begins that has another first character. -/
theorem stops_append {word : Text} (hword : word ≠ []) (hfirst : isWhiteSpace (peek word) = false)
    (t : Text) : Stops isWhiteSpace (word ++ t) := by
  obtain ⟨c, word, rfl⟩ := List.exists_cons_of_ne_nil hword
  rintro _ ⟨rfl⟩
  exact hfirst

theorem skipWhiteSpace_append {w t : Text} (hw : White w) (ht : Stops isWhiteSpace t) :
    skipWhiteSpace (w ++ t) = t := dropWhile_append_of_stops hw ht

theorem skipWhiteSpace_white {w : Text} (hw : White w) : skipWhiteSpace w = [] := by
  have h := skipWhiteSpace_append hw (t := []) nofun
  rwa [List.append_nil] at h

theorem exists_white (s : Text) : ∃ w, White w ∧ s = w ++ skipWhiteSpace s :=
  exists_skipped isWhiteSpace s

/-- A word behind white space. -/
theorem consume_skipWhiteSpace {word : Text} (hword : word ≠ [])
    (hfirst : isWhiteSpace (peek word) = false) {s rest : Text} :
    consume word (skipWhiteSpace s) = some rest ↔ ∃ w, White w ∧ s = w ++ (word ++ rest) :=
  consume_dropWhile_eq_some (stops_append hword hfirst rest)

theorem proceedToOpenBracket_eq_some {s rest : Text} :
    proceedToOpenBracket s = some rest ↔ ∃ w, White w ∧ s = w ++ (text "<" ++ rest) :=
  consume_skipWhiteSpace (by decide) (by decide)

theorem proceedToClosingBracket_eq_some {s rest : Text} :
    proceedToClosingBracket s = some rest ↔ ∃ w, White w ∧ s = w ++ (text "/>" ++ rest) :=
  consume_skipWhiteSpace (by decide) (by decide)

/-! ### Names -/

theorem Dotted.ne_nil {allow : Bool} {t : Text} {names : List StringId}
    (h : Dotted allow t names) : t ≠ [] := by
  cases h with
  | last hne => exact hne
  | emptyLast _ hne => exact List.append_ne_nil_of_left_ne_nil hne _
  | cons hne => rw [List.append_assoc]; exact List.append_ne_nil_of_left_ne_nil hne _

/-- Without a dot there is one name. -/
theorem dotted_iff_of_notMem {allow : Bool} {t : Text} {names : List StringId}
    (hdot : '.'.toUInt8 ∉ t) : Dotted allow t names ↔ t ≠ [] ∧ names = [.insert t] := by
  constructor
  · intro h
    cases h with
    | last hne => exact ⟨hne, rfl⟩
    | emptyLast => exact absurd (List.mem_append_right _ (by decide)) hdot
    | cons =>
      exact absurd (List.mem_append_left _ (List.mem_append_right _ (by decide))) hdot
  · rintro ⟨hne, rfl⟩
    exact .last hne hdot

/-- With a dot, the first name is the one in front of it. -/
theorem dotted_append_iff {allow : Bool} {t rest : Text} {names : List StringId}
    (hdot : '.'.toUInt8 ∉ t) :
    Dotted allow (t ++ '.'.toUInt8 :: rest) names ↔ t ≠ [] ∧
      (rest = [] ∧ allow = true ∧ names = [.insert t, .insert []] ∨
        ∃ names', Dotted allow rest names' ∧ names = .insert t :: names') := by
  constructor
  · intro h
    generalize heq : t ++ '.'.toUInt8 :: rest = s at h
    cases h with
    | last _ hdot' =>
      rw [← heq] at hdot'
      exact absurd (List.mem_append_right t List.mem_cons_self) hdot'
    | emptyLast hallow hne hdot' =>
      obtain ⟨rfl, rfl⟩ := eq_of_delimited hdot hdot' heq
      exact ⟨hne, .inl ⟨rfl, hallow, rfl⟩⟩
    | cons hne hdot' hrest =>
      rw [List.append_assoc, text_dot_append] at heq
      obtain ⟨rfl, rfl⟩ := eq_of_delimited hdot hdot' heq
      exact ⟨hne, .inr ⟨_, hrest, rfl⟩⟩
  · rintro ⟨hne, ⟨rfl, hallow, rfl⟩ | ⟨names', h, rfl⟩⟩
    · exact .emptyLast hallow hne hdot
    · have hcons := Dotted.cons hne hdot h
      rwa [List.append_assoc, text_dot_append] at hcons

/-- **`parseIdentifier` reads names with dots between them.** -/
theorem parseIdentifier_eq_ok {allow : Bool} {s : Text} {id id' : TNameIdentifier} :
    parseIdentifier allow s id = .ok id' ↔
      ∃ names, Dotted allow s names ∧ id'.names = id.names ++ names := by
  induction hlen : s.length using Nat.strong_induction_on generalizing s id with
  | _ n ih =>
  rw [parseIdentifier]
  split
  · rename_i hnil
    refine iff_of_false (by rintro ⟨⟩) ?_
    rintro ⟨names, h, -⟩
    exact h.ne_nil hnil
  rename_i hne
  by_cases hdot : '.'.toUInt8 ∈ s
  · obtain ⟨t, rest, rfl, ht⟩ := List.eq_append_cons_of_mem hdot
    have hall : ∀ c ∈ t, decide (c ≠ '.'.toUInt8) = true := fun c hc =>
      decide_eq_true fun h => ht (h ▸ hc)
    have htake : (t ++ '.'.toUInt8 :: rest).takeWhile (· ≠ '.'.toUInt8) = t := by
      rw [List.takeWhile_append_of_pos hall, List.takeWhile_cons_of_neg (by decide),
        List.append_nil]
    have hdrop : (t ++ '.'.toUInt8 :: rest).dropWhile (· ≠ '.'.toUInt8) =
        '.'.toUInt8 :: rest := by
      rw [List.dropWhile_append_of_pos hall, List.dropWhile_cons_of_neg (by decide)]
    simp only [dotted_append_iff ht]
    rw [htake]
    split
    · rename_i hnil
      exact absurd (hdrop.symm.trans hnil) (by rintro ⟨⟩)
    · rename_i c rest' hcons
      obtain ⟨-, rfl⟩ := List.cons.inj (hdrop.symm.trans hcons)
      simp only [bind_eq_ok, demand_eq_ok, required_eq_ok, TNameIdentifier.tryPushBack_eq_some]
      have hlast : rest.length < n := by
        rw [← hlen, List.length_append, List.length_cons]
        omega
      constructor
      · rintro ⟨-, hne, id₁, hid₁, h⟩
        split at h
        · rename_i hrest
          simp only [bind_eq_ok, demand_eq_ok, required_eq_ok,
            TNameIdentifier.tryPushBack_eq_some] at h
          obtain ⟨-, hallow, hid'⟩ := h
          refine ⟨_, ⟨hne, .inl ⟨hrest, hallow, rfl⟩⟩, ?_⟩
          rw [hid', hid₁, List.append_assoc]
          rfl
        · obtain ⟨names, hnames, hid'⟩ := (ih _ hlast rfl).mp h
          refine ⟨_, ⟨hne, .inr ⟨names, hnames, rfl⟩⟩, ?_⟩
          rw [hid', hid₁, List.append_assoc]
          rfl
      · rintro ⟨names, ⟨hne, hcase⟩, hid'⟩
        -- the names in front are within the bound, as all of them are
        have hbound : (id.names ++ [StringId.insert t]).length ≤ cgMaxSupportedNameHierarchy := by
          have hle := id'.bound
          rw [hid', List.length_append] at hle
          have hpos : 1 ≤ names.length := by
            obtain ⟨-, -, rfl⟩ | ⟨names', -, rfl⟩ := hcase <;> exact Nat.succ_pos _
          rw [List.length_append, List.length_singleton]
          omega
        refine ⟨(), hne, ⟨_, hbound⟩, rfl, ?_⟩
        obtain ⟨rfl, hallow, rfl⟩ | ⟨names', hnames, rfl⟩ := hcase
        · rw [if_pos rfl]
          simp only [bind_eq_ok, demand_eq_ok, required_eq_ok,
            TNameIdentifier.tryPushBack_eq_some]
          exact ⟨(), hallow, by rw [hid', List.append_assoc]; rfl⟩
        · rw [if_neg hnames.ne_nil]
          exact (ih _ hlast rfl).mpr ⟨names', hnames, by rw [hid', List.append_assoc]; rfl⟩
  · have hall : ∀ c ∈ s, decide (c ≠ '.'.toUInt8) = true := fun c hc =>
      decide_eq_true fun h => hdot (h ▸ hc)
    have hdrop : s.dropWhile (· ≠ '.'.toUInt8) = [] := List.dropWhile_eq_nil_iff.mpr hall
    split
    · rw [required_eq_ok, TNameIdentifier.tryPushBack_eq_some]
      simp only [dotted_iff_of_notMem hdot]
      exact ⟨fun h => ⟨_, ⟨hne, rfl⟩, h⟩, by rintro ⟨_, ⟨-, rfl⟩, h⟩; exact h⟩
    · rename_i hcons
      exact absurd (hdrop.symm.trans hcons) (by rintro ⟨⟩)

theorem parseIdentifier_nil_eq_ok {allow : Bool} {s : Text} {id : TNameIdentifier} :
    parseIdentifier allow s .nil = .ok id ↔ Dotted allow s id.names := by
  rw [parseIdentifier_eq_ok]
  constructor
  · rintro ⟨names, h, hid⟩
    obtain rfl : id.names = names := hid
    exact h
  · exact fun h => ⟨_, h, rfl⟩

/-- An attribute for names, read into an empty identifier. -/
theorem parseNames_eq_ok {allow : Bool} {s : Text} {id : TNameIdentifier} :
    parseNames allow s .nil = .ok id ↔ Names allow s id := by
  unfold parseNames isAsteriskValue
  split
  · rename_i hany
    obtain rfl := of_decide_eq_true hany
    constructor
    · rintro ⟨⟩
      exact .any
    · intro h
      cases h with
      | any => rfl
      | names hne => exact absurd rfl hne
  · rename_i hany
    have hne : s ≠ text "*" := fun h => hany (decide_eq_true h)
    rw [parseIdentifier_nil_eq_ok]
    constructor
    · exact .names hne
    · intro h
      cases h with
      | any => exact absurd rfl hne
      | names _ h => exact h

theorem parseTypeName_eq_some {t : Text} {id : TNameIdentifier} {hash : Text}
    (hne : t ≠ text "*") :
    parseTypeName t .nil [] = some (id, hash) ↔ TypeName t id hash := by
  unfold parseTypeName
  split
  · rename_i hmem
    obtain ⟨n, rest, rfl, hn⟩ := List.eq_append_cons_of_mem hmem
    have hall : ∀ c ∈ n, decide (c ≠ '#'.toUInt8) = true := fun c hc =>
      decide_eq_true fun h => hn (h ▸ hc)
    rw [List.takeWhile_append_of_pos hall, List.takeWhile_cons_of_neg (by decide),
      List.append_nil, List.dropWhile_append_of_pos hall,
      List.dropWhile_cons_of_neg (by decide), List.drop_succ_cons, List.drop_zero]
    simp only [Option.map_eq_some_iff, TNameIdentifier.tryPushBack_eq_some, Prod.mk.injEq]
    constructor
    · rintro ⟨id', hid, rfl, rfl⟩
      have htype := TypeName.hashed rest hn hid
      rwa [List.append_assoc, text_hash_append] at htype
    · intro h
      generalize heq : n ++ '#'.toUInt8 :: rest = t at h
      cases h with
      | any =>
        have hany : '#'.toUInt8 ∈ text "*" := heq ▸ hmem
        exact absurd hany (by decide)
      | plain _ hhash =>
        rw [heq] at hmem
        exact absurd hmem hhash
      | hashed hash hhash hid =>
        rw [List.append_assoc, text_hash_append] at heq
        obtain ⟨rfl, rfl⟩ := eq_of_delimited hn hhash heq
        exact ⟨id, hid, rfl, rfl⟩
  · rename_i hnot
    simp only [Option.map_eq_some_iff, TNameIdentifier.tryPushBack_eq_some, Prod.mk.injEq]
    constructor
    · rintro ⟨id', hid, rfl, rfl⟩
      exact .plain hne hnot hid
    · intro h
      cases h with
      | any => exact absurd rfl hne
      | plain _ _ hid => exact ⟨id, hid, rfl, rfl⟩
      | hashed =>
        exact absurd (List.mem_append_left _ (List.mem_append_right _ (by decide))) hnot

/-- An attribute for a type, read into an empty identifier. -/
theorem parseType_eq_ok {t : Text} {id : TNameIdentifier} {hash : Text} :
    parseType t .nil [] = .ok (id, hash) ↔ TypeName t id hash := by
  unfold parseType isAsteriskValue
  split
  · rename_i hany
    obtain rfl := of_decide_eq_true hany
    constructor
    · rintro ⟨⟩
      exact .any
    · intro h
      generalize heq : text "*" = t at h
      cases h with
      | any => rfl
      | plain hne => exact absurd heq.symm hne
      | hashed =>
        have hmem : '#'.toUInt8 ∈ text "*" := by
          rw [heq]
          exact List.mem_append_left _ (List.mem_append_right _ (by decide))
        exact absurd hmem (by decide)
  · rename_i hany
    rw [required_eq_ok, parseTypeName_eq_some fun h => hany (decide_eq_true h)]

/-! ### Elements -/

/-- A command without parameters, as it is before the element is read. -/
structure Blank (c : SManagementCMD) : Prop where
  firstParam : c.firstParam = .nil
  secondParam : c.secondParam = .nil
  additionalParams : c.additionalParams = []

/-- The command with a content. -/
def Content.onto (content : Content) (c : SManagementCMD) : SManagementCMD :=
  { c with
    cmd := content.cmd
    firstParam := content.firstParam
    secondParam := content.secondParam
    additionalParams := content.additionalParams }

/-- No attribute for names is empty. -/
theorem Names.ne_nil {allow : Bool} {t : Text} {id : TNameIdentifier} (h : Names allow t id) :
    t ≠ [] := by
  cases h with
  | any => decide
  | names _ h => exact h.ne_nil

/-- The next attribute behind white space. -/
theorem consume_type {s rest : Text} :
    consume (text "Type=\"") (skipWhiteSpace s) = some rest ↔
      ∃ w, White w ∧ s = w ++ (text "Type=\"" ++ rest) :=
  consume_skipWhiteSpace (by decide) (by decide)

theorem consume_destination {s rest : Text} :
    consume (text "Destination=\"") (skipWhiteSpace s) = some rest ↔
      ∃ w, White w ∧ s = w ++ (text "Destination=\"" ++ rest) :=
  consume_skipWhiteSpace (by decide) (by decide)

theorem consume_name {s rest : Text} :
    consume (text "Name=\"") (skipWhiteSpace s) = some rest ↔
      ∃ w, White w ∧ s = w ++ (text "Name=\"" ++ rest) :=
  consume_skipWhiteSpace (by decide) (by decide)

/-- The empty name of a type has no hash. -/
theorem TypeName.hash_eq_nil {t : Text} {id : TNameIdentifier} {hash : Text}
    (h : TypeName t id hash) (ht : t = []) : hash = [] := by
  cases h with
  | any => rfl
  | plain => rfl
  | hashed =>
    exact absurd ht (List.append_ne_nil_of_left_ne_nil
      (List.append_ne_nil_of_right_ne_nil _ (by decide)) _)

theorem parseFBData_eq_ok {c c' : SManagementCMD} (hc : Blank c) {s rest : Text} :
    parseFBData c s = .ok (c', rest) ↔ ∃ complete e first second hash,
      FBData complete e first second hash ∧ s = e ++ rest ∧ (complete = false → Unquoted rest) ∧
        c' = Content.onto ⟨c.cmd, first, second, hash⟩ c := by
  simp only [parseFBData, bind_eq_ok, required_eq_ok, demand_eq_ok, consume_type,
    proceedToClosingBracket_eq_some, hc.firstParam, hc.secondParam, hc.additionalParams,
    parseNames_eq_ok]
  constructor
  · rintro ⟨s₁, hs, -, hne, first, hfirst, s₂, ⟨w, hw, hs₁⟩, ⟨second, hash⟩, htype, s₃,
      ⟨w', hw', hs₂⟩, heq⟩
    obtain ⟨rfl, rfl⟩ := Prod.mk.inj (Except.ok.inj heq)
    obtain ⟨n, r₁, htake₁, hn, rfl⟩ := exists_takeUntil_of_ne_nil hne
    obtain ⟨t, r₂, htake₂, ht⟩ := exists_takeUntil '"'.toUInt8 s₂
    rw [htake₁] at hs₁ hfirst
    rw [htake₂, parseType_eq_ok] at htype
    rw [htake₂] at hs₂
    obtain rfl : r₁ = _ := hs₁
    obtain rfl : r₂ = _ := hs₂
    obtain rfl := consume_eq_some.mp hs
    rcases ht with ⟨ht, rfl⟩ | ⟨hnone, rfl, heq₂⟩
    · refine ⟨true, _, first, second, hash, .complete hn ht hw hw' hfirst htype, ?_,
        (by rintro ⟨⟩), rfl⟩
      simp only [List.append_assoc, text_quote_append, List.cons_append]
    · obtain rfl : hash = [] := htype.hash_eq_nil rfl
      have hrest : Unquoted s₃ := fun hmem => hnone (heq₂ ▸
        List.mem_append_right w' (List.mem_append_right (text "/>") hmem))
      refine ⟨false, _, first, second, [], .unclosed hn hw hw' hfirst htype, ?_,
        fun _ => hrest, rfl⟩
      rw [← heq₂]
      simp only [List.append_assoc, text_quote_append, List.cons_append]
  · rintro ⟨complete, e, first, second, hash, h, rfl, hrest, rfl⟩
    cases h with
    | @complete n t w w' _ _ _ hn ht hw hw' hfirst hsecond =>
      simp only [List.append_assoc, text_quote_append, List.cons_append]
      refine ⟨_, consume_eq_some.mpr rfl, ?_⟩
      rw [takeUntil_append hn]
      refine ⟨(), hfirst.ne_nil, first, hfirst, _, ⟨w, hw, rfl⟩, ?_⟩
      rw [takeUntil_append ht]
      exact ⟨⟨second, hash⟩, parseType_eq_ok.mpr hsecond, rest, ⟨w', hw', rfl⟩, rfl⟩
    | @unclosed n w w' _ _ hn hw hw' hfirst hsecond =>
      have hnone : '"'.toUInt8 ∉ w' ++ (text "/>" ++ rest) :=
        hw'.unquoted.append (Unquoted.append (by unfold Unquoted; decide) (hrest rfl))
      simp only [List.append_assoc, text_quote_append, List.cons_append]
      refine ⟨_, consume_eq_some.mpr rfl, ?_⟩
      rw [takeUntil_append hn]
      refine ⟨(), hfirst.ne_nil, first, hfirst, _, ⟨w, hw, rfl⟩, ?_⟩
      rw [takeUntil_of_notMem hnone]
      exact ⟨⟨second, []⟩, parseType_eq_ok.mpr hsecond, rest, ⟨w', hw', rfl⟩, rfl⟩

/-- The content of a connection or a watch, behind its first word. -/
theorem parseConnectionContent_eq_ok {c c' : SManagementCMD} (hc : Blank c) (word : Text)
    {s rest : Text} :
    parseConnectionContent c s = .ok (c', rest) ↔ ∃ e first second,
      LinkData word e first second ∧ word ++ s = e ++ rest ∧
        c' = Content.onto ⟨c.cmd, first, second, []⟩ c := by
  simp only [parseConnectionContent, bind_eq_ok, required_eq_ok, demand_eq_ok,
    consume_destination, proceedToClosingBracket_eq_some, hc.firstParam, hc.secondParam,
    parseNames_eq_ok]
  constructor
  · rintro ⟨s₁, hs, -, hne, first, hfirst, s₂, ⟨w, hw, hs₁⟩, -, hne', second, hsecond, s₃,
      ⟨w', hw', hs₂⟩, heq⟩
    obtain ⟨rfl, rfl⟩ := Prod.mk.inj (Except.ok.inj heq)
    obtain ⟨n, r₁, htake₁, hn, rfl⟩ := exists_takeUntil_of_ne_nil hne
    obtain ⟨d, r₂, htake₂, hd, rfl⟩ := exists_takeUntil_of_ne_nil hne'
    rw [htake₁] at hs₁ hfirst
    rw [htake₂] at hs₂ hsecond
    obtain rfl : r₁ = _ := hs₁
    obtain rfl : r₂ = _ := hs₂
    obtain rfl := consume_eq_some.mp hs
    refine ⟨_, first, second, .intro hn hd hw hw' hfirst hsecond, ?_, ?_⟩
    · simp only [List.append_assoc, text_quote_append, List.cons_append]
    · rw [Content.onto, ← hc.additionalParams]
  · rintro ⟨e, first, second, h, heq, rfl⟩
    cases h with
    | @intro n d w w' _ _ hn hd hw hw' hfirst hsecond =>
      simp only [List.append_assoc, text_quote_append, List.cons_append] at heq
      obtain rfl := List.append_cancel_left heq
      refine ⟨_, consume_eq_some.mpr rfl, ?_⟩
      rw [takeUntil_append hn]
      refine ⟨(), hfirst.ne_nil, first, hfirst, _, ⟨w, hw, rfl⟩, ?_⟩
      rw [takeUntil_append hd]
      refine ⟨(), hsecond.ne_nil, second, hsecond, rest, ⟨w', hw', rfl⟩, ?_⟩
      rw [Content.onto, ← hc.additionalParams]

theorem LinkData.exists_eq_append {word e : Text} {first second : TNameIdentifier}
    (h : LinkData word e first second) : ∃ t, e = word ++ t := by
  cases h
  simp only [List.append_assoc]
  exact ⟨_, rfl⟩

theorem parseLinkData_eq_ok {c c' : SManagementCMD} (hc : Blank c) (word : Text)
    {s rest : Text} :
    parseLinkData word c s = .ok (c', rest) ↔ ∃ e first second,
      LinkData word e first second ∧ s = e ++ rest ∧
        c' = Content.onto ⟨c.cmd, first, second, []⟩ c := by
  simp only [parseLinkData, bind_eq_ok, required_eq_ok, parseConnectionContent_eq_ok hc word,
    consume_eq_some]
  constructor
  · rintro ⟨s₁, rfl, h⟩
    exact h
  · rintro ⟨e, first, second, h, rfl, rfl⟩
    obtain ⟨t, rfl⟩ := h.exists_eq_append
    rw [List.append_assoc]
    exact ⟨t ++ rest, rfl, _, first, second, h, (List.append_assoc ..).symm, rfl⟩

theorem skipWhiteSpace_skipWhiteSpace (s : Text) :
    skipWhiteSpace (skipWhiteSpace s) = skipWhiteSpace s :=
  skipWhiteSpace_append (w := []) nofun (stops_dropWhile isWhiteSpace s)

/-- The attribute `force` decides, where there is one. -/
theorem parseForce_force {value w token : Text} (hw : White w) (htoken : Unquoted token)
    (s : Text) :
    parseForce value (w ++ (text "force=\"" ++ (token ++ '"'.toUInt8 :: s))) =
      if token = text "true" then .ok (.monitoringForce, s)
      else if token = text "false" then .ok (.monitoringClearForce, s)
      else .error .badParams := by
  have hcons : consume (text "force=\"")
      (skipWhiteSpace (w ++ (text "force=\"" ++ (token ++ '"'.toUInt8 :: s)))) = some _ :=
    (consume_skipWhiteSpace (by decide) (by decide)).mpr ⟨w, hw, rfl⟩
  unfold parseForce
  rw [hcons]
  simp only [takeUntil_append htoken]

/-- Without the attribute it is the value. -/
theorem parseForce_value {value s : Text}
    (h : consume (text "force=\"") (skipWhiteSpace s) = none) :
    parseForce value s =
      if isTriggerEvent value then .ok (.monitoringTriggerEvent, skipWhiteSpace s)
      else if isResetEventCount value then .ok (.monitoringResetEventCount, skipWhiteSpace s)
      else .ok (.write, skipWhiteSpace s) := by
  unfold parseForce
  rw [h]

/-- The end of the element for a written value. -/
theorem parseForce_eq_ok {value s rest : Text} {cmd : EMGMCommandType} :
    (∃ s', parseForce value s = .ok (cmd, s') ∧ proceedToClosingBracket s' = some rest) ↔
      ∃ force w, Force value force cmd ∧ White w ∧ s = force ++ (w ++ (text "/>" ++ rest)) := by
  constructor
  · rintro ⟨s', h, hbracket⟩
    obtain ⟨w', hw', hs'⟩ := proceedToClosingBracket_eq_some.mp hbracket
    cases hforce : consume (text "force=\"") (skipWhiteSpace s) with
    | some s₁ =>
      obtain ⟨w, hw, rfl⟩ := (consume_skipWhiteSpace (by decide) (by decide)).mp hforce
      obtain ⟨token, r, -, ⟨htoken, rfl⟩ | ⟨hnone, -⟩⟩ := exists_takeUntil '"'.toUInt8 s₁
      · rw [parseForce_force hw htoken] at h
        split at h
        · rename_i htrue
          obtain ⟨rfl, rfl⟩ := Prod.mk.inj (Except.ok.inj h)
          refine ⟨_, w', .force hw, hw', ?_⟩
          rw [htrue, hs', List.append_assoc]
          rfl
        split at h
        · rename_i hfalse
          obtain ⟨rfl, rfl⟩ := Prod.mk.inj (Except.ok.inj h)
          refine ⟨_, w', .clearForce hw, hw', ?_⟩
          rw [hfalse, hs', List.append_assoc]
          rfl
        · exact absurd h nofun
      · have hempty : parseForce value (w ++ (text "force=\"" ++ s₁)) = .error .badParams := by
          unfold parseForce
          rw [hforce]
          simp only [takeUntil_of_notMem hnone]
          rfl
        rw [hempty] at h
        exact absurd h nofun
    | none =>
      rw [parseForce_value hforce] at h
      have hs (heq : skipWhiteSpace s = s') : ∃ w, White w ∧ s = w ++ (text "/>" ++ rest) := by
        rw [← heq, proceedToClosingBracket, skipWhiteSpace_skipWhiteSpace] at hbracket
        exact proceedToClosingBracket_eq_some.mp hbracket
      split at h
      · rename_i htrigger
        obtain ⟨rfl, heq⟩ := Prod.mk.inj (Except.ok.inj h)
        obtain ⟨w, hw, rfl⟩ := hs heq
        exact ⟨[], w, .triggerEvent htrigger, hw, rfl⟩
      rename_i htrigger
      split at h
      · rename_i hreset
        obtain ⟨rfl, heq⟩ := Prod.mk.inj (Except.ok.inj h)
        obtain ⟨w, hw, rfl⟩ := hs heq
        exact ⟨[], w, .resetEventCount (eq_false_of_ne_true htrigger) hreset, hw, rfl⟩
      · rename_i hreset
        obtain ⟨rfl, heq⟩ := Prod.mk.inj (Except.ok.inj h)
        obtain ⟨w, hw, rfl⟩ := hs heq
        exact ⟨[], w, .write (eq_false_of_ne_true htrigger) (eq_false_of_ne_true hreset), hw, rfl⟩
  · rintro ⟨force, w', h, hw', rfl⟩
    have hbracket : skipWhiteSpace (w' ++ (text "/>" ++ rest)) = text "/>" ++ rest :=
      skipWhiteSpace_append hw' (stops_append (by decide) (by decide) rest)
    have hnone : consume (text "force=\"") (skipWhiteSpace (w' ++ (text "/>" ++ rest))) = none := by
      rw [hbracket]
      refine consume_eq_none (by decide) ?_
      rw [peek_append (by decide)]
      decide
    have hclosed : proceedToClosingBracket (text "/>" ++ rest) = some rest :=
      proceedToClosingBracket_eq_some.mpr ⟨[], nofun, rfl⟩
    cases h with
    | @force w hw =>
      have heq : w ++ text "force=\"true\"" ++ (w' ++ (text "/>" ++ rest)) =
          w ++ (text "force=\"" ++
            (text "true" ++ '"'.toUInt8 :: (w' ++ (text "/>" ++ rest)))) := by
        rw [List.append_assoc]
        rfl
      rw [heq, parseForce_force hw (by unfold Unquoted; decide), if_pos rfl]
      exact ⟨_, rfl, proceedToClosingBracket_eq_some.mpr ⟨w', hw', rfl⟩⟩
    | @clearForce w hw =>
      have heq : w ++ text "force=\"false\"" ++ (w' ++ (text "/>" ++ rest)) =
          w ++ (text "force=\"" ++
            (text "false" ++ '"'.toUInt8 :: (w' ++ (text "/>" ++ rest)))) := by
        rw [List.append_assoc]
        rfl
      rw [heq, parseForce_force hw (by unfold Unquoted; decide), if_neg (by decide), if_pos rfl]
      exact ⟨_, rfl, proceedToClosingBracket_eq_some.mpr ⟨w', hw', rfl⟩⟩
    | triggerEvent h =>
      rw [List.nil_append, parseForce_value hnone, if_pos h, hbracket]
      exact ⟨_, rfl, hclosed⟩
    | resetEventCount h h' =>
      rw [List.nil_append, parseForce_value hnone, h, h', if_neg nofun, if_pos rfl, hbracket]
      exact ⟨_, rfl, hclosed⟩
    | write h h' =>
      rw [List.nil_append, parseForce_value hnone, h, h', if_neg nofun, if_neg nofun, hbracket]
      exact ⟨_, rfl, hclosed⟩

theorem parseWriteData_eq_ok {c c' : SManagementCMD} (hc : Blank c) {s rest : Text} :
    parseWriteData c s = .ok (c', rest) ↔ ∃ e cmd first value w,
      WriteData e cmd first value ∧ White w ∧ s = e ++ (w ++ (text "<" ++ rest)) ∧
        c' = Content.onto ⟨cmd, first, .nil, value⟩ c := by
  simp only [parseWriteData, bind_eq_ok, required_eq_ok, demand_eq_ok, consume_destination,
    proceedToOpenBracket_eq_some, hc.firstParam, hc.additionalParams, parseIdentifier_nil_eq_ok,
    transformEscapedXMLToNonEscapedText, List.nil_append]
  constructor
  · rintro ⟨s₁, hs, -, hne, s₂, ⟨w, hw, hs₁⟩, -, hne', first, hfirst, ⟨cmd, r⟩, hforce, s₃,
      hbracket, s₄, ⟨w', hw', hs₃⟩, heq⟩
    obtain ⟨rfl, rfl⟩ := Prod.mk.inj (Except.ok.inj heq)
    obtain ⟨v, r₁, htake₁, hv, rfl⟩ := exists_takeUntil_of_ne_nil hne
    obtain ⟨d, r₂, htake₂, hd, rfl⟩ := exists_takeUntil_of_ne_nil hne'
    rw [htake₁] at hs₁ hforce hne
    rw [htake₂] at hfirst hforce
    obtain rfl : r₁ = _ := hs₁
    obtain ⟨force, w'', hforce', hw'', rfl⟩ := parseForce_eq_ok.mp ⟨r, hforce, hbracket⟩
    obtain rfl := consume_eq_some.mp hs
    refine ⟨_, cmd, first, _, w', .intro hv hne hd hw hw'' hfirst hforce', hw', ?_, ?_⟩
    · rw [hs₃]
      simp only [List.append_assoc, text_quote_append, List.cons_append]
    · rw [Content.onto, htake₁]
      congr 1
      exact hc.secondParam
  · rintro ⟨e, cmd, first, value, w', h, hw', rfl, rfl⟩
    cases h with
    | @intro v d w w'' force _ _ hv hne hd hw hw'' hfirst hforce =>
      simp only [List.append_assoc, text_quote_append, List.cons_append]
      refine ⟨_, consume_eq_some.mpr rfl, ?_⟩
      rw [takeUntil_append hv]
      refine ⟨(), hne, _, ⟨w, hw, rfl⟩, ?_⟩
      rw [takeUntil_append hd]
      obtain ⟨s', hs', hbracket⟩ := parseForce_eq_ok.mpr
        ⟨force, w'', hforce, hw'', (rfl : _ = force ++ (w'' ++ (text "/>" ++
          (w' ++ (text "<" ++ rest)))))⟩
      refine ⟨(), hfirst.ne_nil, first, hfirst, ⟨cmd, s'⟩, hs', _, hbracket, rest,
        ⟨w', hw', rfl⟩, ?_⟩
      rw [Content.onto, ← hc.secondParam]

theorem parseTypeQuery_eq_ok {c c' : SManagementCMD} (hc : Blank c) {s word rest : Text}
    {single list : EMGMCommandType} :
    parseTypeQuery c s word single list = .ok (c', rest) ↔ ∃ e cmd first hash,
      TypesData word single list e cmd first hash ∧ s = e ++ rest ∧
        c' = Content.onto ⟨cmd, first, .nil, hash⟩ c := by
  simp only [parseTypeQuery, parseQueryTypes, bind_eq_ok, required_eq_ok, demand_eq_ok,
    consume_name, proceedToClosingBracket_eq_some, hc.firstParam, hc.additionalParams]
  constructor
  · rintro ⟨s₁, hs, s₂, ⟨w, hw, rfl⟩, -, hne, ⟨first, hash⟩, htype, s₃, ⟨w', hw', hs₂⟩, heq⟩
    obtain ⟨rfl, rfl⟩ := Prod.mk.inj (Except.ok.inj heq)
    obtain ⟨n, r, htake, hn, rfl⟩ := exists_takeUntil_of_ne_nil hne
    rw [htake, parseType_eq_ok] at htype
    rw [htake] at hs₂ hne
    obtain rfl : r = _ := hs₂
    obtain rfl := consume_eq_some.mp hs
    by_cases hany : n = text "*"
    · subst hany
      obtain ⟨rfl, rfl⟩ := Prod.mk.inj (Except.ok.inj (parseType_eq_ok.mpr htype))
      refine ⟨_, list, .nil, [], .any hw hw', ?_, ?_⟩
      · simp only [List.append_assoc, text_quote_append, List.cons_append]
      · rw [htake, Content.onto, ← hc.secondParam]
        rfl
    · refine ⟨_, single, first, hash, .name hn hne hany hw hw' htype, ?_, ?_⟩
      · simp only [List.append_assoc, text_quote_append, List.cons_append]
      · have hnot : ¬isAsteriskValue n = true := fun h => hany (of_decide_eq_true h)
        simp only [htake, if_neg hnot, Content.onto, hc.secondParam]
  · rintro ⟨e, cmd, first, hash, h, rfl, rfl⟩
    cases h with
    | @any w w' hw hw' =>
      simp only [List.append_assoc, text_quote_append, List.cons_append]
      refine ⟨_, consume_eq_some.mpr rfl, _, ⟨w, hw, rfl⟩, ?_⟩
      rw [takeUntil_append (by decide)]
      refine ⟨(), List.cons_ne_nil _ _, ⟨.nil, []⟩, rfl, rest, ⟨w', hw', rfl⟩, ?_⟩
      rw [Content.onto, ← hc.secondParam]
      rfl
    | @name n w w' _ _ hn hne hany hw hw' hfirst =>
      have hnot : ¬isAsteriskValue n = true := fun h => hany (of_decide_eq_true h)
      simp only [List.append_assoc, text_quote_append, List.cons_append]
      refine ⟨_, consume_eq_some.mpr rfl, _, ⟨w, hw, rfl⟩, ?_⟩
      rw [takeUntil_append hn]
      refine ⟨(), hne, ⟨first, hash⟩, parseType_eq_ok.mpr hfirst, rest, ⟨w', hw', rfl⟩, ?_⟩
      simp only [if_neg hnot, Content.onto, hc.secondParam]

/-! ### The element of an action -/

theorem as_eq_ok {cmd : EMGMCommandType} {parsed : Parsed} {c' : SManagementCMD} {rest : Text} :
    as cmd parsed = .ok (c', rest) ↔ ∃ c, parsed = .ok (c, rest) ∧ c' = { c with cmd } := by
  cases parsed with
  | error e => exact iff_of_false nofun (by rintro ⟨c, h, -⟩; exact nomatch h)
  | ok r =>
    constructor
    · rintro ⟨⟩
      exact ⟨r.1, rfl, rfl⟩
    · rintro ⟨c, ⟨⟩, rfl⟩
      rfl

theorem thenOpenBracket_eq_ok {parsed : Parsed} {c : SManagementCMD} {rest : Text} :
    thenOpenBracket parsed = .ok (c, rest) ↔
      ∃ w, White w ∧ parsed = .ok (c, w ++ (text "<" ++ rest)) := by
  simp only [thenOpenBracket, bind_eq_ok, required_eq_ok, proceedToOpenBracket_eq_some]
  constructor
  · rintro ⟨⟨c₁, s₁⟩, hparsed, rest', ⟨w, hw, rfl⟩, ⟨⟩⟩
    exact ⟨w, hw, hparsed⟩
  · rintro ⟨w, hw, h⟩
    exact ⟨_, h, rest, ⟨w, hw, rfl⟩, rfl⟩

theorem Blank.withCmd {c : SManagementCMD} (h : Blank c) (cmd : EMGMCommandType) :
    Blank { c with cmd } := ⟨h.firstParam, h.secondParam, h.additionalParams⟩

/-- **What the parser makes of the element for an action**: it is one, and the next tag has
begun behind it. -/
def ReadsElement (action : Action) (c : SManagementCMD) (s : Text) (c' : SManagementCMD)
    (rest : Text) : Prop :=
  ∃ complete e content w, Element action complete e content ∧ White w ∧
    s = e ++ (w ++ (text "<" ++ rest)) ∧ (complete = false → Unquoted rest) ∧
    c' = content.onto c

theorem unquoted_bracket_iff {w rest : Text} (hw : White w) :
    Unquoted (w ++ (text "<" ++ rest)) ↔ Unquoted rest := by
  constructor
  · exact fun h hmem => h (List.mem_append_right w (List.mem_append_right _ hmem))
  · exact fun h => hw.unquoted.append (Unquoted.append (by unfold Unquoted; decide) h)

section Steps

variable {action : Action} {cmd cmd₀ : EMGMCommandType} {c c' : SManagementCMD} {s rest : Text}

theorem readsElement_of_fb (hcmd : action.fbCommand = some cmd) (hc : Blank c)
    (h : thenOpenBracket (as cmd (parseFBData { c with cmd := cmd₀ } s)) = .ok (c', rest)) :
    ReadsElement action c s c' rest := by
  obtain ⟨w, hw, h⟩ := thenOpenBracket_eq_ok.mp h
  obtain ⟨c₁, hparsed, rfl⟩ := as_eq_ok.mp h
  obtain ⟨complete, e, first, second, hash, hdata, rfl, hrest, rfl⟩ :=
    (parseFBData_eq_ok (hc.withCmd _)).mp hparsed
  exact ⟨complete, e, _, w, .fb hcmd hdata, hw, rfl,
    fun hfalse => (unquoted_bracket_iff hw).mp (hrest hfalse), rfl⟩

theorem fb_eq_ok (hc : Blank c) {complete : Bool} {e hash w : Text}
    {first second : TNameIdentifier} (h : FBData complete e first second hash) (hw : White w)
    (hrest : complete = false → Unquoted rest) :
    thenOpenBracket (as cmd (parseFBData { c with cmd := cmd₀ } (e ++ (w ++ (text "<" ++ rest))))) =
      .ok (Content.onto ⟨cmd, first, second, hash⟩ c, rest) := by
  refine thenOpenBracket_eq_ok.mpr ⟨w, hw,
    as_eq_ok.mpr ⟨Content.onto ⟨cmd₀, first, second, hash⟩ c, ?_, ?_⟩⟩
  · exact (parseFBData_eq_ok (hc.withCmd _)).mpr ⟨complete, e, first, second, hash, h, rfl,
      fun hfalse => (unquoted_bracket_iff hw).mpr (hrest hfalse), rfl⟩
  · rfl

theorem readsElement_of_link {word : Text} (hc : Blank c)
    (hel : ∀ e first second, LinkData word e first second →
      Element action true e ⟨cmd, first, second, []⟩)
    (h : thenOpenBracket (as cmd (parseLinkData word { c with cmd := cmd₀ } s)) =
      .ok (c', rest)) : ReadsElement action c s c' rest := by
  obtain ⟨w, hw, h⟩ := thenOpenBracket_eq_ok.mp h
  obtain ⟨c₁, hparsed, rfl⟩ := as_eq_ok.mp h
  obtain ⟨e, first, second, hdata, rfl, rfl⟩ :=
    (parseLinkData_eq_ok (hc.withCmd _) _).mp hparsed
  exact ⟨true, e, _, w, hel e first second hdata, hw, rfl, nofun, rfl⟩

theorem link_eq_ok {word : Text} (hc : Blank c) {e w : Text} {first second : TNameIdentifier}
    (h : LinkData word e first second) (hw : White w) :
    thenOpenBracket (as cmd (parseLinkData word { c with cmd := cmd₀ }
      (e ++ (w ++ (text "<" ++ rest))))) =
      .ok (Content.onto ⟨cmd, first, second, []⟩ c, rest) :=
  thenOpenBracket_eq_ok.mpr ⟨w, hw, as_eq_ok.mpr ⟨Content.onto ⟨cmd₀, first, second, []⟩ c,
    (parseLinkData_eq_ok (hc.withCmd _) _).mpr ⟨e, first, second, h, rfl, rfl⟩, rfl⟩⟩

theorem readsElement_of_types {word : Text} {single list : EMGMCommandType}
    (hkind : (word, single, list) ∈ typeKinds) (hc : Blank c)
    (h : thenOpenBracket (parseTypeQuery { c with cmd := cmd₀ } s word single list) =
      .ok (c', rest)) : ReadsElement .query c s c' rest := by
  obtain ⟨w, hw, h⟩ := thenOpenBracket_eq_ok.mp h
  obtain ⟨e, cmd, first, hash, hdata, rfl, rfl⟩ := (parseTypeQuery_eq_ok (hc.withCmd _)).mp h
  exact ⟨true, e, _, w, .types hkind hdata, hw, rfl, nofun, rfl⟩

theorem types_eq_ok {word : Text} {single list : EMGMCommandType} (hc : Blank c)
    {e hash w : Text} {first : TNameIdentifier} (h : TypesData word single list e cmd first hash)
    (hw : White w) :
    thenOpenBracket (parseTypeQuery { c with cmd := cmd₀ } (e ++ (w ++ (text "<" ++ rest))) word
      single list) = .ok (Content.onto ⟨cmd, first, .nil, hash⟩ c, rest) :=
  thenOpenBracket_eq_ok.mpr ⟨w, hw,
    (parseTypeQuery_eq_ok (hc.withCmd _)).mpr ⟨e, cmd, first, hash, h, rfl, rfl⟩⟩

end Steps

/-! ### The first character of an element -/

theorem FBData.exists_eq_append {complete : Bool} {e hash : Text}
    {first second : TNameIdentifier} (h : FBData complete e first second hash) :
    ∃ t, e = text "FB Name=\"" ++ t := by
  cases h
  · simp only [List.append_assoc]
    exact ⟨_, rfl⟩
  · simp only [List.append_assoc]
    exact ⟨_, rfl⟩

theorem FBData.peek_eq {complete : Bool} {e hash : Text} {first second : TNameIdentifier}
    (h : FBData complete e first second hash) (t : Text) : peek (e ++ t) = 'F'.toUInt8 := by
  obtain ⟨u, rfl⟩ := h.exists_eq_append
  rfl

theorem LinkData.peek_eq {word e : Text} (hword : word ≠ []) {first second : TNameIdentifier}
    (h : LinkData word e first second) (t : Text) : peek (e ++ t) = peek word := by
  obtain ⟨u, rfl⟩ := h.exists_eq_append
  rw [List.append_assoc, peek_append hword]

theorem TypesData.exists_eq_append {word e hash : Text} {single list cmd : EMGMCommandType}
    {first : TNameIdentifier} (h : TypesData word single list e cmd first hash) :
    ∃ t, e = word ++ t := by
  cases h
  · simp only [List.append_assoc]
    exact ⟨_, rfl⟩
  · simp only [List.append_assoc]
    exact ⟨_, rfl⟩

theorem TypesData.peek_eq {word e hash : Text} (hword : word ≠ [])
    {single list cmd : EMGMCommandType} {first : TNameIdentifier}
    (h : TypesData word single list e cmd first hash) (t : Text) :
    peek (e ++ t) = peek word := by
  obtain ⟨u, rfl⟩ := h.exists_eq_append
  rw [List.append_assoc, peek_append hword]

/-! ### The actions -/

section Actions

variable {c c' : SManagementCMD} {s rest : Text}

theorem parseObjectData_eq_ok {action : Action} {fbInstance connection watch : EMGMCommandType}
    (hfb : action.fbCommand = some fbInstance)
    (hconnection : action.connectionCommand = some connection)
    (hwatch : action.watchCommand = some watch) (hc : Blank c) :
    parseObjectData fbInstance connection watch c s = .ok (c', rest) ↔
      ReadsElement action c s c' rest := by
  unfold parseObjectData
  constructor
  · intro h
    split_ifs at h
    · exact readsElement_of_fb hfb hc h
    · exact readsElement_of_link hc (fun _ _ _ => .connection hconnection) h
    · exact readsElement_of_link hc (fun _ _ _ => .watch hwatch) h
    · exact absurd h nofun
  · rintro ⟨complete, e, content, w, hel, hw, rfl, hrest, rfl⟩
    cases hel with
    | fb hcmd h =>
      obtain rfl := Option.some.inj (hfb.symm.trans hcmd)
      rw [h.peek_eq, if_pos rfl]
      exact fb_eq_ok hc h hw hrest
    | connection hcmd h =>
      obtain rfl := Option.some.inj (hconnection.symm.trans hcmd)
      rw [h.peek_eq (by decide), if_neg (by decide), if_pos (by decide)]
      exact link_eq_ok hc h hw
    | watch hcmd h =>
      obtain rfl := Option.some.inj (hwatch.symm.trans hcmd)
      rw [h.peek_eq (by decide), if_neg (by decide), if_neg (by decide), if_pos (by decide)]
      exact link_eq_ok hc h hw
    | watches => exact absurd hfb nofun
    | write => exact absurd hfb nofun
    | types => exact absurd hwatch nofun

theorem parseAdditionalStateCommandData_eq_ok {action : Action} (hc : Blank c)
    (hstate : action.isState = true) (hcmd : c.cmd = action.command) :
    parseAdditionalStateCommandData c s = .ok (c', rest) ↔
      (peek s ≠ 'F'.toUInt8 ∧ c' = c ∧ rest = s) ∨ ReadsElement action c s c' rest := by
  have hfb : action.fbCommand = some c.cmd := by
    rw [hcmd]
    cases action <;> first | rfl | exact absurd hstate nofun
  have hnone : action.connectionCommand = none ∧ action.watchCommand = none := by
    cases action <;> first | exact ⟨rfl, rfl⟩ | exact absurd hstate nofun
  unfold parseAdditionalStateCommandData
  constructor
  · intro h
    split_ifs at h with hpeek
    · obtain ⟨w, hw, h⟩ := thenOpenBracket_eq_ok.mp h
      obtain ⟨complete, e, first, second, hash, hdata, rfl, hrest, rfl⟩ :=
        (parseFBData_eq_ok hc).mp h
      exact .inr ⟨complete, e, _, w, .fb hfb hdata, hw, rfl,
        fun hfalse => (unquoted_bracket_iff hw).mp (hrest hfalse), rfl⟩
    · obtain ⟨rfl, rfl⟩ := Prod.mk.inj (Except.ok.inj h)
      exact .inl ⟨hpeek, rfl, rfl⟩
  · rintro (⟨hpeek, rfl, rfl⟩ | ⟨complete, e, content, w, hel, hw, rfl, hrest, rfl⟩)
    · rw [if_neg hpeek]
    · cases hel with
      | fb hcmd' h =>
        obtain rfl := Option.some.inj (hfb.symm.trans hcmd')
        rw [h.peek_eq, if_pos rfl]
        exact thenOpenBracket_eq_ok.mpr ⟨w, hw, (parseFBData_eq_ok hc).mpr
          ⟨complete, e, _, _, _, h, rfl,
            fun hfalse => (unquoted_bracket_iff hw).mpr (hrest hfalse), rfl⟩⟩
      | connection hcmd' => exact absurd (hnone.1.symm.trans hcmd') nofun
      | watch hcmd' => exact absurd (hnone.2.symm.trans hcmd') nofun
      | watches => exact absurd hstate nofun
      | write => exact absurd hstate nofun
      | types => exact absurd hstate nofun

theorem Blank.onto_eq (hc : Blank c) (cmd : EMGMCommandType) :
    Content.onto ⟨cmd, .nil, .nil, []⟩ c = { c with cmd } := by
  obtain ⟨h₁, h₂, h₃⟩ := hc
  cases c
  subst h₁ h₂ h₃
  rfl

theorem parseReadData_eq_ok (hc : Blank c) :
    parseReadData c s = .ok (c', rest) ↔ ReadsElement .read c s c' rest := by
  unfold parseReadData
  constructor
  · intro h
    split_ifs at h
    · exact readsElement_of_link hc (fun _ _ _ => .connection rfl) h
    · obtain ⟨w, hw, h⟩ := thenOpenBracket_eq_ok.mp h
      simp only [bind_eq_ok, required_eq_ok, consume_eq_some] at h
      obtain ⟨s₁, rfl, heq⟩ := h
      obtain ⟨rfl, rfl⟩ := Prod.mk.inj (Except.ok.inj heq)
      exact ⟨true, _, _, w, .watches, hw, rfl, (by rintro ⟨⟩), (hc.onto_eq _).symm⟩
    · exact absurd h (by rintro ⟨⟩)
  · rintro ⟨complete, e, content, w, hel, hw, rfl, hrest, rfl⟩
    cases hel with
    | fb hcmd h => exact absurd hcmd (by rintro ⟨⟩)
    | connection hcmd h =>
      obtain rfl := Option.some.inj hcmd
      rw [h.peek_eq (by decide), if_pos (by decide)]
      exact link_eq_ok hc h hw
    | watch hcmd h => exact absurd hcmd (by rintro ⟨⟩)
    | watches =>
      rw [peek_append (by decide), if_neg (by decide), if_pos (by decide), hc.onto_eq]
      refine thenOpenBracket_eq_ok.mpr ⟨w, hw, ?_⟩
      simp only [bind_eq_ok, required_eq_ok, consume_eq_some]
      exact ⟨_, rfl, rfl⟩

theorem parseQueryData_eq_ok (hc : Blank c) :
    parseQueryData c s = .ok (c', rest) ↔ ReadsElement .query c s c' rest := by
  simp only [parseQueryData]
  constructor
  · intro h
    split_ifs at h
    · exact readsElement_of_types (by decide) hc h
    · exact readsElement_of_fb rfl hc h
    · exact readsElement_of_link hc (fun _ _ _ => .connection rfl) h
    · exact readsElement_of_types (by decide) hc h
    · exact readsElement_of_types (by decide) hc h
    · exact readsElement_of_types (by decide) hc h
    · exact absurd h nofun
  · rintro ⟨complete, e, content, w, hel, hw, rfl, hrest, rfl⟩
    cases hel with
    | fb hcmd h =>
      obtain rfl := Option.some.inj hcmd
      have hword : consume (text "FBType") (e ++ (w ++ (text "<" ++ rest))) = none := by
        obtain ⟨t, rfl⟩ := h.exists_eq_append
        cases hcons : consume (text "FBType") (text "FB Name=\"" ++ t ++ (w ++ (text "<" ++ rest)))
          with
        | none => rfl
        | some rest' =>
          -- the words differ at their third characters
          have hthird : ' '.toUInt8 = 'T'.toUInt8 :=
            congrArg (fun s : Text => s.at 2) (consume_eq_some.mp hcons)
          exact absurd hthird (by decide)
      rw [h.peek_eq, if_pos rfl, hword, if_neg nofun]
      exact fb_eq_ok hc h hw hrest
    | connection hcmd h =>
      obtain rfl := Option.some.inj hcmd
      rw [h.peek_eq (by decide), if_neg (by decide), if_pos (by decide)]
      exact link_eq_ok hc h hw
    | watch hcmd h => exact absurd hcmd nofun
    | types hkind h =>
      simp only [typeKinds, List.mem_cons, Prod.mk.injEq, List.not_mem_nil, or_false] at hkind
      rcases hkind with ⟨rfl, rfl, rfl⟩ | ⟨rfl, rfl, rfl⟩ | ⟨rfl, rfl, rfl⟩ | ⟨rfl, rfl, rfl⟩
      · have hword : (consume (text "FBType") (e ++ (w ++ (text "<" ++ rest)))).isSome = true := by
          obtain ⟨t, rfl⟩ := h.exists_eq_append
          rw [List.append_assoc, consume_eq_some.mpr rfl]
          rfl
        rw [h.peek_eq (by decide), if_pos (by decide), if_pos hword]
        exact types_eq_ok hc h hw
      · rw [h.peek_eq (by decide), if_neg (by decide), if_neg (by decide), if_pos (by decide)]
        exact types_eq_ok hc h hw
      · rw [h.peek_eq (by decide), if_neg (by decide), if_neg (by decide), if_neg (by decide),
          if_pos (by decide)]
        exact types_eq_ok hc h hw
      · rw [h.peek_eq (by decide), if_neg (by decide), if_neg (by decide), if_neg (by decide),
          if_neg (by decide), if_pos (by decide)]
        exact types_eq_ok hc h hw

theorem parseWriteData_eq_ok_iff (hc : Blank c) :
    parseWriteData c s = .ok (c', rest) ↔ ReadsElement .write c s c' rest := by
  rw [parseWriteData_eq_ok hc]
  constructor
  · rintro ⟨e, cmd, first, value, w, h, hw, rfl, rfl⟩
    exact ⟨true, e, _, w, .write h, hw, rfl, nofun, rfl⟩
  · rintro ⟨complete, e, content, w, hel, hw, rfl, hrest, rfl⟩
    cases hel with
    | fb hcmd => exact absurd hcmd nofun
    | connection hcmd => exact absurd hcmd nofun
    | watch hcmd => exact absurd hcmd nofun
    | write h => exact ⟨e, _, _, _, w, h, hw, rfl, rfl⟩

/-- **The element of an action**, or none of a command for the execution state. -/
theorem parseElement_eq_ok {action : Action} (hc : Blank c) (hcmd : c.cmd = action.command) :
    parseElement action c s = .ok (c', rest) ↔
      (action.isState = true ∧ peek s ≠ 'F'.toUInt8 ∧ c' = c ∧ rest = s) ∨
        ReadsElement action c s c' rest := by
  cases action with
  | create => exact (parseObjectData_eq_ok rfl rfl rfl hc).trans (or_iff_right nofun).symm
  | delete => exact (parseObjectData_eq_ok rfl rfl rfl hc).trans (or_iff_right nofun).symm
  | read => exact (parseReadData_eq_ok hc).trans (or_iff_right nofun).symm
  | write => exact (parseWriteData_eq_ok_iff hc).trans (or_iff_right nofun).symm
  | query => exact (parseQueryData_eq_ok hc).trans (or_iff_right nofun).symm
  | _ =>
    rw [show (Action.isState _ = true ∧ peek s ≠ 'F'.toUInt8 ∧ c' = c ∧ rest = s) ↔
      peek s ≠ 'F'.toUInt8 ∧ c' = c ∧ rest = s from and_iff_right rfl]
    exact parseAdditionalStateCommandData_eq_ok hc rfl hcmd

end Actions

/-! ### Requests -/

theorem find_action_eq_some {name : Text} {action : Action} :
    actionTable.find? (·.name = name) = some action ↔ name = action.name := by
  constructor
  · intro h
    have hname := List.find?_some h
    exact (of_decide_eq_true hname).symm
  · rintro rfl
    cases action <;> rfl

theorem consumeTagEnd_eq_some {s rest : Text} :
    consumeTagEnd (skipWhiteSpace s) = some rest ↔
      ∃ closing w, White w ∧ s = w ++ (tagEnd closing ++ rest) := by
  have hopen (r : Text) : consume (text ">") (skipWhiteSpace s) = some r ↔
      ∃ w, White w ∧ s = w ++ (tagEnd false ++ r) :=
    consume_skipWhiteSpace (by decide) (by decide)
  have hclosed (r : Text) : consume (text "/>") (skipWhiteSpace s) = some r ↔
      ∃ w, White w ∧ s = w ++ (tagEnd true ++ r) :=
    consume_skipWhiteSpace (by decide) (by decide)
  unfold consumeTagEnd
  cases htag : consume (text ">") (skipWhiteSpace s) with
  | none =>
    rw [Option.none_or, hclosed]
    constructor
    · rintro ⟨w, hw, h⟩
      exact ⟨true, w, hw, h⟩
    · rintro ⟨closing, w, hw, h⟩
      cases closing with
      | true => exact ⟨w, hw, h⟩
      | false => exact absurd (htag.symm.trans ((hopen rest).mpr ⟨w, hw, h⟩)) nofun
  | some r =>
    rw [Option.some_or, ← htag, hopen]
    constructor
    · rintro ⟨w, hw, h⟩
      exact ⟨false, w, hw, h⟩
    · rintro ⟨closing, w, hw, h⟩
      cases closing with
      | false => exact ⟨w, hw, h⟩
      | true =>
        -- the two brackets have different first characters
        have hslash := consume_eq_some.mp ((hclosed rest).mpr ⟨w, hw, h⟩)
        rw [consume_eq_some.mp htag] at hslash
        have hfirst : '>'.toUInt8 = '/'.toUInt8 := congrArg peek hslash
        exact absurd hfirst (by decide)

theorem parseRequest_eq_ok {c c' : SManagementCMD} {action : Action} {s rest : Text} :
    parseRequest c s = .ok (action, c', rest) ↔ ∃ id w w' closing,
      Unquoted id ∧ White w ∧ White w' ∧
      s = text "<Request ID=\"" ++ id ++ text "\"" ++ w ++
        text "Action=\"" ++ action.name ++ text "\"" ++ w' ++ (tagEnd closing ++ rest) ∧
      c' = { c with id, cmd := action.command } := by
  have haction (action : Action) : Unquoted action.name ∧ action.name ≠ [] := by
    unfold Unquoted
    cases action <;> decide
  simp only [parseRequest, parseActionAttributeValue, bind_eq_ok, required_eq_ok,
    consume_skipWhiteSpace (show text "Action=\"" ≠ [] by decide) (by decide),
    find_action_eq_some, consumeTagEnd_eq_some]
  constructor
  · rintro ⟨s₁, hs, s₂, ⟨w, hw, hs₁⟩, _, hname, s₃, ⟨closing, w', hw', hs₂⟩, heq⟩
    obtain ⟨rfl, rfl, rfl⟩ : _ = action ∧ _ = c' ∧ _ = rest := by
      have h := Except.ok.inj heq
      exact ⟨congrArg (·.1) h, congrArg (·.2.1) h, congrArg (·.2.2) h⟩
    have hne : (takeUntil '"'.toUInt8 s₂).1 ≠ [] := by
      rw [hname]
      exact (haction _).2
    obtain ⟨a, r₂, htake₂, ha, rfl⟩ := exists_takeUntil_of_ne_nil hne
    obtain ⟨id, r₁, htake₁, ⟨hid, rfl⟩ | ⟨hnone, -, rfl⟩⟩ := exists_takeUntil '"'.toUInt8 s₁
    · rw [htake₁] at hs₁ ⊢
      rw [htake₂] at hs₂ hname
      obtain rfl : r₁ = _ := hs₁
      obtain rfl : r₂ = _ := hs₂
      obtain rfl : a = _ := hname
      obtain rfl := consume_eq_some.mp hs
      refine ⟨id, w, w', closing, hid, hw, hw', ?_, rfl⟩
      simp only [List.append_assoc, text_quote_append, List.cons_append]
    · -- there is a quote, behind the action
      rw [htake₁] at hs₁
      obtain rfl : r₁ = _ := hs₁
      exact absurd (List.mem_append_right w
        (List.mem_append_left _ (show '"'.toUInt8 ∈ text "Action=\"" by decide))) hnone
  · rintro ⟨id, w, w', closing, hid, hw, hw', rfl, rfl⟩
    simp only [List.append_assoc, text_quote_append, List.cons_append]
    refine ⟨_, consume_eq_some.mpr rfl, ?_⟩
    rw [takeUntil_append hid]
    refine ⟨_, ⟨w, hw, rfl⟩, ?_⟩
    rw [takeUntil_append (haction action).1]
    exact ⟨action, rfl, rest, ⟨closing, w', hw', rfl⟩, rfl⟩

theorem checkRequestClosingTag_iff {s : Text} :
    checkRequestClosingTag s = true ↔ ∃ ended, EndTag ended s := by
  unfold checkRequestClosingTag
  split
  · rename_i hnil
    subst hnil
    exact iff_of_true rfl ⟨false, .cut⟩
  rename_i hne
  constructor
  · intro h
    split at h
    · exact absurd h nofun
    · rename_i r htag
      obtain ⟨w, hw, rfl⟩ := (consume_skipWhiteSpace (by decide) (by decide)).mp htag
      obtain ⟨w', hw', hr⟩ := exists_white r
      rw [of_decide_eq_true h, List.append_nil] at hr
      rw [hr, ← List.append_assoc]
      exact ⟨true, .complete hw hw'⟩
  · rintro ⟨ended, h⟩
    cases h with
    | cut => exact absurd rfl hne
    | @complete w w' hw hw' =>
      rw [List.append_assoc, (consume_skipWhiteSpace (by decide) (by decide)).mpr ⟨w, hw, rfl⟩]
      exact decide_eq_true (skipWhiteSpace_white hw')

theorem EndTag.unquoted {ended : Bool} {s : Text} (h : EndTag ended s) : Unquoted s := by
  cases h with
  | cut => exact nofun
  | complete hw hw' =>
    exact (hw.unquoted.append (by unfold Unquoted; decide)).append hw'.unquoted

/-- An end tag does not begin like an element for a function block. -/
theorem EndTag.peek_ne {ended : Bool} {s : Text} (h : EndTag ended s) :
    peek s ≠ 'F'.toUInt8 := by
  cases h with
  | cut => decide
  | @complete w w' hw hw' =>
    cases w with
    | nil => exact (by decide : peek (text "/Request>") ≠ 'F'.toUInt8)
    | cons c w =>
      rintro (rfl : c = _)
      exact absurd (hw _ List.mem_cons_self) (by decide)

/-- The command that a request is read as. -/
def Content.command (content : Content) (dest id : Text) : SManagementCMD :=
  content.onto { cleared dest with id }

theorem proceedToNextTag_eq_ok {s rest : Text} :
    proceedToNextTag s = .ok rest ↔
      (White s ∧ rest = []) ∨ ∃ w, White w ∧ s = w ++ (text "<" ++ rest) := by
  have hwhite : skipWhiteSpace s = [] ↔ White s := by
    constructor
    · intro h
      obtain ⟨w, hw, hs⟩ := exists_white s
      rw [hs, h, List.append_nil]
      exact hw
    · exact skipWhiteSpace_white
  unfold proceedToNextTag
  split
  · rename_i hnil
    constructor
    · rintro ⟨⟩
      exact .inl ⟨hwhite.mp hnil, rfl⟩
    · rintro (⟨-, rfl⟩ | ⟨w, hw, rfl⟩)
      · rfl
      · rw [skipWhiteSpace_append hw (stops_append (by decide) (by decide) rest)] at hnil
        exact absurd hnil (List.cons_ne_nil _ _)
  · rename_i hne
    rw [required_eq_ok, proceedToOpenBracket, skipWhiteSpace_skipWhiteSpace,
      ← proceedToOpenBracket, proceedToOpenBracket_eq_some]
    exact (or_iff_right fun h => hne (hwhite.mpr h.1)).symm

/-- **What the parser accepts**: complete requests, and the ones that are not complete in one
of the ways of the grammar. -/
theorem parseMGMCommand_eq_ok_iff {dest t : Text} {cmd : SManagementCMD} :
    parseMGMCommand dest t = .ok cmd ↔ ∃ complete id content,
      Request complete t id content ∧ cmd = content.command dest id := by
  have hblank (id : Text) (cmd : EMGMCommandType) : Blank { cleared dest with id, cmd } :=
    ⟨rfl, rfl, rfl⟩
  simp only [parseMGMCommand, bind_eq_ok, demand_eq_ok, checkRequestClosingTag_iff]
  constructor
  · rintro ⟨⟨action, c, s⟩, hrequest, s₁, htag, ⟨c₁, s₂⟩, helement, _, ⟨ended, hended⟩, heq⟩
    dsimp only at htag helement hended heq
    obtain ⟨id, w, w', closing, hid, hw, hw', rfl, rfl⟩ := parseRequest_eq_ok.mp hrequest
    obtain rfl := Except.ok.inj heq
    replace helement := (parseElement_eq_ok (hblank id _) rfl).mp helement
    rcases proceedToNextTag_eq_ok.mp htag with ⟨hs, rfl⟩ | ⟨w'', hw'', rfl⟩
    · -- nothing is left behind the tag
      rcases helement with ⟨hstate, -, rfl, rfl⟩ | ⟨_, e, _, w₁, -, -, hnil, -⟩
      · cases closing with
        | true => exact ⟨true, id, _, .intro hid hw hw' (.closed hstate hs), rfl⟩
        | false => exact ⟨false, id, _, .intro hid hw hw' (.open hstate hs), rfl⟩
      · have hbracket : text "<" ++ s₂ = [] :=
          (List.append_eq_nil_iff.mp (List.append_eq_nil_iff.mp hnil.symm).2).2
        exact absurd hbracket (List.cons_ne_nil _ _)
    · rcases helement with ⟨hstate, -, rfl, rfl⟩ | ⟨complete, e, content, w₁, hel, hw₁, rfl, -, rfl⟩
      · have hbody : Body action (!closing && ended) (tagEnd closing ++ w'' ++ text "<" ++ s₂)
          ⟨action.command, .nil, .nil, []⟩ := .empty hstate hw'' hended
        rw [List.append_assoc, List.append_assoc] at hbody
        exact ⟨_, id, _, .intro hid hw hw' hbody, rfl⟩
      · have hbody : Body action (!closing && complete && ended)
          (tagEnd closing ++ w'' ++ text "<" ++ e ++ w₁ ++ text "<" ++ s₂) content :=
          .element hw'' hel hw₁ hended
        simp only [List.append_assoc] at hbody
        exact ⟨_, id, content, .intro hid hw hw' hbody, rfl⟩
  · rintro ⟨complete, id, content, h, rfl⟩
    obtain ⟨hid, hw, hw', hbody⟩ := h
    cases hbody with
    | closed hstate hs =>
      refine ⟨_, parseRequest_eq_ok.mpr ⟨_, _, _, true, hid, hw, hw', rfl, rfl⟩, [],
        proceedToNextTag_eq_ok.mpr (.inl ⟨hs, rfl⟩), _,
        (parseElement_eq_ok (hblank id _) rfl).mpr (.inl ⟨hstate, by decide, rfl, rfl⟩), (),
        ⟨false, .cut⟩, rfl⟩
    | «open» hstate hs =>
      refine ⟨_, parseRequest_eq_ok.mpr ⟨_, _, _, false, hid, hw, hw', rfl, rfl⟩, [],
        proceedToNextTag_eq_ok.mpr (.inl ⟨hs, rfl⟩), _,
        (parseElement_eq_ok (hblank id _) rfl).mpr (.inl ⟨hstate, by decide, rfl, rfl⟩), (),
        ⟨false, .cut⟩, rfl⟩
    | @empty closing _ _ _ hstate hw'' hended =>
      simp only [List.append_assoc]
      refine ⟨_, parseRequest_eq_ok.mpr ⟨_, _, _, closing, hid, hw, hw', ?_, rfl⟩, _,
        proceedToNextTag_eq_ok.mpr (.inr ⟨_, hw'', rfl⟩), _,
        (parseElement_eq_ok (hblank id _) rfl).mpr
          (.inl ⟨hstate, hended.peek_ne, rfl, rfl⟩), (), ⟨_, hended⟩, rfl⟩
      simp only [List.append_assoc]
    | @element closing _ _ _ _ _ _ _ hw'' hel hw₁ hended =>
      simp only [List.append_assoc]
      refine ⟨_, parseRequest_eq_ok.mpr ⟨_, _, _, closing, hid, hw, hw', ?_, rfl⟩, _,
        proceedToNextTag_eq_ok.mpr (.inr ⟨_, hw'', rfl⟩), _,
        (parseElement_eq_ok (hblank id _) rfl).mpr
          (.inr ⟨_, _, _, _, hel, hw₁, rfl, fun _ => hended.unquoted, rfl⟩), (),
        ⟨_, hended⟩, rfl⟩
      simp only [List.append_assoc]

end Forte
