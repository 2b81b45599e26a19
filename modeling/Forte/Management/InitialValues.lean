import Forte.Datatypes.Literal
import Forte.Datatypes.Members
import Forte.Lib.Replay
import Forte.Management.CommonState

/-!
# Initial values

A value that is written while the resource is idle is an initial value: the resource keeps the
text of the command in a table, under the names of the variable, and reads the texts again
whenever it is reset, in the order of the table's hashes.

The table keeps the *first* text that was written to a variable (`emplace`), so that a value
that is overwritten comes back with the next reset
(`Forte.Resource.firstWrite_comes_back`), and if a struct and a member of it have been written,
the order of the hashes decides which of them wins. What is restored is right as long as no
variable, nor one that contains it or lies in it, is given another text
(`Forte.Resource.reset_restores`).

The values that the connections carry are not modelled; nothing here reads them.
-/

namespace Forte

/-- A variable of a resource, or a member of one. -/
structure VariablePath where
  /-- The names that lead to the function block. -/
  fb : List StringId
  /-- The name of the variable of the function block. -/
  var : StringId
  /-- The names that lead to the member. -/
  member : List StringId
  deriving DecidableEq, Repr

namespace VariablePath

/-- The variables have a part in common: they are the same, or one is a member of the other. -/
def Overlaps (x y : VariablePath) : Prop :=
  x.fb = y.fb ∧ x.var = y.var ∧ (x.member <+: y.member ∨ y.member <+: x.member)

theorem Overlaps.symm {x y : VariablePath} (h : x.Overlaps y) : y.Overlaps x :=
  ⟨h.1.symm, h.2.1.symm, h.2.2.symm⟩

theorem overlaps_self (x : VariablePath) : x.Overlaps x :=
  ⟨rfl, rfl, .inl (List.prefix_refl _)⟩

end VariablePath

/-- The function blocks of a resource as they were created, and what their types say about the
variables. -/
structure Resource where
  /-- The function blocks, all of them idle. -/
  tree : Node
  /-- What `setInitialValues` of a function block gives to a variable; `none` where there is no
  variable of that name. -/
  initial : List StringId → StringId → Option Datum
  /-- The variables that are data ports, which have a `TAbsDataPortNum`. -/
  isPort : List StringId → StringId → Bool
  /-- `fromString` of a variable: what it returns and what it makes of the value. -/
  fromString : Datum → Text → ℤ × Datum
  /-- The order in which the table is gone through. -/
  hashOrder : List (List StringId × Text) → List (List StringId × Text)
  root_isFB : ∃ d cs, tree = .fb d cs
  idle : tree.AllIn .idle
  initial_isFB : ∀ p name, (initial p name).isSome → ∃ d cs, tree.resolve p = some (.fb d cs)
  hashOrder_perm : ∀ l, (hashOrder l).Perm l

/-- A resource at some time. -/
structure ResourceState where
  /-- The function blocks with their execution states. -/
  tree : Node
  /-- The values of the variables. -/
  values : List StringId → StringId → Datum
  /-- The variables that are forced, by their names. -/
  forced : List (List StringId)
  /-- `mInitialValues`. -/
  initialValues : List (List StringId × Text)

namespace ResourceState

/-- The value of a variable. -/
def valueAt (s : ResourceState) (x : VariablePath) : Option Datum :=
  (s.values x.fb x.var).getVar x.member

/-- The resource with another value in a variable. -/
def setAt (s : ResourceState) (x : VariablePath) (new : Datum) : ResourceState :=
  { s with
    values := fun p name =>
      if p = x.fb ∧ name = x.var then (s.values p name).setVar new x.member else s.values p name }

/-- `getState`. -/
def getState (s : ResourceState) : Option FBState := s.tree.stateAt []

end ResourceState

/-- What a C string ends with is not part of it. -/
def cString (t : Text) : Text := t.takeWhile (· ≠ 0)

namespace Resource

variable (R : Resource)

/-- The resource after its creation. -/
def fresh : ResourceState where
  tree := R.tree
  values := fun p name => (R.initial p name).getD (.number .bool 0)
  forced := []
  initialValues := []

/-- The walk of `getVar` to a function block and a variable of it; what is left of the names
leads to a member. -/
def locate (tree : Node) (p : List StringId) : List StringId → Option VariablePath
  | [] => none
  | name :: names =>
    if (R.initial p name).isSome then some ⟨p, name, names⟩
    else if (tree.resolve (p ++ [name])).isSome then locate tree (p ++ [name]) names
    else none

/-- `getVar`. -/
def getVar (s : ResourceState) (names : List StringId) : Option (VariablePath × Datum) :=
  (R.locate s.tree [] names).bind fun x => (s.valueAt x).map (x, ·)

/-- `setForced`, as far as it finds a port. -/
def setForced (tree : Node) (p : List StringId) : List StringId → Bool
  | [] => false
  | name :: names =>
    if R.isPort p name ∧ names = [] then true
    else if (tree.resolve (p ++ [name])).isSome then setForced tree (p ++ [name]) names
    else false

/-! ### The commands -/

/-- `emplace`: a value that is there already stays. -/
def emplace (names : List StringId) (value : Text) (l : List (List StringId × Text)) :
    List (List StringId × Text) :=
  if names ∈ l.map Prod.fst then l else (names, value) :: l

/-- `CResource::writeValue`. -/
def writeValue (s : ResourceState) (names : List StringId) (value : Text) (force : Bool) :
    EMGMResponse × ResourceState :=
  match R.getVar s names with
  | none => (.noSuchObject, s)
  | some (x, v) =>
    if value = [] then (.badParams, s)
    else
      let (length, new) := R.fromString v (cString value)
      let s := s.setAt x new
      if length ≠ asInt value.length then (.badParams, s)
      else if force ∧ ¬R.setForced s.tree [] names then (.noSuchObject, s)
      else
        (.ready, { s with
          forced := if force then names :: s.forced else s.forced
          initialValues :=
            if s.getState = some .idle then emplace names value s.initialValues
            else s.initialValues })

/-- One entry of the table in `setInitialValues`. -/
def setInitialValue (s : ResourceState) (entry : List StringId × Text) : ResourceState :=
  match R.getVar s entry.1 with
  | some (x, v) => s.setAt x (R.fromString v (cString entry.2)).2
  | none => s

/-- `CResource::setInitialValues`. -/
def setInitialValues (s : ResourceState) : ResourceState :=
  (R.hashOrder s.initialValues).foldl R.setInitialValue s

/-- The function blocks that a `Reset` has led back to the idle state give their variables the
initial values of their types. -/
def resetBlocks (before : Node) (s : ResourceState) : ResourceState :=
  { s with
    values := fun p name =>
      if before.stateAt p ≠ some .idle ∧ s.tree.stateAt p = some .idle then
        (R.initial p name).getD (s.values p name)
      else s.values p name }

/-- `CResource::changeExecutionState`. On a `Reset` the resource does not reset variables of its
own; in place of that it sets the initial values, once before its function blocks are reset and
once after that. -/
def changeExecutionState (s : ResourceState) (cmd : ExecutionCmd) : EMGMResponse × ResourceState :=
  let (response, tree) := s.tree.changeExecutionState cmd
  if cmd = .reset then
    let early := if s.getState ≠ tree.stateAt [] then R.setInitialValues s else s
    let reset := R.resetBlocks s.tree { early with tree }
    let reset := { reset with values := fun p => if p = [] then early.values p else reset.values p }
    (response, if response = .ready then R.setInitialValues reset else reset)
  else (response, { s with tree })

/-- What happens to a resource. -/
inductive Event
  | writeValue (names : List StringId) (value : Text) (force : Bool)
  | command (cmd : ExecutionCmd)
  /-- The function blocks execute and leave any values. So does the start of a resource that
  samples its own inputs. -/
  | execute (values : List StringId → StringId → Datum)

/-- What the resource does with it. Nothing executes unless the resource is running. -/
def step (s : ResourceState) : Event → ResourceState
  | .writeValue names value force => (R.writeValue s names value force).2
  | .command cmd => (R.changeExecutionState s cmd).2
  | .execute values => if s.getState = some .running then { s with values } else s

/-! ### Runs -/

/-- What a command writes in the idle state, if it succeeds: the variable and its new value. -/
def written (s : ResourceState) : Event → Option (VariablePath × Datum)
  | .writeValue names value force =>
    if s.getState = some .idle ∧ (R.writeValue s names value force).1 = .ready then
      (R.getVar s names).map fun (x, v) => (x, (R.fromString v (cString value)).2)
    else none
  | _ => none

/-- A run, with what was written in the idle state, the last first. -/
def runFrom (s : ResourceState) (log : List (VariablePath × Datum)) :
    List Event → ResourceState × List (VariablePath × Datum)
  | [] => (s, log)
  | e :: es => runFrom (R.step s e) ((R.written s e).toList ++ log) es

/-- A run from the creation of the resource. -/
def run : List Event → ResourceState × List (VariablePath × Datum) := R.runFrom R.fresh []

/-- The initial value of a variable. -/
def initialAt (x : VariablePath) : Option Datum :=
  (R.initial x.fb x.var).bind (·.getVar x.member)

/-- **What a reset should restore**: every variable that was written in the idle state has the
value it was last given there, and every other one its initial value. -/
structure Restored (s : ResourceState) (log : List (VariablePath × Datum)) : Prop where
  written : ∀ x w, log.find? (·.1 = x) = some w → s.valueAt x = some w.2
  untouched : ∀ x, (R.initial x.fb x.var).isSome → (∀ w ∈ log, ¬w.1.Overlaps x) →
    s.valueAt x = R.initialAt x

/-- **What a run has to keep to.** Where a value is written in the idle state, no other variable
that overlaps was written there before, and the variable itself only with the same value; the
text gives this value to the initial value of the variable too, and to a variable of the resource
itself once more. Apart from that the variables of the resource itself, which are not reset, are
not changed. -/
def Meets (s : ResourceState) : Event → Prop
  | .writeValue names value force =>
    ∀ x v, R.getVar s names = some (x, v) → value ≠ [] →
      if (R.written s (.writeValue names value force)).isSome then
        (∃ v₀, R.initialAt x = some v₀ ∧
          (R.fromString v₀ (cString value)).2 = (R.fromString v (cString value)).2 ∧
          ∀ entry ∈ s.initialValues, ∀ y, R.locate s.tree [] entry.1 = some y → x.Overlaps y →
            entry.1 = names ∧
              (R.fromString v₀ (cString entry.2)).2 = (R.fromString v (cString value)).2) ∧
        (x.fb = [] →
          (R.fromString (R.fromString v (cString value)).2 (cString value)).2 =
            (R.fromString v (cString value)).2)
      else x.fb = [] → (R.fromString v (cString value)).2 = v
  | .command _ => True
  | .execute values => s.getState = some .running → values [] = s.values []

/-- Every step of a run keeps to it. -/
def MeetsAll (s : ResourceState) : List Event → Prop
  | [] => True
  | e :: es => R.Meets s e ∧ MeetsAll (R.step s e) es

/-! ### The table -/

/-- The variable of an entry; the names in the tree do not change. -/
def find (names : List StringId) : Option VariablePath := R.locate R.tree [] names

end Resource

/-- The value of a variable, from all values. -/
def valueIn (values : List StringId → StringId → Datum) (x : VariablePath) : Option Datum :=
  (values x.fb x.var).getVar x.member

/-- The values with another one in a variable. -/
def setIn (values : List StringId → StringId → Datum) (x : VariablePath) (new : Datum) :
    List StringId → StringId → Datum := fun p name =>
  if p = x.fb ∧ name = x.var then (values p name).setVar new x.member else values p name

section Values

variable {values : List StringId → StringId → Datum} {x y : VariablePath}

theorem valueIn_setIn (h : (valueIn values x).isSome) (new : Datum) :
    valueIn (setIn values x new) x = some new := by
  rw [valueIn, setIn, if_pos ⟨rfl, rfl⟩]
  exact Datum.getVar_setVar h new

theorem valueIn_setIn_of_not (h : ¬x.Overlaps y) (new : Datum) :
    valueIn (setIn values x new) y = valueIn values y := by
  rw [valueIn, valueIn, setIn]
  split
  · rename_i hsame
    have hleading : ¬(x.member <+: y.member ∨ y.member <+: x.member) :=
      fun hp => h ⟨hsame.1.symm, hsame.2.symm, hp⟩
    exact Datum.getVar_setVar_of_not _ new (fun hp => hleading (.inl hp))
      (fun hp => hleading (.inr hp))
  · rfl

theorem setIn_of_ne {p : List StringId} (h : x.fb ≠ p) (new : Datum) :
    setIn values x new p = values p := by
  funext name
  exact if_neg fun hp => h hp.1.symm

/-- A value put in its own place changes nothing. -/
theorem setIn_valueIn {v : Datum} (h : valueIn values x = some v) : setIn values x v = values := by
  funext p name
  rw [setIn]
  split
  · rename_i hsame
    obtain ⟨rfl, rfl⟩ := hsame
    exact Datum.setVar_getVar h
  · rfl

end Values

namespace Resource

variable (R : Resource)

/-- One entry of the table, as it changes the values. -/
def applyEntry (values : List StringId → StringId → Datum) (entry : List StringId × Text) :
    List StringId → StringId → Datum :=
  match (R.find entry.1).bind fun x => (valueIn values x).map (x, ·) with
  | some (x, v) => setIn values x (R.fromString v (cString entry.2)).2
  | none => values

/-- **The table as a record of updates.** -/
def table : Replay (List StringId → StringId → Datum) VariablePath Datum (List StringId × Text)
    where
  get := valueIn
  place := fun entry => R.find entry.1
  update := fun entry v => (R.fromString v (cString entry.2)).2
  apply := R.applyEntry
  overlap := VariablePath.Overlaps
  get_apply := by
    intro values entry x v hx hv
    rw [applyEntry, hx, Option.bind_some, hv]
    exact valueIn_setIn (hv ▸ rfl) _
  get_apply_of_not := by
    intro values entry y h
    rw [applyEntry]
    cases hx : R.find entry.1 with
    | none => rfl
    | some x =>
      rw [Option.bind_some]
      cases valueIn values x with
      | none => rfl
      | some v => exact valueIn_setIn_of_not (h x hx) _

/-- The tree has the names and the function blocks it was created with. -/
structure SameBlocks (tree : Node) : Prop where
  names : ∀ p, (tree.resolve p).isSome = (R.tree.resolve p).isSome
  blocks : ∀ p d cs, R.tree.resolve p = some (.fb d cs) →
    ∃ d' cs', tree.resolve p = some (.fb d' cs')

variable {R}

theorem SameBlocks.locate_eq {tree : Node} (h : R.SameBlocks tree) (p names : List StringId) :
    R.locate tree p names = R.locate R.tree p names := by
  induction names generalizing p with
  | nil => rfl
  | cons name names ih => rw [locate, locate, h.names, ih]

theorem SameBlocks.carriedOut {tree : Node} (h : R.SameBlocks tree) (cmd : ExecutionCmd)
    (st : FBState) : R.SameBlocks (tree.carriedOut cmd st) where
  names := fun p => by rw [Node.resolve_carriedOut, Option.isSome_map, h.names]
  blocks := fun p d cs hp => by
    obtain ⟨d', cs', hp'⟩ := h.blocks p d cs hp
    rw [Node.resolve_carriedOut, hp']
    exact ⟨_, _, rfl⟩

/-- `setInitialValues` goes through the table. -/
theorem setInitialValues_eq {s : ResourceState} (h : R.SameBlocks s.tree) :
    R.setInitialValues s =
      { s with values := R.table.replay (R.hashOrder s.initialValues) s.values } := by
  have hone : ∀ (s : ResourceState) entry, R.SameBlocks s.tree →
      R.setInitialValue s entry = { s with values := R.applyEntry s.values entry } := by
    intro s entry hs
    rw [setInitialValue, getVar, hs.locate_eq, applyEntry]
    change (match (R.find entry.1).bind fun x => (valueIn s.values x).map (x, ·) with
      | some (x, v) => _
      | none => _) = _
    cases (R.find entry.1).bind fun x => (valueIn s.values x).map (x, ·) with
    | none => rfl
    | some r => rfl
  have hall : ∀ (l : List (List StringId × Text)) (s : ResourceState), R.SameBlocks s.tree →
      l.foldl R.setInitialValue s = { s with values := R.table.replay l s.values } := by
    intro l
    induction l with
    | nil => exact fun s _ => rfl
    | cons entry l ih =>
      intro s hs
      rw [List.foldl_cons, hone s entry hs]
      exact ih { s with values := R.applyEntry s.values entry } hs
  exact hall _ s h

/-! ### What holds in a run -/

variable (R)

/-- What the entry of a variable stands for: the value that its text gives to the initial value
of the variable. -/
def Stands (entry : List StringId × Text) (w : VariablePath × Datum) : Prop :=
  R.find entry.1 = some w.1 ∧
    ∃ v₀, R.initialAt w.1 = some v₀ ∧ w.2 = (R.fromString v₀ (cString entry.2)).2

/-- **What holds in every state of a run**: the entries of the table stand for what was written,
without overlaps, and the variables of the resource itself have the values a reset should leave
in them. -/
structure Invariant (s : ResourceState) (log : List (VariablePath × Datum)) : Prop where
  common : ∃ st, s.tree.AllIn st
  blocks : R.SameBlocks s.tree
  apart : s.initialValues.Pairwise R.table.Apart
  logged : ∀ w ∈ log, ∃ entry ∈ s.initialValues, R.Stands entry w
  recorded : ∀ entry ∈ s.initialValues, ∃ w ∈ log, R.Stands entry w ∧
    (w.1.fb = [] → (R.fromString w.2 (cString entry.2)).2 = w.2)
  ownWritten : ∀ w ∈ log, w.1.fb = [] → s.valueAt w.1 = some w.2
  ownUntouched : ∀ x, x.fb = [] → (R.initial x.fb x.var).isSome →
    (∀ w ∈ log, ¬w.1.Overlaps x) → s.valueAt x = R.initialAt x

theorem invariant_fresh : R.Invariant R.fresh [] where
  common := ⟨.idle, R.idle⟩
  blocks := ⟨fun _ => rfl, fun _ d cs hp => ⟨d, cs, hp⟩⟩
  apart := List.Pairwise.nil
  logged := nofun
  recorded := nofun
  ownWritten := nofun
  ownUntouched := by
    intro x _ hx _
    obtain ⟨v, hv⟩ := Option.isSome_iff_exists.mp hx
    simp only [ResourceState.valueAt, initialAt, fresh, hv, Option.getD_some, Option.bind_some]

variable {R}

/-- What is written does not change the variables of the resource itself, nor the table. -/
theorem Invariant.of_own {s s' : ResourceState} {log : List (VariablePath × Datum)}
    (h : R.Invariant s log) (htree : s'.tree = s.tree) (hown : s'.values [] = s.values [])
    (htable : s'.initialValues = s.initialValues) : R.Invariant s' log := by
  have hvalue : ∀ x : VariablePath, x.fb = [] → s'.valueAt x = s.valueAt x := by
    intro x hx
    rw [ResourceState.valueAt, ResourceState.valueAt, hx, hown]
  exact
    { common := htree ▸ h.common
      blocks := htree ▸ h.blocks
      apart := htable ▸ h.apart
      logged := htable ▸ h.logged
      recorded := htable ▸ h.recorded
      ownWritten := fun w hw hfb => (hvalue w.1 hfb).trans (h.ownWritten w hw hfb)
      ownUntouched := fun x hfb hx hlog =>
        (hvalue x hfb).trans (h.ownUntouched x hfb hx hlog) }

/-! ### Writing -/

/-- **What a write does**: nothing; or it changes the variable without being recorded; or it
changes the variable in the idle state and is recorded. -/
theorem writeValue_cases (s : ResourceState) (names : List StringId) (value : Text)
    (force : Bool) :
    ((R.writeValue s names value force).2 = s ∧
        R.written s (.writeValue names value force) = none) ∨
      ∃ x v, R.getVar s names = some (x, v) ∧ value ≠ [] ∧
        (R.writeValue s names value force).2.tree = s.tree ∧
        (R.writeValue s names value force).2.values =
          setIn s.values x (R.fromString v (cString value)).2 ∧
        ((R.written s (.writeValue names value force) = none ∧
            (R.writeValue s names value force).2.initialValues = s.initialValues) ∨
          R.written s (.writeValue names value force) =
              some (x, (R.fromString v (cString value)).2) ∧
            (R.writeValue s names value force).2.initialValues =
              emplace names value s.initialValues) := by
  cases hvar : R.getVar s names with
  | none => exact .inl ⟨by rw [writeValue, hvar], by simp [written, hvar]⟩
  | some r =>
    obtain ⟨x, v⟩ := r
    by_cases hempty : value = []
    · exact .inl ⟨by simp [writeValue, hvar, hempty], by simp [written, writeValue, hvar, hempty]⟩
    · refine .inr ⟨x, v, rfl, hempty, ?_⟩
      -- whether the text is read to its end, a port is found to force, the resource is idle
      by_cases hlength : (R.fromString v (cString value)).1 ≠ asInt value.length
      · have heq : R.writeValue s names value force =
            (.badParams, s.setAt x (R.fromString v (cString value)).2) := by
          simp only [writeValue, hvar, if_neg hempty, if_pos hlength]
        rw [written, heq]
        exact ⟨rfl, rfl, .inl ⟨by simp, rfl⟩⟩
      · by_cases hforce : force ∧ ¬R.setForced s.tree [] names
        · have heq : R.writeValue s names value force =
              (.noSuchObject, s.setAt x (R.fromString v (cString value)).2) := by
            simp only [writeValue, hvar, if_neg hempty, if_neg hlength]
            exact if_pos hforce
          rw [written, heq]
          exact ⟨rfl, rfl, .inl ⟨by simp, rfl⟩⟩
        · have heq : R.writeValue s names value force =
              (.ready, { s.setAt x (R.fromString v (cString value)).2 with
                forced := if force then names :: s.forced else s.forced
                initialValues :=
                  if s.getState = some .idle then emplace names value s.initialValues
                  else s.initialValues }) := by
            simp only [writeValue, hvar, if_neg hempty, if_neg hlength]
            exact if_neg hforce
          rw [written, heq]
          refine ⟨rfl, rfl, ?_⟩
          by_cases hidle : s.getState = some .idle
          · exact .inr ⟨by simp [hidle, hvar], if_pos hidle⟩
          · exact .inl ⟨by simp [hidle], if_neg hidle⟩

theorem Stands.unique {entry : List StringId × Text} {w w' : VariablePath × Datum}
    (h : R.Stands entry w) (h' : R.Stands entry w') : w = w' := by
  obtain ⟨hfind, v₀, hv₀, heq⟩ := h
  obtain ⟨hfind', v₀', hv₀', heq'⟩ := h'
  have hpath : w.1 = w'.1 := Option.some.inj (hfind.symm.trans hfind')
  rw [← hpath, hv₀] at hv₀'
  obtain rfl := Option.some.inj hv₀'
  exact Prod.ext hpath (heq.trans heq'.symm)

theorem Invariant.find_of_getVar {s : ResourceState} {log : List (VariablePath × Datum)}
    (h : R.Invariant s log) {names : List StringId} {x : VariablePath} {v : Datum}
    (hvar : R.getVar s names = some (x, v)) : R.find names = some x ∧ s.valueAt x = some v := by
  obtain ⟨y, hy, hyv⟩ := Option.bind_eq_some_iff.mp hvar
  obtain ⟨v', hv', heq⟩ := Option.map_eq_some_iff.mp hyv
  obtain ⟨rfl, rfl⟩ := Prod.mk.inj heq
  exact ⟨(h.blocks.locate_eq [] names).symm.trans hy, hv'⟩

/-- **The table takes over an entry** that overlaps no other one, unless there is one of the same
names. -/
theorem emplace_spec {l : List (List StringId × Text)} {names : List StringId} (value : Text)
    {x : VariablePath} (hfind : R.find names = some x) (hl : l.Pairwise R.table.Apart)
    (honly : ∀ entry ∈ l, ∀ y, R.find entry.1 = some y → x.Overlaps y → entry.1 = names) :
    (emplace names value l).Pairwise R.table.Apart ∧
      ((∃ entry ∈ l, entry.1 = names ∧ emplace names value l = l) ∨
        emplace names value l = (names, value) :: l) := by
  rw [emplace]
  split
  · rename_i hkey
    obtain ⟨entry, hentry, hnames⟩ := List.mem_map.mp hkey
    exact ⟨hl, .inl ⟨entry, hentry, hnames, rfl⟩⟩
  · rename_i hkey
    refine ⟨List.pairwise_cons.mpr ⟨fun entry hentry p p' hp hp' => ?_, hl⟩, .inr rfl⟩
    obtain rfl : x = p := Option.some.inj (hfind.symm.trans hp)
    have hnot : ¬x.Overlaps p' := fun hover =>
      hkey (List.mem_map.mpr ⟨entry, hentry, honly entry hentry p' hp' hover⟩)
    exact ⟨hnot, fun hover => hnot hover.symm⟩

/-- **A write** keeps the invariant, if it meets the condition. -/
theorem Invariant.writeValue {s : ResourceState} {log : List (VariablePath × Datum)}
    (h : R.Invariant s log) {names : List StringId} {value : Text} {force : Bool}
    (hmeets : R.Meets s (.writeValue names value force)) :
    R.Invariant (R.writeValue s names value force).2
      ((R.written s (.writeValue names value force)).toList ++ log) := by
  rcases writeValue_cases s names value force with
    ⟨hs, hnone⟩ | ⟨x, v, hvar, hempty, htree, hvalues, ⟨hnone, htable⟩ | ⟨hsome, htable⟩⟩
  · rw [hs, hnone]
    exact h
  · -- not recorded: a variable of the resource itself keeps its value
    rw [hnone]
    refine h.of_own htree ?_ htable
    have hcond := hmeets x v hvar hempty
    rw [hnone] at hcond
    rw [hvalues]
    by_cases hfb : x.fb = []
    · rw [hcond hfb, setIn_valueIn (h.find_of_getVar hvar).2]
    · exact setIn_of_ne hfb _
  · obtain ⟨hfind, hvalue⟩ := h.find_of_getVar hvar
    have hthere : (valueIn s.values x).isSome := Option.isSome_iff_exists.mpr ⟨v, hvalue⟩
    have hcond := hmeets x v hvar hempty
    rw [hsome] at hcond
    obtain ⟨⟨v₀, hv₀, hsame, honly⟩, hagain⟩ := hcond
    simp only [h.blocks.locate_eq] at honly
    obtain ⟨hapart, htableCases⟩ := emplace_spec value hfind h.apart
      fun entry hentry y hy hover => (honly entry hentry y hy hover).1
    generalize (R.fromString v (cString value)).2 = new at *
    -- an entry of the same names stands for the new value as well
    have hstands : ∀ entry ∈ s.initialValues, ∀ y, R.find entry.1 = some y → x.Overlaps y →
        R.Stands entry (x, new) := by
      intro entry hentry y hy hover
      obtain ⟨hnames, hvalue'⟩ := honly entry hentry y hy hover
      exact ⟨hnames ▸ hfind, v₀, hv₀, hvalue'.symm⟩
    have hold : ∀ entry ∈ s.initialValues, entry ∈ emplace names value s.initialValues := by
      intro entry hentry
      rcases htableCases with ⟨-, -, -, heq⟩ | heq
      · rw [heq]
        exact hentry
      · rw [heq]
        exact List.mem_cons_of_mem _ hentry
    rw [hsome]
    refine ⟨htree ▸ h.common, htree ▸ h.blocks, htable ▸ hapart, ?_, ?_, ?_, ?_⟩
    · rw [htable]
      rintro w (_ | ⟨_, hw⟩)
      · rcases htableCases with ⟨entry, hentry, hnames, heq⟩ | heq
        · exact ⟨entry, hold entry hentry,
            hstands entry hentry x (hnames ▸ hfind) x.overlaps_self⟩
        · exact ⟨_, heq ▸ List.mem_cons_self, hfind, v₀, hv₀, hsame.symm⟩
      · obtain ⟨entry, hentry, hw⟩ := h.logged w hw
        exact ⟨entry, hold entry hentry, hw⟩
    · rw [htable]
      have hrecorded : ∀ entry ∈ s.initialValues, ∃ w ∈ (some (x, new)).toList ++ log,
          R.Stands entry w ∧ (w.1.fb = [] → (R.fromString w.2 (cString entry.2)).2 = w.2) := by
        intro entry hentry
        obtain ⟨w, hw, hrest⟩ := h.recorded entry hentry
        exact ⟨w, List.mem_cons_of_mem _ hw, hrest⟩
      rcases htableCases with ⟨-, -, -, heq⟩ | heq
      · rw [heq]
        exact hrecorded
      · rw [heq]
        rintro entry (_ | ⟨_, hentry⟩)
        · exact ⟨_, List.mem_cons_self, ⟨hfind, v₀, hv₀, hsame.symm⟩, hagain⟩
        · exact hrecorded entry hentry
    · rintro w (_ | ⟨_, hw⟩) hfb
      · rw [ResourceState.valueAt, hvalues]
        exact valueIn_setIn hthere _
      · obtain ⟨entry, hentry, hw'⟩ := h.logged w hw
        by_cases hover : x.Overlaps w.1
        · -- the variable was written before, with the same value
          obtain rfl := (hstands entry hentry w.1 hw'.1 hover).unique hw'
          rw [ResourceState.valueAt, hvalues]
          exact valueIn_setIn hthere _
        · rw [ResourceState.valueAt, hvalues]
          exact (valueIn_setIn_of_not hover _).trans (h.ownWritten w hw hfb)
    · intro y hfb hy hlog
      rw [ResourceState.valueAt, hvalues]
      exact (valueIn_setIn_of_not (hlog _ List.mem_cons_self) _).trans
        (h.ownUntouched y hfb hy fun w hw => hlog w (List.mem_cons_of_mem _ hw))

/-! ### Resetting -/

theorem Invariant.root_isFB {s : ResourceState} {log : List (VariablePath × Datum)}
    (h : R.Invariant s log) : ∃ d cs, s.tree = .fb d cs := by
  obtain ⟨d, cs, hroot⟩ := R.root_isFB
  obtain ⟨d', cs', htree⟩ := h.blocks.blocks [] d cs (congrArg some hroot)
  exact ⟨d', cs', Option.some.inj htree⟩

/-- The entries of the table in the order they are gone through do not overlap. -/
theorem Invariant.apart_hashOrder {s : ResourceState} {log : List (VariablePath × Datum)}
    (h : R.Invariant s log) : (R.hashOrder s.initialValues).Pairwise R.table.Apart :=
  ((R.hashOrder_perm s.initialValues).pairwise_iff fun h => h.symm).mpr h.apart

/-- A variable that overlaps nothing that was written overlaps no entry of the table. -/
theorem Invariant.not_overlaps {s : ResourceState} {log : List (VariablePath × Datum)}
    (h : R.Invariant s log) {x : VariablePath} (hx : ∀ w ∈ log, ¬w.1.Overlaps x) :
    ∀ entry ∈ R.hashOrder s.initialValues, ∀ y, R.find entry.1 = some y → ¬y.Overlaps x := by
  intro entry hentry y hy
  obtain ⟨w, hw, hstands, -⟩ :=
    h.recorded entry ((R.hashOrder_perm s.initialValues).mem_iff.mp hentry)
  obtain rfl : w.1 = y := Option.some.inj (hstands.1.symm.trans hy)
  exact hx w hw

/-- **Setting the initial values once** leaves every variable of the resource itself as it
is, where it has the value a reset should leave in it. -/
theorem Invariant.replay_own {s : ResourceState} {log : List (VariablePath × Datum)}
    (h : R.Invariant s log) :
    (∀ w ∈ log, w.1.fb = [] →
      valueIn (R.table.replay (R.hashOrder s.initialValues) s.values) w.1 = some w.2) ∧
    ∀ x, x.fb = [] → (R.initial x.fb x.var).isSome → (∀ w ∈ log, ¬w.1.Overlaps x) →
      valueIn (R.table.replay (R.hashOrder s.initialValues) s.values) x = R.initialAt x := by
  refine ⟨fun w hw hfb => ?_, fun x hfb hx hlog => ?_⟩
  · obtain ⟨entry, hentry, hstands⟩ := h.logged w hw
    obtain ⟨w', -, hstands', hagain⟩ := h.recorded entry hentry
    obtain rfl := hstands.unique hstands'
    have hreplay := R.table.get_replay h.apart_hashOrder
      ((R.hashOrder_perm s.initialValues).mem_iff.mpr hentry) hstands.1 (h.ownWritten w hw hfb)
    exact hreplay.trans (congrArg some (hagain hfb))
  · have hreplay := R.table.get_replay_of_forall (h.not_overlaps hlog) s.values
    exact hreplay.trans (h.ownUntouched x hfb hx hlog)

/-- **Setting the initial values** behind a reset of the function blocks restores what was
written, and leaves the other variables at the initial values of their types. -/
theorem Invariant.replay_reset {s : ResourceState} {log : List (VariablePath × Datum)}
    (h : R.Invariant s log) {values : List StringId → StringId → Datum}
    (hown : ∀ w ∈ log, w.1.fb = [] → valueIn values w.1 = some w.2)
    (hother : ∀ x, (R.initial x.fb x.var).isSome → (x.fb ≠ [] ∨ ∀ w ∈ log, ¬w.1.Overlaps x) →
      valueIn values x = R.initialAt x) :
    (∀ w ∈ log, valueIn (R.table.replay (R.hashOrder s.initialValues) values) w.1 = some w.2) ∧
    ∀ x, (R.initial x.fb x.var).isSome → (∀ w ∈ log, ¬w.1.Overlaps x) →
      valueIn (R.table.replay (R.hashOrder s.initialValues) values) x = R.initialAt x := by
  refine ⟨fun w hw => ?_, fun x hx hlog => ?_⟩
  · obtain ⟨entry, hentry, hstands⟩ := h.logged w hw
    obtain ⟨w', -, hstands', hagain⟩ := h.recorded entry hentry
    obtain rfl := hstands.unique hstands'
    have hmem := (R.hashOrder_perm s.initialValues).mem_iff.mpr hentry
    by_cases hfb : w.1.fb = []
    · have hreplay := R.table.get_replay h.apart_hashOrder hmem hstands.1 (hown w hw hfb)
      exact hreplay.trans (congrArg some (hagain hfb))
    · obtain ⟨hfind, v₀, hv₀, heq⟩ := hstands
      have hinitial : (R.initial w.1.fb w.1.var).isSome := by
        obtain ⟨v, hv, -⟩ := Option.bind_eq_some_iff.mp hv₀
        exact Option.isSome_iff_exists.mpr ⟨v, hv⟩
      have hreplay := R.table.get_replay h.apart_hashOrder hmem hfind
        ((hother w.1 hinitial (.inl hfb)).trans hv₀)
      exact hreplay.trans (congrArg some heq.symm)
  · have hreplay := R.table.get_replay_of_forall (h.not_overlaps hlog) values
    exact hreplay.trans (hother x hx (.inr hlog))

/-- The values that a reset restores, and with them the invariant. -/
theorem Invariant.of_values {s : ResourceState} {log : List (VariablePath × Datum)}
    (h : R.Invariant s log) {s' : ResourceState} (hcommon : ∃ st, s'.tree.AllIn st)
    (hblocks : R.SameBlocks s'.tree) (htable : s'.initialValues = s.initialValues)
    (hwritten : ∀ w ∈ log, s'.valueAt w.1 = some w.2)
    (huntouched : ∀ x, (R.initial x.fb x.var).isSome → (∀ w ∈ log, ¬w.1.Overlaps x) →
      s'.valueAt x = R.initialAt x) : R.Invariant s' log ∧ R.Restored s' log := by
  constructor
  · exact
      { common := hcommon
        blocks := hblocks
        apart := htable ▸ h.apart
        logged := htable ▸ h.logged
        recorded := htable ▸ h.recorded
        ownWritten := fun w hw _ => hwritten w hw
        ownUntouched := fun x _ hx hlog => huntouched x hx hlog }
  · refine ⟨fun x w hw => ?_, huntouched⟩
    have hpath : w.1 = x := by simpa using List.find?_some hw
    exact hpath ▸ hwritten w (List.mem_of_find?_eq_some hw)

variable (R) in
/-- The values between the two times that a reset sets the initial values. -/
def valuesBetween (before after : Node) (values : List StringId → StringId → Datum) :
    List StringId → StringId → Datum := fun p =>
  if p = [] then values p
  else fun name =>
    if before.stateAt p ≠ some .idle ∧ after.stateAt p = some .idle then
      (R.initial p name).getD (values p name)
    else values p name

/-- A reset, where it is possible. -/
theorem Invariant.changeExecutionState_reset {s : ResourceState}
    {log : List (VariablePath × Datum)} (h : R.Invariant s log) {st : FBState}
    (hall : s.tree.AllIn st) (hst : st.change .reset = some .idle) :
    R.changeExecutionState s .reset =
      (.ready, { s with
        tree := s.tree.carriedOut .reset .idle
        values := R.table.replay (R.hashOrder s.initialValues)
          (R.valuesBetween s.tree (s.tree.carriedOut .reset .idle)
            (R.table.replay (R.hashOrder s.initialValues) s.values)) }) := by
  obtain ⟨d, cs, htree⟩ := h.root_isFB
  have hbefore : s.getState = some st := hall.stateAt_eq (congrArg some htree)
  have hafter : (s.tree.carriedOut .reset .idle).stateAt [] = some .idle := by
    rw [htree]
    rfl
  have hne : s.getState ≠ (s.tree.carriedOut .reset .idle).stateAt [] := by
    rw [hbefore, hafter]
    rintro h
    obtain rfl := Option.some.inj h
    exact absurd hst (by decide)
  have hblocks := h.blocks.carriedOut .reset .idle
  simp only [changeExecutionState, Node.changeExecutionState_eq hst hall, if_true, if_pos hne]
  rw [setInitialValues_eq h.blocks, setInitialValues_eq (by exact hblocks)]
  rfl

/-- **A reset restores** what it should, if the resource is stopped or killed. -/
theorem Invariant.reset {s : ResourceState} {log : List (VariablePath × Datum)}
    (h : R.Invariant s log) {st : FBState} (hall : s.tree.AllIn st)
    (hst : st.change .reset = some .idle) :
    (R.changeExecutionState s .reset).1 = .ready ∧
      R.Invariant (R.changeExecutionState s .reset).2 log ∧
      R.Restored (R.changeExecutionState s .reset).2 log := by
  rw [h.changeExecutionState_reset hall hst]
  refine ⟨rfl, ?_⟩
  obtain ⟨hownWritten, hownUntouched⟩ := h.replay_own
  -- what is there between the two times
  have hblock : ∀ p name, p ≠ [] → (R.initial p name).isSome → ∀ values,
      R.valuesBetween s.tree (s.tree.carriedOut .reset .idle) values p name =
        (R.initial p name).getD (values p name) := by
    intro p name hp hinitial values
    obtain ⟨d, cs, hfb⟩ := R.initial_isFB p name hinitial
    obtain ⟨d', cs', hresolve⟩ := h.blocks.blocks p d cs hfb
    have hbefore : s.tree.stateAt p = some st := hall.stateAt_eq hresolve
    have hthere : (s.tree.carriedOut .reset .idle).resolve p =
        some ((Node.fb d' cs').carriedOut .reset .idle) := by
      rw [Node.resolve_carriedOut, hresolve]
      rfl
    have hafter : (s.tree.carriedOut .reset .idle).stateAt p = some .idle :=
      (Node.allIn_carriedOut s.tree).stateAt_eq hthere
    rw [valuesBetween, if_neg hp, hbefore, hafter]
    refine if_pos ⟨?_, rfl⟩
    rintro h
    obtain rfl := Option.some.inj h
    exact absurd hst (by decide)
  have hown : ∀ w ∈ log, w.1.fb = [] →
      valueIn (R.valuesBetween s.tree (s.tree.carriedOut .reset .idle)
        (R.table.replay (R.hashOrder s.initialValues) s.values)) w.1 = some w.2 := by
    intro w hw hfb
    rw [valueIn, valuesBetween, if_pos hfb]
    exact hownWritten w hw hfb
  have hother : ∀ x : VariablePath, (R.initial x.fb x.var).isSome →
      (x.fb ≠ [] ∨ ∀ w ∈ log, ¬w.1.Overlaps x) →
      valueIn (R.valuesBetween s.tree (s.tree.carriedOut .reset .idle)
        (R.table.replay (R.hashOrder s.initialValues) s.values)) x = R.initialAt x := by
    intro x hx hcase
    by_cases hfb : x.fb = []
    · rw [valueIn, valuesBetween, if_pos hfb]
      exact hownUntouched x hfb hx (hcase.resolve_left fun hne => hne hfb)
    · obtain ⟨v, hv⟩ := Option.isSome_iff_exists.mp hx
      rw [valueIn, hblock x.fb x.var hfb hx, initialAt, hv]
      rfl
  obtain ⟨hwritten, huntouched⟩ := h.replay_reset hown hother
  exact h.of_values ⟨.idle, Node.allIn_carriedOut s.tree⟩ (h.blocks.carriedOut .reset .idle) rfl
    hwritten huntouched

/-- A command that is refused changes nothing. -/
theorem Invariant.changeExecutionState_refused {s : ResourceState}
    {log : List (VariablePath × Datum)} (h : R.Invariant s log) {cmd : ExecutionCmd} {st : FBState}
    (hall : s.tree.AllIn st) (hst : st.change cmd = none) :
    R.changeExecutionState s cmd = (.invalidState, s) := by
  have hnode : s.tree.changeExecutionState cmd = (.invalidState, s.tree) := by
    obtain ⟨d, cs, htree⟩ := h.root_isFB
    rw [htree] at hall ⊢
    rw [Node.changeExecutionState, (Node.allIn_fb_iff.mp hall).1, hst]
  by_cases hcmd : cmd = .reset
  · -- no function block has been led back
    have hblocks : ∀ values : List StringId → StringId → Datum,
        (R.resetBlocks s.tree { s with values }).values = values := by
      intro values
      funext p name
      exact if_neg fun hp => hp.1 hp.2
    have hearly : ¬s.getState ≠ s.tree.stateAt [] := fun hne => hne rfl
    simp only [changeExecutionState, hnode, if_pos hcmd, if_neg hearly, reduceCtorEq, if_false]
    congr 2
    funext p
    split
    · rfl
    · exact congrFun (hblocks s.values) p
  · simp only [changeExecutionState, hnode, if_neg hcmd]

/-! ### Runs -/

/-- **Every step** keeps the invariant, if it meets the condition. -/
theorem Invariant.step {s : ResourceState} {log : List (VariablePath × Datum)}
    (h : R.Invariant s log) {e : Event} (hmeets : R.Meets s e) :
    R.Invariant (R.step s e) ((R.written s e).toList ++ log) := by
  cases e with
  | writeValue names value force => exact h.writeValue hmeets
  | execute values =>
    change R.Invariant (if s.getState = some .running then { s with values } else s) log
    split
    · rename_i hrunning
      exact h.of_own rfl (hmeets hrunning) rfl
    · exact h
  | command cmd =>
    change R.Invariant (R.changeExecutionState s cmd).2 log
    obtain ⟨st, hall⟩ := h.common
    cases hst : st.change cmd with
    | some st' =>
      by_cases hcmd : cmd = .reset
      · subst hcmd
        have hidle : st' = .idle := by cases st <;> simp_all [FBState.change]
        exact (h.reset hall (hidle ▸ hst)).2.1
      · have heq : R.changeExecutionState s cmd =
            (.ready, { s with tree := s.tree.carriedOut cmd st' }) := by
          rw [changeExecutionState, Node.changeExecutionState_eq hst hall]
          exact if_neg hcmd
        rw [heq]
        exact { h with
          common := ⟨st', Node.allIn_carriedOut s.tree⟩
          blocks := h.blocks.carriedOut cmd st' }
    | none =>
      -- the command is refused, and everything stays as it is
      rw [h.changeExecutionState_refused hall hst]
      exact h

/-- **The whole run** keeps the invariant, if every step meets the condition. -/
theorem Invariant.runFrom {s : ResourceState} {log : List (VariablePath × Datum)}
    (h : R.Invariant s log) {es : List Event} (hmeets : R.MeetsAll s es) :
    R.Invariant (R.runFrom s log es).1 (R.runFrom s log es).2 := by
  induction es generalizing s log with
  | nil => exact h
  | cons e es ih => exact ih (h.step hmeets.1) hmeets.2

variable (R)

/-- **Initial values survive a restart**: after any run that meets the condition, a reset of the
stopped or killed resource gives every variable that was written in the idle state the value it
was last given there, and every other one its initial value. -/
theorem reset_restores {es : List Event} (hmeets : R.MeetsAll R.fresh es)
    (hstate : (R.run es).1.getState = some .stopped ∨ (R.run es).1.getState = some .killed) :
    (R.changeExecutionState (R.run es).1 .reset).1 = .ready ∧
      R.Restored (R.changeExecutionState (R.run es).1 .reset).2 (R.run es).2 := by
  have h : R.Invariant (R.run es).1 (R.run es).2 := R.invariant_fresh.runFrom hmeets
  obtain ⟨st, hall⟩ := h.common
  obtain ⟨d, cs, htree⟩ := h.root_isFB
  have hst : (R.run es).1.getState = some st := hall.stateAt_eq (congrArg some htree)
  have hreset : st.change .reset = some .idle := by
    rw [hst] at hstate
    rcases hstate with heq | heq <;> rw [Option.some.inj heq] <;> rfl
  obtain ⟨hready, -, hrestored⟩ := h.reset hall hreset
  exact ⟨hready, hrestored⟩

/-! ### A resource with one variable -/

/-- The variable `X` of the function block `A`. -/
def pathX : VariablePath := ⟨["A"], "X", []⟩

/-- A resource with one function block, which has an `INT`. -/
def oneVariable : Resource where
  tree := .fb ⟨"RES", .idle, some false, [], []⟩ [.fb ⟨"A", .idle, none, [], []⟩ []]
  initial := fun p name => if p = ["A"] ∧ name = "X" then some (.number .int 0) else none
  isPort := fun p name => p = ["A"] ∧ name = "X"
  fromString := fun v t =>
    match v with
    | .number type data => ((type.fromString data t).1, .number type (type.fromString data t).2)
    | _ => (-1, v)
  hashOrder := id
  root_isFB := ⟨_, _, rfl⟩
  idle := by
    rintro s (_ | ⟨_, _ | ⟨_, h⟩⟩)
    · rfl
    · rfl
    · exact absurd h List.not_mem_nil
  initial_isFB := by
    intro p name h
    split at h
    · rename_i heq
      rw [heq.1]
      exact ⟨_, _, rfl⟩
    · exact absurd h (by decide)
  hashOrder_perm := List.Perm.refl

/-- A run in which the variable is written once, and changed in execution. -/
def writtenOnce : List Event :=
  [.writeValue ["A", "X"] (text "5") false, .command .start,
    .execute fun p _ => if p = [] then .number .bool 0 else .number .int 9, .command .stop]

theorem writtenOnce_restored :
    (oneVariable.run writtenOnce).2 = [(pathX, .number .int 5)] ∧
      oneVariable.Restored
        (oneVariable.changeExecutionState (oneVariable.run writtenOnce).1 .reset).2
        (oneVariable.run writtenOnce).2 := by
  refine ⟨rfl, (reset_restores oneVariable ?_ (.inl rfl)).2⟩
  refine ⟨?_, trivial, fun _ => rfl, trivial, trivial⟩
  intro x v hvar hvalue
  obtain ⟨rfl, rfl⟩ : x = pathX ∧ v = .number .int 0 :=
    Prod.mk.inj (Option.some.inj (hvar.symm.trans rfl))
  exact ⟨⟨_, rfl, rfl, nofun⟩, nofun⟩

/-- **The first value comes back**: written with 5 and then with 7, the variable has the value 5
after a restart. -/
theorem firstWrite_comes_back :
    let s := (oneVariable.run [.writeValue ["A", "X"] (text "5") false,
      .writeValue ["A", "X"] (text "7") false, .command .start, .command .stop])
    s.1.valueAt pathX = some (.number .int 7) ∧
      (oneVariable.changeExecutionState s.1 .reset).1 = .ready ∧
      (oneVariable.changeExecutionState s.1 .reset).2.valueAt pathX = some (.number .int 5) ∧
      ¬oneVariable.Restored (oneVariable.changeExecutionState s.1 .reset).2 s.2 := by
  intro s
  have hfive : (oneVariable.changeExecutionState s.1 .reset).2.valueAt pathX =
      some (.number .int 5) := rfl
  refine ⟨rfl, rfl, hfive, fun h => ?_⟩
  have hseven := h.written pathX (pathX, .number .int 7) rfl
  have heq := Option.some.inj (hfive.symm.trans hseven)
  exact absurd (Datum.number.inj heq).2 (by decide)

end Resource

end Forte
