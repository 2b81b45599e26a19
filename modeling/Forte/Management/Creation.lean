import Forte.Lib.SortedTable
import Forte.Management.Container

/-!
# Creating function blocks

A function block is created by a list of names: all but the last one lead through containers to
the one that gets it, and a container on the way that does not exist is made. Only behind that is
the type of the function block looked for in the type library, and the new function block
initialized.

Thus the containers that were made stay where the function block cannot be created
(`Forte.Firmware.createFB_leaves_container`), although they cannot be deleted and keep a function
block from getting their name. In all other cases a refused command leaves the tree as it was, and
one that is not refused adds what it should (`Forte.Firmware.createFB_atomic_iff`).

The ids of names are compared by the addresses of their interned texts.
-/

namespace Forte

/-- A `CFBTypeEntry` of the type library, with the virtual functions of its function blocks that
run while one is created. -/
structure CFBTypeEntry where
  mTypeNameId : StringId
  mTypeHash : String
  /-- `createFBInstance`, by the name of the instance. -/
  createFBInstance : StringId → Option Node
  /-- `configureFB`, by the name of the type. -/
  configureFB : StringId → Node → Option Node
  /-- `initialize`, of a function block of the type. -/
  initialized : Node → Option Node

/-- What the creation of function blocks reads of the program: the table of the interned names,
the type library, and which function blocks are resources. -/
structure Firmware where
  /-- The address of an interned text; there is none for a text that is not interned. -/
  address : StringId → ℕ
  address_inj : ∀ {a b}, address a = address b → address a ≠ 0 → a = b
  /-- `getFBTypeLib`. -/
  fbTypeLib : List CFBTypeEntry
  /-- Whether a function block is a `CResource`. -/
  isResource : FunctionBlock → Bool

namespace Firmware

/-! ### The type library -/

/-- `getFirstNonTypeNameUnderscorePos`: the first underscore with a digit behind it. -/
def getFirstNonTypeNameUnderscorePos (paTypeName : List Char) : Option ℕ :=
  (List.range paTypeName.length).find? fun i =>
    0 < i && paTypeName[i]? = some '_' && paTypeName[i + 1]?.any Char.isDigit

/-- `rfind` of the separator of packages. -/
def lastPackageSeparator (paTypeName : List Char) (pos : ℕ) : Option ℕ :=
  (List.range (pos + 1)).reverse.find? fun i =>
    paTypeName[i]? = some ':' && paTypeName[i + 1]? = some ':'

/-- The `genFBName` of `findGenericTypeEntry`. -/
def genFBName (paTypeNameId : StringId) : StringId :=
  let name := paTypeNameId.toList
  let underScore := (getFirstNonTypeNameUnderscorePos name).getD name.length
  match lastPackageSeparator name underScore with
  | some pos =>
    String.ofList (name.take (pos + 2) ++ "GEN_".toList ++ (name.take underScore).drop (pos + 2))
  | none => String.ofList ("GEN_".toList ++ name.take underScore)

variable (f : Firmware)

/-- `findTypeEntry`. -/
def findTypeEntry (paTypeNameId : StringId) : Option CFBTypeEntry :=
  Table.find? (fun entry => f.address entry.mTypeNameId) (f.address paTypeNameId) f.fbTypeLib

/-- `createGenericFB`, with the entry the function block is from. -/
def createGenericFB (paInstanceNameId paFBTypeId : StringId) :
    Except EMGMResponse (CFBTypeEntry × Node) :=
  match f.findTypeEntry (genFBName paFBTypeId) with
  | none => .error .unsupportedType
  | some typeEntry =>
    match typeEntry.createFBInstance paInstanceNameId with
    | none => .error .overflow
    | some newFB =>
      match typeEntry.configureFB paFBTypeId newFB with
      | none => .error .overflow
      | some newFB => .ok (typeEntry, newFB)

/-- The function block before it is initialized. -/
def createUninitialized (paInstanceNameId paFBTypeId : StringId) (paTypeHash : String) :
    Except EMGMResponse (CFBTypeEntry × Node) :=
  match f.findTypeEntry paFBTypeId with
  | some typeEntry =>
    if paTypeHash ≠ "" && paTypeHash ≠ typeEntry.mTypeHash then .error .unsupportedType
    else
      match typeEntry.createFBInstance paInstanceNameId with
      | none => .error .overflow
      | some newFB => .ok (typeEntry, newFB)
  | none => f.createGenericFB paInstanceNameId paFBTypeId

/-- `forte::createFB`. -/
def createInstance (paInstanceNameId paFBTypeId : StringId) (paTypeHash : String) :
    Except EMGMResponse Node :=
  match f.createUninitialized paInstanceNameId paFBTypeId paTypeHash with
  | .error errorMSG => .error errorMSG
  | .ok (typeEntry, newFB) =>
    match typeEntry.initialized newFB with
    | none => .error .overflow
    | some newFB => .ok newFB

/-! ### The containers -/

/-- `isDynamicContainer`. -/
def isDynamicContainer : Node → Bool
  | .container _ _ => true
  | .fb d _ => f.isResource d

/-- The address of the name of a child. -/
def addressOf (c : Node) : ℕ := f.address c.getInstanceNameId

/-- `getChildrenIterator`: the children before the iterator, and the ones from it on. -/
def getChildrenIterator (n : Node) (paName : StringId) : List Node × List Node :=
  if f.address paName ≠ 0 && !n.getChildren.isEmpty then
    (Table.below f.addressOf (f.address paName) n.getChildren,
      Table.onward f.addressOf (f.address paName) n.getChildren)
  else (n.getChildren, [])

/-- `isChild`, with the child. -/
def isChild (childIt : List Node) (paName : StringId) : Option Node :=
  childIt.head?.filter fun c => f.addressOf c = f.address paName

/-- `createFB` in the container itself. -/
def createFBHere (n : Node) (paInstanceNameId paTypeName : StringId) (paTypeHash : String) :
    EMGMResponse × Node :=
  if !f.isDynamicContainer n then (.invalidDst, n)
  else
    let (before, childIt) := f.getChildrenIterator n paInstanceNameId
    match f.isChild childIt paInstanceNameId with
    | some _ => (.invalidState, n)
    | none =>
      match f.createInstance paInstanceNameId paTypeName paTypeHash with
      | .error errorMSG => (errorMSG, n)
      | .ok newFB => (.ready, n.withChildren (before ++ newFB :: childIt))

/-- `findOrCreateContainer`: the child, with the children before and behind it. -/
def findOrCreateContainer (n : Node) (paContainerName : StringId) :
    List Node × Node × List Node :=
  if n.getChildren.isEmpty then ([], .container paContainerName [], [])
  else
    let (before, childIt) := f.getChildrenIterator n paContainerName
    match f.isChild childIt paContainerName with
    | some child => (before, child, childIt.tail)
    | none => (before, .container paContainerName [], childIt)

/-- `createFB`. -/
def createFB (paTypeName : StringId) (paTypeHash : String) :
    List StringId → Node → EMGMResponse × Node
  | [], n => (.invalidDst, n)
  | [name], n => f.createFBHere n name paTypeName paTypeHash
  | name :: names, n =>
    if f.isDynamicContainer n then
      let (before, childCont, behind) := f.findOrCreateContainer n name
      if f.isDynamicContainer childCont then
        let (response, childCont) := createFB paTypeName paTypeHash names childCont
        (response, n.withChildren (before ++ childCont :: behind))
      else (.invalidDst, n.withChildren (before ++ childCont :: behind))
    else (.invalidDst, n)

/-! ### What a tree consists of -/

end Firmware

namespace Node

/-- The function block that a node is. -/
def functionBlock : Node → Option FunctionBlock
  | .container _ _ => none
  | .fb d _ => some d

mutual

/-- The nodes of a tree from the root on, each with the names that lead to it and with what it is;
`path` leads to the tree. -/
def rows (path : List StringId) : Node → List (List StringId × Option FunctionBlock)
  | .container name cs => (path ++ [name], none) :: childRows (path ++ [name]) cs
  | .fb d cs => (path ++ [d.name], some d) :: childRows (path ++ [d.name]) cs

/-- The nodes of a list of trees. -/
def childRows (path : List StringId) : List Node → List (List StringId × Option FunctionBlock)
  | [] => []
  | c :: cs => rows path c ++ childRows path cs

end

@[simp]
theorem childRows_append (path : List StringId) (before behind : List Node) :
    childRows path (before ++ behind) = childRows path before ++ childRows path behind := by
  induction before with
  | nil => rfl
  | cons c cs ih => rw [List.cons_append, childRows, childRows, ih, List.append_assoc]

theorem rows_eq (path : List StringId) (n : Node) :
    rows path n = (path ++ [n.getInstanceNameId], n.functionBlock) ::
      childRows (path ++ [n.getInstanceNameId]) n.getChildren := by
  cases n <;> rfl

@[simp]
theorem withChildren_getChildren (n : Node) : n.withChildren n.getChildren = n := by
  cases n <;> rfl

@[simp]
theorem getChildren_withChildren (n : Node) (cs : List Node) :
    (n.withChildren cs).getChildren = cs := by
  cases n <;> rfl

theorem rows_withChildren (path : List StringId) (n : Node) (cs : List Node) :
    rows path (n.withChildren cs) = (path ++ [n.getInstanceNameId], n.functionBlock) ::
      childRows (path ++ [n.getInstanceNameId]) cs := by
  cases n <;> rfl

/-- A node in new containers of the names. -/
def within : List StringId → Node → Node
  | [], n => n
  | name :: names, n => .container name [within names n]

/-- **The tree has grown by exactly one node and the new containers around it**: behind the
names `existing`, which lead to a node of the tree, there is the new node in the containers
`made`, and nothing else is new, has gone or has moved. -/
def GrownAt (path existing made : List StringId) (new n n' : Node) : Prop :=
  ∃ front back, rows path n = front ++ back ∧
    rows path n' =
      front ++ rows (path ++ n.getInstanceNameId :: existing) (within made new) ++ back

/-- A new child. -/
theorem grownAt_here (path made : List StringId) (new : Node) {n : Node} {before behind : List Node}
    (h : n.getChildren = before ++ behind) :
    GrownAt path [] made new n (n.withChildren (before ++ within made new :: behind)) := by
  refine ⟨(path ++ [n.getInstanceNameId], n.functionBlock) ::
    childRows (path ++ [n.getInstanceNameId]) before,
    childRows (path ++ [n.getInstanceNameId]) behind, ?_, ?_⟩
  · rw [rows_eq, h, childRows_append, List.cons_append]
  · rw [rows_withChildren, childRows_append, childRows, List.cons_append, List.cons_append,
      List.append_assoc]

/-- A node grows by what one of its children grows by. -/
theorem grownAt_child {path existing made : List StringId} {new n c c' : Node}
    {before behind : List Node} (h : n.getChildren = before ++ c :: behind)
    (hgrown : GrownAt (path ++ [n.getInstanceNameId]) existing made new c c') :
    GrownAt path (c.getInstanceNameId :: existing) made new n
      (n.withChildren (before ++ c' :: behind)) := by
  obtain ⟨front, back, hrows, hrows'⟩ := hgrown
  refine ⟨(path ++ [n.getInstanceNameId], n.functionBlock) ::
    childRows (path ++ [n.getInstanceNameId]) before ++ front,
    back ++ childRows (path ++ [n.getInstanceNameId]) behind, ?_, ?_⟩
  · rw [rows_eq, h, childRows_append, childRows, hrows]
    simp only [List.cons_append, List.append_assoc]
  · rw [rows_withChildren, childRows_append, childRows, hrows']
    simp only [List.cons_append, List.append_assoc, List.nil_append]

end Node

namespace Firmware

variable (f : Firmware)

/-! ### What creating a function block does -/

/-- `getChild`. -/
def getChild (n : Node) (paName : StringId) : Option Node :=
  f.isChild (f.getChildrenIterator n paName).2 paName

/-- Whether a container has to be made for all but the last of the names. -/
def NeedsContainer : List StringId → Node → Prop
  | name :: next :: names, n =>
    f.isDynamicContainer n = true ∧
      match f.getChild n name with
      | none => True
      | some child => NeedsContainer (next :: names) child
  | _, _ => False

/-- **What is asked of the creation of a function block**: if it is refused the tree is as it was,
and if it is not, the tree has grown by exactly the new function block and the containers on the
way to it. -/
def Atomic (paTypeName : StringId) (paTypeHash : String) (names : List StringId) (n : Node) :
    Prop :=
  let (response, n') := f.createFB paTypeName paTypeHash names n
  (response ≠ .ready → n' = n) ∧
    (response = .ready → ∃ existing made name newFB, names = existing ++ made ++ [name] ∧
      f.createInstance name paTypeName paTypeHash = .ok newFB ∧
      Node.GrownAt [] existing made newFB n n')

variable {f}

/-- What the type library says when it has no function block is not that all is well. -/
theorem createInstance_ne_ready {name paTypeName : StringId} {paTypeHash : String}
    {errorMSG : EMGMResponse} (h : f.createInstance name paTypeName paTypeHash = .error errorMSG) :
    errorMSG ≠ .ready := by
  rw [createInstance] at h
  rintro rfl
  cases hmade : f.createUninitialized name paTypeName paTypeHash with
  | ok made =>
    rw [hmade] at h
    dsimp only at h
    split at h <;> cases h
  | error errorMSG =>
    rw [hmade] at h
    cases h
    rw [createUninitialized] at hmade
    split at hmade
    · split at hmade
      · cases hmade
      · split at hmade <;> cases hmade
    · rw [createGenericFB] at hmade
      split at hmade
      · cases hmade
      · split at hmade
        · cases hmade
        · split at hmade <;> cases hmade

theorem getChildrenIterator_append (n : Node) (name : StringId) :
    (f.getChildrenIterator n name).1 ++ (f.getChildrenIterator n name).2 = n.getChildren := by
  rw [getChildrenIterator]
  split
  · exact Table.below_append_onward _ _ _
  · exact List.append_nil _

/-- The child that is found is at the iterator, and has the name. -/
theorem getChild_eq_some {n c : Node} {name : StringId} (h : f.getChild n name = some c) :
    c.getInstanceNameId = name ∧
      (f.getChildrenIterator n name).2 = c :: (f.getChildrenIterator n name).2.tail := by
  obtain ⟨hhead, haddress⟩ := Option.filter_eq_some_iff.mp h
  have hcons := List.eq_cons_of_mem_head? hhead
  refine ⟨f.address_inj (of_decide_eq_true haddress) fun hnull => ?_, hcons⟩
  -- behind the iterator for an invalid name there is nothing
  have hname : f.address name = 0 := (of_decide_eq_true haddress).symm.trans hnull
  rw [getChildrenIterator, hname] at hcons
  exact absurd hcons (by simp)

theorem findOrCreateContainer_of_some {n c : Node} {name : StringId}
    (h : f.getChild n name = some c) :
    ∃ before behind, f.findOrCreateContainer n name = (before, c, behind) ∧
      n.getChildren = before ++ c :: behind := by
  obtain ⟨-, hcons⟩ := getChild_eq_some h
  have happend := f.getChildrenIterator_append n name
  rw [hcons] at happend
  refine ⟨_, _, ?_, happend.symm⟩
  have hne : n.getChildren.isEmpty = false := by
    rw [← happend, List.isEmpty_eq_false_iff]
    exact List.append_ne_nil_of_right_ne_nil _ (List.cons_ne_nil _ _)
  rw [getChild] at h
  rw [findOrCreateContainer, if_neg (by rw [hne]; exact Bool.false_ne_true)]
  dsimp only
  rw [h]

theorem findOrCreateContainer_of_none {n : Node} {name : StringId}
    (h : f.getChild n name = none) :
    f.findOrCreateContainer n name =
      ((f.getChildrenIterator n name).1, .container name [], (f.getChildrenIterator n name).2) := by
  rw [findOrCreateContainer]
  split
  · rename_i hempty
    have happend := f.getChildrenIterator_append n name
    rw [List.isEmpty_iff.mp hempty, List.append_eq_nil_iff] at happend
    rw [happend.1, happend.2]
  · rw [getChild] at h
    dsimp only
    rw [h]

section

variable {paTypeName : StringId} {paTypeHash : String}

theorem createFB_cons_cons (name next : StringId) (names : List StringId) (n : Node) :
    f.createFB paTypeName paTypeHash (name :: next :: names) n =
      if f.isDynamicContainer n then
        let (before, childCont, behind) := f.findOrCreateContainer n name
        if f.isDynamicContainer childCont then
          let (response, childCont) := f.createFB paTypeName paTypeHash (next :: names) childCont
          (response, n.withChildren (before ++ childCont :: behind))
        else (.invalidDst, n.withChildren (before ++ childCont :: behind))
      else (.invalidDst, n) :=
  rfl

/-- One name of the way through new containers. -/
theorem createFB_container (name next container : StringId) (names : List StringId) :
    f.createFB paTypeName paTypeHash (name :: next :: names) (.container container []) =
      let (response, childCont) :=
        f.createFB paTypeName paTypeHash (next :: names) (.container name [])
      (response, .container container [childCont]) :=
  rfl

/-- In new containers nothing but the type can be wrong. -/
theorem createFB_within {made : List StringId} {name container : StringId} {newFB : Node}
    (h : f.createInstance name paTypeName paTypeHash = .ok newFB) :
    f.createFB paTypeName paTypeHash (made ++ [name]) (.container container []) =
      (.ready, .container container [Node.within made newFB]) := by
  induction made generalizing container with
  | nil =>
    rw [List.nil_append, createFB, createFBHere, getChildrenIterator]
    simp only [isDynamicContainer, Node.getChildren, List.isEmpty_nil, Bool.not_true,
      Bool.and_false, Bool.false_eq_true, if_false, isChild, List.head?_nil, Option.filter_none, h]
    rfl
  | cons m made ih =>
    obtain ⟨next, rest, hcons⟩ := List.exists_cons_of_ne_nil
      (List.append_ne_nil_of_right_ne_nil made (List.cons_ne_nil name []))
    rw [List.cons_append]
    rw [hcons] at ih ⊢
    rw [createFB_container, ih]
    rfl

/-- A type that cannot be created is refused in new containers. -/
theorem createFB_container_refused {names : List StringId} {container : StringId}
    (h : ∀ name, names.getLast? = some name → ∀ newFB,
      f.createInstance name paTypeName paTypeHash ≠ .ok newFB) :
    (f.createFB paTypeName paTypeHash names (.container container [])).1 ≠ .ready := by
  induction names generalizing container with
  | nil => exact nofun
  | cons name names ih =>
    cases names with
    | nil =>
      rw [createFB, createFBHere, getChildrenIterator]
      simp only [isDynamicContainer, Node.getChildren, List.isEmpty_nil, Bool.not_true,
        Bool.and_false, Bool.false_eq_true, if_false, isChild, List.head?_nil,
        Option.filter_none]
      cases hmade : f.createInstance name paTypeName paTypeHash with
      | ok newFB => exact absurd hmade (h name rfl newFB)
      | error errorMSG => exact createInstance_ne_ready hmade
    | cons next names =>
      rw [createFB_container]
      exact ih h

variable (f paTypeName paTypeHash)

/-- The ways in which the creation of a function block ends. -/
inductive Ends (names : List StringId) (n : Node) : EMGMResponse × Node → Prop
  /-- It is refused, and no container has been made. -/
  | refused {response : EMGMResponse} (hready : response ≠ .ready)
      (hneeds : ¬f.NeedsContainer names n) : Ends names n (response, n)
  /-- It is refused behind a container that has been made. -/
  | left {response : EMGMResponse} {n' : Node} (hready : response ≠ .ready) (hne : n' ≠ n)
      (hneeds : f.NeedsContainer names n)
      (hrefused : ∀ name, names.getLast? = some name → ∀ newFB,
        f.createInstance name paTypeName paTypeHash ≠ .ok newFB) : Ends names n (response, n')
  /-- The function block is in the tree. -/
  | created {existing made : List StringId} {name : StringId} {newFB n' : Node}
      (hnames : names = existing ++ made ++ [name])
      (hnew : f.createInstance name paTypeName paTypeHash = .ok newFB)
      (hgrown : ∀ path, Node.GrownAt path existing made newFB n n') : Ends names n (.ready, n')

variable {f paTypeName paTypeHash}

theorem createFBHere_ends (n : Node) (name : StringId) :
    Ends f paTypeName paTypeHash [name] n (f.createFBHere n name paTypeName paTypeHash) := by
  rw [createFBHere]
  split
  · exact .refused nofun id
  · dsimp only
    split
    · exact .refused nofun id
    · split
      · rename_i hmade
        exact .refused (createInstance_ne_ready hmade) id
      · rename_i hmade
        refine @Ends.created f _ _ _ _ [] [] name _ _ rfl hmade fun path => ?_
        exact Node.grownAt_here path [] _ (f.getChildrenIterator_append n name).symm

/-- **One name of the way**: what is said of the rest of the names in the child is said of all of
them in the container. -/
theorem Ends.child {name next : StringId} {names : List StringId} {n c : Node}
    {before behind : List Node} {r : EMGMResponse × Node} (hdynamic : f.isDynamicContainer n = true)
    (hchild : f.getChild n name = some c) (hcs : n.getChildren = before ++ c :: behind)
    (h : Ends f paTypeName paTypeHash (next :: names) c r) :
    Ends f paTypeName paTypeHash (name :: next :: names) n
      (r.1, n.withChildren (before ++ r.2 :: behind)) := by
  have hneeds_iff : f.NeedsContainer (name :: next :: names) n ↔
      f.NeedsContainer (next :: names) c := by
    rw [NeedsContainer, hchild]
    exact and_iff_right hdynamic
  cases h with
  | refused hready hneeds =>
    rw [← hcs, Node.withChildren_getChildren]
    exact .refused hready (mt hneeds_iff.mp hneeds)
  | left hready hne hneeds hrefused =>
    refine .left hready (fun heq => hne ?_) (hneeds_iff.mpr hneeds) hrefused
    have hcs' := congrArg Node.getChildren heq
    rw [Node.getChildren_withChildren, hcs] at hcs'
    exact (List.cons.inj (List.append_cancel_left hcs')).1
  | @created existing made last newFB n' hnames hnew hgrown =>
    obtain ⟨hname, -⟩ := getChild_eq_some hchild
    refine @Ends.created f _ _ _ _ (name :: existing) made last newFB _ ?_ hnew fun path => ?_
    · rw [hnames]
      rfl
    · rw [← hname]
      exact Node.grownAt_child hcs (hgrown _)

/-- **Every creation of a function block ends in one of the three ways.** -/
theorem createFB_ends (names : List StringId) (n : Node) :
    Ends f paTypeName paTypeHash names n (f.createFB paTypeName paTypeHash names n) := by
  induction names generalizing n with
  | nil => exact .refused nofun id
  | cons name names ih =>
    cases names with
    | nil => exact createFBHere_ends n name
    | cons next names =>
      rw [createFB_cons_cons]
      split
      case isFalse hstatic => exact .refused nofun fun hneeds => hstatic hneeds.1
      case isTrue hdynamic =>
        cases hchild : f.getChild n name with
        | some c =>
          obtain ⟨before, behind, hfind, hcs⟩ := findOrCreateContainer_of_some hchild
          rw [hfind]
          dsimp only
          split
          · exact (ih c).child hdynamic hchild hcs
          · rename_i hstatic
            rw [← hcs, Node.withChildren_getChildren]
            refine .refused nofun fun hneeds => ?_
            rw [NeedsContainer, hchild] at hneeds
            cases names with
            | nil => exact hneeds.2
            | cons => exact hstatic hneeds.2.1
        | none =>
          have hcs := (f.getChildrenIterator_append n name).symm
          have hneeds : f.NeedsContainer (name :: next :: names) n := by
            rw [NeedsContainer, hchild]
            exact ⟨hdynamic, trivial⟩
          rw [findOrCreateContainer_of_none hchild]
          dsimp only
          rw [if_pos (show f.isDynamicContainer (.container name []) = true from rfl)]
          -- the last name decides, whatever containers are made before it
          obtain ⟨made, last, hlast⟩ :=
            (List.eq_nil_or_concat (next :: names)).resolve_left (List.cons_ne_nil next names)
          rw [hlast, List.concat_eq_append] at hneeds ⊢
          cases hmade : f.createInstance last paTypeName paTypeHash with
          | ok newFB =>
            rw [createFB_within hmade]
            exact @Ends.created f _ _ _ _ [] (name :: made) last newFB _ rfl hmade fun path =>
              Node.grownAt_here path (name :: made) newFB hcs
          | error errorMSG =>
            have hrefused : ∀ name', (made ++ [last]).getLast? = some name' → ∀ newFB,
                f.createInstance name' paTypeName paTypeHash ≠ .ok newFB := by
              rintro name' hname newFB
              rw [List.getLast?_concat] at hname
              rw [← Option.some.inj hname, hmade]
              exact nofun
            refine .left (createFB_container_refused hrefused) (fun heq => ?_) hneeds ?_
            · have hlength := congrArg (List.length ∘ Node.getChildren) heq
              simp only [Function.comp_apply, Node.getChildren_withChildren, hcs,
                List.length_append, List.length_cons] at hlength
              omega
            · rw [← List.cons_append, List.getLast?_concat]
              rw [List.getLast?_concat] at hrefused
              exact hrefused

/-- **The creation of a function block is atomic exactly if no container has to be made for it, or
the type library has the function block**; what is refused for another reason is refused before
anything is made. -/
theorem createFB_atomic_iff (paTypeName : StringId) (paTypeHash : String) (names : List StringId)
    (n : Node) :
    f.Atomic paTypeName paTypeHash names n ↔
      (f.NeedsContainer names n → ∃ name newFB, names.getLast? = some name ∧
        f.createInstance name paTypeName paTypeHash = .ok newFB) := by
  have hends : Ends f paTypeName paTypeHash names n (f.createFB paTypeName paTypeHash names n) :=
    createFB_ends names n
  rw [Atomic]
  generalize f.createFB paTypeName paTypeHash names n = r at hends
  cases hends with
  | refused hready hneeds =>
    exact ⟨fun _ h => absurd h hneeds, fun _ => ⟨fun _ => rfl, fun h => absurd h hready⟩⟩
  | left hready hne hneeds hrefused =>
    constructor
    · exact fun h => absurd (h.1 hready) hne
    · intro h
      obtain ⟨name, newFB, hlast, hnew⟩ := h hneeds
      exact absurd hnew (hrefused name hlast newFB)
  | @created existing made name newFB n' hnames hnew hgrown =>
    constructor
    · exact fun _ _ => ⟨name, newFB, by rw [hnames, List.getLast?_concat], hnew⟩
    · exact fun _ => ⟨fun h => absurd rfl h,
        fun _ => ⟨existing, made, name, newFB, hnames, hnew, hgrown []⟩⟩

end

/-! ### The order of the children -/

/-- The children of every node are in the order of their addresses, where the binary search of
`getChildrenIterator` finds them. -/
inductive Ordered (f : Firmware) : Node → Prop
  | intro {n : Node} (sorted : Table.Sorted f.addressOf n.getChildren)
      (children : ∀ c ∈ n.getChildren, Ordered f c) : Ordered f n

/-- Among ordered children `getChild` finds the one with the name. -/
theorem getChild_iff {n c : Node} {name : StringId} (h : f.Ordered n)
    (hname : f.address name ≠ 0) :
    f.getChild n name = some c ↔ c ∈ n.getChildren ∧ c.getInstanceNameId = name := by
  obtain ⟨hsorted, -⟩ := h
  have hfind : f.getChild n name = Table.find? f.addressOf (f.address name) n.getChildren := by
    rw [getChild, getChildrenIterator]
    split
    · rfl
    · rename_i hempty
      have hnil : n.getChildren = [] := by simpa [hname] using hempty
      rw [hnil]
      rfl
  rw [hfind, Table.find?_eq_some hsorted]
  refine and_congr_right fun _ => ⟨fun haddress => ?_, congrArg f.address⟩
  exact f.address_inj haddress (ne_of_eq_of_ne haddress hname)

/-- A new child keeps the order. -/
theorem Ordered.insert {n c : Node} {name : StringId} (h : f.Ordered n) (hc : f.Ordered c)
    (hcname : c.getInstanceNameId = name) (hname : f.address name ≠ 0)
    (hnone : f.getChild n name = none) :
    f.Ordered (n.withChildren
      ((f.getChildrenIterator n name).1 ++ c :: (f.getChildrenIterator n name).2)) := by
  have hfresh (c' : Node) (hc' : c' ∈ n.getChildren) : c'.getInstanceNameId ≠ name := by
    intro heq
    have hsome := (getChild_iff h hname).mpr ⟨hc', heq⟩
    rw [hnone] at hsome
    cases hsome
  obtain ⟨hsorted, hcs⟩ := h
  have hinsert : (f.getChildrenIterator n name).1 ++ c :: (f.getChildrenIterator n name).2 =
      Table.insertAbsent f.addressOf c n.getChildren := by
    have haddress : f.addressOf c = f.address name := congrArg f.address hcname
    have hfind : Table.find? f.addressOf (f.addressOf c) n.getChildren = none := by
      refine (Table.find?_eq_none hsorted).mpr fun c' hc' heq => hfresh c' hc' ?_
      have hsame := heq.trans haddress
      exact f.address_inj hsame (ne_of_eq_of_ne hsame hname)
    rw [Table.insertAbsent, hfind, getChildrenIterator, haddress]
    split
    · rfl
    · rename_i hempty
      have hnil : n.getChildren = [] := by simpa [hname] using hempty
      rw [hnil]
      rfl
  rw [hinsert]
  constructor
  · rw [Node.getChildren_withChildren]
    exact hsorted.insertAbsent c
  · rw [Node.getChildren_withChildren]
    intro c' hc'
    rcases (Table.mem_insertAbsent hsorted).mp hc' with hmem | ⟨rfl, -⟩
    · exact hcs c' hmem
    · exact hc

/-- A child in the place of one with its name keeps the order. -/
theorem Ordered.replace {n c c' : Node} {before behind : List Node} (h : f.Ordered n)
    (hcs : n.getChildren = before ++ c :: behind) (hc' : f.Ordered c')
    (hname : c'.getInstanceNameId = c.getInstanceNameId) :
    f.Ordered (n.withChildren (before ++ c' :: behind)) := by
  obtain ⟨hsorted, hall⟩ := h
  have haddress : f.addressOf c' = f.addressOf c := congrArg f.address hname
  constructor
  · rw [Node.getChildren_withChildren, Table.Sorted, ← List.pairwise_map]
    rw [hcs, Table.Sorted, ← List.pairwise_map] at hsorted
    rwa [List.map_append, List.map_cons, haddress, ← List.map_cons, ← List.map_append]
  · rw [Node.getChildren_withChildren]
    intro x hx
    rcases List.mem_append.mp hx with hmem | hmem
    · exact hall x (hcs ▸ List.mem_append_left _ hmem)
    · rcases List.mem_cons.mp hmem with rfl | hmem
      · exact hc'
      · exact hall x (hcs ▸ List.mem_append_right _ (List.mem_cons_of_mem _ hmem))

theorem getInstanceNameId_createFB {paTypeName : StringId} {paTypeHash : String}
    (names : List StringId) (n : Node) :
    (f.createFB paTypeName paTypeHash names n).2.getInstanceNameId = n.getInstanceNameId := by
  have hname (cs : List Node) : (n.withChildren cs).getInstanceNameId = n.getInstanceNameId := by
    cases n <;> rfl
  match names with
  | [] => rfl
  | [name] =>
    rw [createFB, createFBHere]
    split
    · rfl
    · dsimp only
      split
      · rfl
      · split
        · rfl
        · exact hname _
  | name :: next :: names =>
    rw [createFB_cons_cons]
    dsimp only
    split
    · split
      · exact hname _
      · exact hname _
    · rfl

/-- **Creating function blocks keeps the children in order**, so that in every tree that is made by
commands the binary search finds what there is. -/
theorem Ordered.createFB {paTypeName : StringId} {paTypeHash : String} {names : List StringId}
    {n : Node} (h : f.Ordered n) (hnames : ∀ name ∈ names, f.address name ≠ 0)
    (htypes : ∀ name newFB, f.createInstance name paTypeName paTypeHash = .ok newFB →
      newFB.getInstanceNameId = name ∧ f.Ordered newFB) :
    f.Ordered (f.createFB paTypeName paTypeHash names n).2 := by
  induction names generalizing n with
  | nil => exact h
  | cons name names ih =>
    have hname := hnames name List.mem_cons_self
    cases names with
    | nil =>
      rw [Firmware.createFB, createFBHere]
      split
      · exact h
      · dsimp only
        split
        · exact h
        · rename_i hnone
          split
          · exact h
          · rename_i newFB hmade
            exact h.insert (htypes _ _ hmade).2 (htypes _ _ hmade).1 hname hnone
    | cons next names =>
      have hrest := fun {c : Node} (hc : f.Ordered c) =>
        ih hc fun name hmem => hnames name (List.mem_cons_of_mem _ hmem)
      rw [createFB_cons_cons]
      split
      · cases hchild : f.getChild n name with
        | some c =>
          obtain ⟨before, behind, hfind, hcs⟩ := findOrCreateContainer_of_some hchild
          have hc : f.Ordered c := by
            obtain ⟨-, hall⟩ := h
            exact hall c (hcs ▸ List.mem_append_right _ List.mem_cons_self)
          rw [hfind]
          dsimp only
          split
          · exact h.replace hcs (hrest hc) (getInstanceNameId_createFB _ _)
          · exact h.replace hcs hc rfl
        | none =>
          rw [findOrCreateContainer_of_none hchild]
          dsimp only
          have hnew : f.Ordered (.container name []) :=
            ⟨List.Pairwise.nil, fun c hc => absurd hc List.not_mem_nil⟩
          split
          · exact h.insert (hrest hnew) (getInstanceNameId_createFB _ _) hname hchild
          · exact h.insert hnew rfl hname hchild
      · exact h

/-- A program whose type library is empty. -/
def withoutTypes : Firmware where
  address name := if name = "A" then 1 else if name = "B" then 2 else 0
  address_inj := by
    intro a b
    split_ifs <;> simp_all
  fbTypeLib := []
  isResource _ := true

/-- **A function block of an unknown type in a container that does not exist**: the command is
refused, and the container is there. -/
theorem createFB_leaves_container :
    (withoutTypes.createFB "MISSING" "" ["A", "B"] (.container "RES" [])).1 = .unsupportedType ∧
      ¬withoutTypes.Atomic "MISSING" "" ["A", "B"] (.container "RES" []) := by
  have hresult : withoutTypes.createFB "MISSING" "" ["A", "B"] (.container "RES" []) =
      (.unsupportedType, .container "RES" [.container "A" []]) := rfl
  rw [Atomic, hresult]
  exact ⟨rfl, fun h => absurd (h.1 nofun) nofun⟩

end Firmware

end Forte
