import Mathlib.Data.List.Infix
import Forte.Management.Creation

/-!
# The children of containers

Function blocks come into a container and leave it on several ways: the management commands create
and delete them, a command makes the containers on the way, and the constructor of a function
block puts the ones inside into it. Each way searches for the place by a lower bound, so that all
rests on the order of the children (`Forte.Firmware.Ordered`), and each has to keep it.

What is asked of them is said without the order. A registry (`Forte.Registry`) knows of each list
of names whether there is a container, a function block or nothing; a creation enters names and a
deletion strikes them out. Behind any sequence of commands the children are in order, and the
search finds a child for exactly the names in the registry
(`Forte.Firmware.children_found_iff`).
-/

namespace Forte

namespace Node

/-- `removeFB`, of the child with the name. -/
def removeFB (n : Node) (name : StringId) : Node :=
  n.withChildren (n.getChildren.filter fun c => c.getInstanceNameId ≠ name)

/-! ### Children by their names -/

theorem find?_insert {before behind : List Node} {c : Node}
    (hfresh : ∀ b ∈ before ++ behind, b.getInstanceNameId ≠ c.getInstanceNameId)
    (name : StringId) :
    (before ++ c :: behind).find? (fun b => b.getInstanceNameId = name) =
      if c.getInstanceNameId = name then some c
      else (before ++ behind).find? fun b => b.getInstanceNameId = name := by
  rw [List.find?_append, List.find?_append, List.find?_cons]
  by_cases hc : c.getInstanceNameId = name
  · have hnone : before.find? (fun b => b.getInstanceNameId = name) = none :=
      List.find?_eq_none.mpr fun b hb => by
        simpa [hc] using hfresh b (List.mem_append_left _ hb)
    simp [hc, hnone]
  · simp [hc]

/-- The children have different names. -/
def Distinct (cs : List Node) : Prop :=
  cs.Pairwise fun b c => b.getInstanceNameId ≠ c.getInstanceNameId

theorem Distinct.fresh {before behind : List Node} {c : Node}
    (h : Distinct (before ++ c :: behind)) :
    ∀ b ∈ before ++ behind, b.getInstanceNameId ≠ c.getInstanceNameId := by
  rw [Distinct, List.pairwise_middle Ne.symm, List.pairwise_cons] at h
  exact fun b hb => (h.1 b hb).symm

theorem getChild_withChildren (n : Node) (cs : List Node) (name : StringId) :
    (n.withChildren cs).getChild name = cs.find? fun c => c.getInstanceNameId = name := by
  rw [getChild, getChildren_withChildren]

theorem getInstanceNameId_of_getChild {n c : Node} {name : StringId}
    (h : n.getChild name = some c) : c.getInstanceNameId = name := by
  rw [getChild] at h
  simpa using List.find?_some h

/-- What the names lead to: nothing, or what the node there is. -/
def kindAt (n : Node) (names : List StringId) : Option (Option FunctionBlock) :=
  (resolve names n).map functionBlock

theorem kindAt_nil (n : Node) : n.kindAt [] = some n.functionBlock := rfl

theorem kindAt_cons (n : Node) (name : StringId) (names : List StringId) :
    n.kindAt (name :: names) = (n.getChild name).bind (kindAt · names) := by
  rw [kindAt, resolve]
  cases n.getChild name <;> rfl

theorem functionBlock_withChildren (n : Node) (cs : List Node) :
    (n.withChildren cs).functionBlock = n.functionBlock := by
  cases n <;> rfl

/-- **A new child**: what it is led to by its name, and nothing else is new. -/
theorem kindAt_insert {n c : Node} {before behind : List Node}
    (hcs : n.getChildren = before ++ behind)
    (hfresh : ∀ b ∈ before ++ behind, b.getInstanceNameId ≠ c.getInstanceNameId)
    (name : StringId) (names : List StringId) :
    (n.withChildren (before ++ c :: behind)).kindAt (name :: names) =
      if c.getInstanceNameId = name then c.kindAt names else n.kindAt (name :: names) := by
  rw [kindAt_cons, getChild_withChildren, find?_insert hfresh, kindAt_cons, getChild, hcs]
  split <;> rfl

/-- **A child in the place of another one** with its name. -/
theorem kindAt_replace {n c c' : Node} {before behind : List Node}
    (hcs : n.getChildren = before ++ c :: behind) (hdistinct : Distinct n.getChildren)
    (hname : c'.getInstanceNameId = c.getInstanceNameId) (name : StringId)
    (names : List StringId) :
    (n.withChildren (before ++ c' :: behind)).kindAt (name :: names) =
      if c.getInstanceNameId = name then c'.kindAt names else n.kindAt (name :: names) := by
  rw [hcs] at hdistinct
  have hfresh' : ∀ b ∈ before ++ behind, b.getInstanceNameId ≠ c'.getInstanceNameId := by
    rw [hname]
    exact hdistinct.fresh
  rw [kindAt_cons, getChild_withChildren, find?_insert hfresh', kindAt_cons, getChild, hcs,
    find?_insert hdistinct.fresh, hname]
  split <;> rfl

/-- **A child that has gone**. -/
theorem kindAt_erase {n c : Node} {before behind : List Node}
    (hcs : n.getChildren = before ++ c :: behind) (hdistinct : Distinct n.getChildren)
    (name : StringId) (names : List StringId) :
    (n.withChildren (before ++ behind)).kindAt (name :: names) =
      if c.getInstanceNameId = name then none else n.kindAt (name :: names) := by
  rw [hcs] at hdistinct
  rw [kindAt_cons, getChild_withChildren, kindAt_cons, getChild, hcs,
    find?_insert hdistinct.fresh]
  by_cases hc : c.getInstanceNameId = name
  · have hnone : (before ++ behind).find? (fun b => b.getInstanceNameId = name) = none :=
      List.find?_eq_none.mpr fun b hb => by simpa [hc] using hdistinct.fresh b hb
    rw [if_pos hc, hnone]
    rfl
  · rw [if_neg hc, if_neg hc]

end Node

/-! ### The registry -/

/-- What there is, by the names that lead to it: a container or a function block. -/
abbrev Registry := List StringId → Option (Option FunctionBlock)

namespace Registry

variable (f : Firmware) (R : Registry)

/-- The names lead to a function block that does not let other ones be put into it. -/
def closed (names : List StringId) : Bool :=
  match R names with
  | some (some d) => !f.isResource d
  | _ => false

/-- On the way along the names there is such a function block. -/
def Blocked (names : List StringId) : Prop := ∃ p ∈ names.inits, p ≠ names ∧ closed f R p = true

instance (names : List StringId) : Decidable (Blocked f R names) :=
  inferInstanceAs (Decidable (∃ p ∈ names.inits, _))

/-- **What a creation enters.** On a way that is not blocked there are the containers, and at its
end, if nothing is there, the function block with what is in it, if the type library has it. What
is there already stays. -/
def create (paTypeName : StringId) (paTypeHash : String) (names : List StringId) : Registry :=
  fun q =>
    if (R q).isSome ∨ names = [] ∨ Blocked f R names then R q
    else if q <+: names ∧ q ≠ names then some none
    else if names <+: q ∧ R names = none then
      match f.createInstance (names.getLastD "") paTypeName paTypeHash with
      | .ok newFB => newFB.kindAt (q.drop names.length)
      | .error _ => none
    else none

/-- The names lead to a function block, through containers. -/
def Erasable (names : List StringId) : Prop :=
  names ≠ [] ∧ (∃ d, R names = some (some d)) ∧
    ∀ p ∈ names.inits, p ≠ [] → p ≠ names → closed f R p = false

/-- **What a deletion strikes out**: the function block that the names lead to, with all that is
in it, if it can be deleted. -/
noncomputable def delete (names : List StringId) (deleteable : Bool) : Registry :=
  open Classical in
  fun q => if names <+: q ∧ deleteable = true ∧ Erasable f R names then none else R q

end Registry

namespace Firmware

variable (f : Firmware)

/-! ### The code -/

/-- `addFB`. -/
def addFB (n paFuncBlock : Node) : Node :=
  let (before, childIt) := f.getChildrenIterator n paFuncBlock.getInstanceNameId
  n.withChildren (before ++ paFuncBlock :: childIt)

/-- `deleteFB`; `isCurrentlyDeleteable` is what the function block that the names lead to says. -/
def deleteFB (isCurrentlyDeleteable : Bool) : List StringId → Node → EMGMResponse × Node
  | [], n => (.noSuchObject, n)
  | [childName], n =>
    let (before, childIt) := f.getChildrenIterator n childName
    match f.isChild childIt childName with
    | none => (.noSuchObject, n)
    | some child =>
      if child.isFB then
        if isCurrentlyDeleteable then (.ready, n.withChildren (before ++ childIt.tail))
        else (.invalidState, n)
      else (.noSuchObject, n)
  | childName :: names, n =>
    let (before, childIt) := f.getChildrenIterator n childName
    match f.isChild childIt childName with
    | none => (.noSuchObject, n)
    | some child =>
      if f.isDynamicContainer child then
        let (response, child) := deleteFB isCurrentlyDeleteable names child
        (response, n.withChildren (before ++ child :: childIt.tail))
      else (.noSuchObject, n)

/-- **A function block as its constructor leaves it**: the ones inside were put into it one after
the other, each with an interned name of its own, and some may have been taken out again. -/
inductive Constructed : Node → Prop
  | alone (d : FunctionBlock) : Constructed (.fb d [])
  | addFB {n c : Node} (hn : Constructed n) (hc : Constructed c)
      (interned : f.address c.getInstanceNameId ≠ 0)
      (fresh : ∀ b ∈ n.getChildren, b.getInstanceNameId ≠ c.getInstanceNameId) :
      Constructed (f.addFB n c)
  | removeFB {n : Node} (hn : Constructed n) (name : StringId) : Constructed (n.removeFB name)

/-- What the function blocks of the type library are when they have been created and initialized:
constructed, with the name they were given. -/
def LibraryConstructs : Prop :=
  ∀ name paTypeName paTypeHash newFB, f.createInstance name paTypeName paTypeHash = .ok newFB →
    newFB.getInstanceNameId = name ∧ f.Constructed newFB

/-- The command `CREATE` or `DELETE` of a function block. The names are ones that have been
interned. -/
inductive Operation
  | create (paTypeName : StringId) (paTypeHash : String) (names : List StringId)
      (interned : ∀ name ∈ names, f.address name ≠ 0)
  | delete (names : List StringId) (isCurrentlyDeleteable : Bool)
      (interned : ∀ name ∈ names, f.address name ≠ 0)

namespace Operation

variable {f}

/-- The tree behind an operation. -/
def run : f.Operation → Node → Node
  | create paTypeName paTypeHash names _, n => (f.createFB paTypeName paTypeHash names n).2
  | delete names isCurrentlyDeleteable _, n => (f.deleteFB isCurrentlyDeleteable names n).2

/-- The registry behind an operation. -/
noncomputable def register : f.Operation → Registry → Registry
  | create paTypeName paTypeHash names _, R => R.create f paTypeName paTypeHash names
  | delete names isCurrentlyDeleteable _, R => R.delete f names isCurrentlyDeleteable

end Operation

/-! ### The order is kept -/

variable {f}

theorem Ordered.distinct {n : Node} (h : f.Ordered n) : Node.Distinct n.getChildren := by
  obtain ⟨hsorted, -⟩ := h
  exact hsorted.imp fun hlt heq => (Nat.ne_of_lt hlt) (congrArg f.address heq)

/-- **The binary search finds the child with the name**, as a search through all of them does. -/
theorem getChild_eq {n : Node} {name : StringId} (h : f.Ordered n) (hname : f.address name ≠ 0) :
    f.getChild n name = n.getChild name := by
  refine Option.ext fun c => ?_
  rw [getChild_iff h hname]
  constructor
  · rintro ⟨hmem, rfl⟩
    obtain ⟨before, behind, hcs⟩ := List.append_of_mem hmem
    have hdistinct := h.distinct
    rw [hcs] at hdistinct
    rw [Node.getChild, hcs, Node.find?_insert hdistinct.fresh, if_pos rfl]
  · intro hchild
    exact ⟨List.mem_of_find?_eq_some hchild, Node.getInstanceNameId_of_getChild hchild⟩

/-- Fewer children are in order as well. -/
theorem Ordered.sublist {n : Node} {cs : List Node} (h : f.Ordered n)
    (hcs : cs.Sublist n.getChildren) : f.Ordered (n.withChildren cs) := by
  obtain ⟨hsorted, hall⟩ := h
  constructor
  · rw [Node.getChildren_withChildren]
    exact hsorted.sublist hcs
  · rw [Node.getChildren_withChildren]
    exact fun c hc => hall c (hcs.subset hc)

/-- A constructor puts the function blocks inside in order. -/
theorem Constructed.ordered {n : Node} (h : f.Constructed n) : f.Ordered n := by
  induction h with
  | alone d => exact ⟨List.Pairwise.nil, fun c hc => absurd hc List.not_mem_nil⟩
  | @addFB n c hn hc interned fresh ihn ihc =>
    refine ihn.insert ihc rfl interned ?_
    rw [getChild_eq ihn interned]
    exact List.find?_eq_none.mpr fun b hb => by simpa using fresh b hb
  | removeFB hn name ih => exact ih.sublist List.filter_sublist

/-- Where the child is that was found. -/
theorem children_of_getChild {n c : Node} {name : StringId} (h : f.getChild n name = some c) :
    n.getChildren = (f.getChildrenIterator n name).1 ++ c ::
      (f.getChildrenIterator n name).2.tail := by
  rw [← (getChild_eq_some h).2]
  exact (f.getChildrenIterator_append n name).symm

theorem deleteFB_cons_cons (deleteable : Bool) (name next : StringId) (names : List StringId)
    (n : Node) :
    f.deleteFB deleteable (name :: next :: names) n =
      match f.getChild n name with
      | none => (.noSuchObject, n)
      | some child =>
        if f.isDynamicContainer child then
          let (response, child) := f.deleteFB deleteable (next :: names) child
          (response, n.withChildren ((f.getChildrenIterator n name).1 ++
            child :: (f.getChildrenIterator n name).2.tail))
        else (.noSuchObject, n) :=
  rfl

theorem deleteFB_singleton (deleteable : Bool) (name : StringId) (n : Node) :
    f.deleteFB deleteable [name] n =
      match f.getChild n name with
      | none => (.noSuchObject, n)
      | some child =>
        if child.isFB then
          if deleteable then (.ready, n.withChildren ((f.getChildrenIterator n name).1 ++
            (f.getChildrenIterator n name).2.tail))
          else (.invalidState, n)
        else (.noSuchObject, n) :=
  rfl

theorem getInstanceNameId_withChildren (n : Node) (cs : List Node) :
    (n.withChildren cs).getInstanceNameId = n.getInstanceNameId := by
  cases n <;> rfl

theorem getInstanceNameId_deleteFB (deleteable : Bool) (names : List StringId) (n : Node) :
    (f.deleteFB deleteable names n).2.getInstanceNameId = n.getInstanceNameId := by
  match names with
  | [] => rfl
  | [name] =>
    rw [deleteFB_singleton]
    repeat' split
    all_goals first | rfl | exact getInstanceNameId_withChildren _ _
  | name :: next :: names =>
    rw [deleteFB_cons_cons]
    repeat' split
    all_goals first | rfl | exact getInstanceNameId_withChildren _ _

/-- **Deleting function blocks keeps the children in order.** -/
theorem Ordered.deleteFB {deleteable : Bool} {names : List StringId} {n : Node}
    (h : f.Ordered n) : f.Ordered (f.deleteFB deleteable names n).2 := by
  induction names generalizing n with
  | nil => exact h
  | cons name names ih =>
    cases names with
    | nil =>
      rw [deleteFB_singleton]
      cases hchild : f.getChild n name with
      | none => exact h
      | some c =>
        dsimp only
        split
        · split
          · refine h.sublist ?_
            rw [children_of_getChild hchild]
            exact List.Sublist.append_left (List.sublist_cons_self _ _) _
          · exact h
        · exact h
    | cons next names =>
      rw [deleteFB_cons_cons]
      cases hchild : f.getChild n name with
      | none => exact h
      | some c =>
        dsimp only
        have hcs := children_of_getChild hchild
        have hc : f.Ordered c := by
          obtain ⟨-, hall⟩ := h
          exact hall c (hcs ▸ List.mem_append_right _ List.mem_cons_self)
        split
        · exact h.replace hcs (ih hc) (getInstanceNameId_deleteFB _ _ _)
        · exact h

end Firmware

/-! ### The registry of a tree -/

namespace Registry

variable {f : Firmware} {R : Registry} {paTypeName : StringId} {paTypeHash : String}
  {name : StringId} {names : List StringId}

/-- What is below a name. -/
def below (R : Registry) (name : StringId) : Registry := fun q => R (name :: q)

theorem blocked_cons_iff :
    Blocked f R (name :: names) ↔ closed f R [] = true ∨ Blocked f (R.below name) names := by
  constructor
  · rintro ⟨p, hp, hpne, hclosed⟩
    cases p with
    | nil => exact .inl hclosed
    | cons x p =>
      obtain ⟨rfl, hbelow⟩ := List.cons_prefix_cons.mp ((List.mem_inits _ _).mp hp)
      exact .inr ⟨p, (List.mem_inits _ _).mpr hbelow, fun heq => hpne (heq ▸ rfl), hclosed⟩
  · rintro (hclosed | ⟨p, hp, hpne, hclosed⟩)
    · exact ⟨[], (List.mem_inits _ _).mpr List.nil_prefix, (List.cons_ne_nil _ _).symm, hclosed⟩
    · refine ⟨name :: p, (List.mem_inits _ _).mpr ?_,
        fun heq => hpne (List.cons.inj heq).2, hclosed⟩
      exact List.cons_prefix_cons.mpr ⟨rfl, (List.mem_inits _ _).mp hp⟩

theorem create_of_isSome {q : List StringId} (h : (R q).isSome) :
    R.create f paTypeName paTypeHash names q = R q :=
  if_pos (.inl h)

theorem create_of_blocked (h : Blocked f R names) : R.create f paTypeName paTypeHash names = R :=
  funext fun _ => if_pos (.inr (.inr h))

/-- A creation enters nothing that another name leads to. -/
theorem create_of_ne {x : StringId} (h : x ≠ name) (q : List StringId) :
    R.create f paTypeName paTypeHash (name :: names) (x :: q) = R (x :: q) := by
  have hbelow : ¬(x :: q) <+: name :: names := fun hp => h (List.cons_prefix_cons.mp hp).1
  have hextends : ¬(name :: names) <+: x :: q := fun hp => h (List.cons_prefix_cons.mp hp).1.symm
  rw [create]
  split
  · rfl
  · rename_i hnone
    rw [if_neg fun hand => hbelow hand.1, if_neg fun hand => hextends hand.1]
    rw [not_or, Option.not_isSome_iff_eq_none] at hnone
    exact hnone.1.symm

/-- **A creation through a name is a creation below it.** -/
theorem create_below (hroot : closed f R [] = false) (hne : names ≠ []) (q : List StringId) :
    R.create f paTypeName paTypeHash (name :: names) (name :: q) =
      (R.below name).create f paTypeName paTypeHash names q := by
  have hblocked : Blocked f R (name :: names) ↔ Blocked f (R.below name) names := by
    rw [blocked_cons_iff, hroot]
    exact or_iff_right Bool.false_ne_true
  have hlast : (name :: names).getLastD "" = names.getLastD "" := by
    obtain ⟨next, rest, rfl⟩ := List.exists_cons_of_ne_nil hne
    rfl
  have hnil : (name :: names = []) = False := eq_false (List.cons_ne_nil _ _)
  have hnil' : (names = []) = False := eq_false hne
  rw [create, create, hlast]
  simp only [hblocked, List.cons_prefix_cons, true_and, ne_eq, List.cons.injEq, hnil, hnil',
    List.length_cons, List.drop_succ_cons]
  rfl

/-- In a new container, and where nothing is yet, a creation enters the same. -/
theorem create_container (hne : names ≠ []) (container : StringId) :
    Registry.create f (fun _ => none) paTypeName paTypeHash names =
      Registry.create f (Node.kindAt (.container container [])) paTypeName paTypeHash names := by
  have hnothing : ∀ x q, Node.kindAt (.container container []) (x :: q) = none := fun _ _ => rfl
  have hblocked : ¬Blocked f (fun _ => none) names := by
    rintro ⟨p, -, -, hclosed⟩
    cases hclosed
  have hblocked' : ¬Blocked f (Node.kindAt (.container container [])) names := by
    rintro ⟨p, -, -, hclosed⟩
    cases p with
    | nil => cases hclosed
    | cons x p =>
      rw [closed, hnothing] at hclosed
      cases hclosed
  obtain ⟨next, rest, rfl⟩ := List.exists_cons_of_ne_nil hne
  funext q
  cases q with
  | nil =>
    have hmade : ([] : List StringId) <+: next :: rest ∧ [] ≠ next :: rest :=
      ⟨List.nil_prefix, (List.cons_ne_nil _ _).symm⟩
    have hroot : Registry.create f (Node.kindAt (.container container [])) paTypeName paTypeHash
        (next :: rest) [] = some none := create_of_isSome rfl
    rw [hroot, create, if_neg (by simp [hblocked]), if_pos hmade]
  | cons x q =>
    simp only [create, hnothing, hblocked, hblocked']

end Registry

namespace Firmware

variable {f : Firmware} {paTypeName : StringId} {paTypeHash : String}

theorem closed_kindAt (n : Node) :
    Registry.closed f n.kindAt [] = !f.isDynamicContainer n := by
  cases n <;> rfl

theorem below_kindAt_of_some {n c : Node} {name : StringId} (h : n.getChild name = some c) :
    Registry.below n.kindAt name = c.kindAt := by
  funext q
  rw [Registry.below, Node.kindAt_cons, h]
  rfl

theorem below_kindAt_of_none {n : Node} {name : StringId} (h : n.getChild name = none) :
    Registry.below n.kindAt name = fun _ => none := by
  funext q
  rw [Registry.below, Node.kindAt_cons, h]
  rfl

theorem functionBlock_createFB (names : List StringId) (n : Node) :
    (f.createFB paTypeName paTypeHash names n).2.functionBlock = n.functionBlock := by
  match names with
  | [] => rfl
  | [name] =>
    rw [createFB, createFBHere]
    repeat' split
    all_goals first | rfl | exact Node.functionBlock_withChildren _ _
  | name :: next :: names =>
    rw [createFB_cons_cons]
    repeat' split
    all_goals first | rfl | exact Node.functionBlock_withChildren _ _

theorem createFB_singleton {n : Node} {name : StringId} (h : f.isDynamicContainer n = true) :
    (f.createFB paTypeName paTypeHash [name] n).2 =
      match f.getChild n name with
      | some _ => n
      | none =>
        match f.createInstance name paTypeName paTypeHash with
        | .error _ => n
        | .ok newFB => n.withChildren
            ((f.getChildrenIterator n name).1 ++ newFB :: (f.getChildrenIterator n name).2) := by
  rw [createFB, createFBHere, h, getChild]
  dsimp only
  cases f.isChild (f.getChildrenIterator n name).2 name with
  | some c => rfl
  | none =>
    cases f.createInstance name paTypeName paTypeHash with
    | error errorMSG => rfl
    | ok newFB => rfl

theorem createFB_of_not_dynamic {n : Node} (h : f.isDynamicContainer n = false)
    (names : List StringId) : (f.createFB paTypeName paTypeHash names n).2 = n := by
  match names with
  | [] => rfl
  | [name] => rw [createFB, createFBHere, h]; rfl
  | name :: next :: names => rw [createFB_cons_cons, h]; rfl

/-- A creation goes on in the child that is there. -/
theorem createFB_in_child {n c : Node} {name : StringId} (hdynamic : f.isDynamicContainer n = true)
    (hchild : f.getChild n name = some c) (next : StringId) (names : List StringId) :
    ∃ before behind, n.getChildren = before ++ c :: behind ∧
      (f.createFB paTypeName paTypeHash (name :: next :: names) n).2 =
        n.withChildren (before ++
          (f.createFB paTypeName paTypeHash (next :: names) c).2 :: behind) := by
  obtain ⟨before, behind, hfind, hcs⟩ := findOrCreateContainer_of_some hchild
  refine ⟨before, behind, hcs, ?_⟩
  rw [createFB_cons_cons, hdynamic, if_pos rfl, hfind]
  dsimp only
  cases hc : f.isDynamicContainer c with
  | true => rfl
  | false => rw [createFB_of_not_dynamic hc]; rfl

/-- A creation goes on in the container that is made for it. -/
theorem createFB_in_container {n : Node} {name : StringId}
    (hdynamic : f.isDynamicContainer n = true) (hchild : f.getChild n name = none)
    (next : StringId) (names : List StringId) :
    (f.createFB paTypeName paTypeHash (name :: next :: names) n).2 =
      n.withChildren ((f.getChildrenIterator n name).1 ++
        (f.createFB paTypeName paTypeHash (next :: names) (.container name [])).2 ::
          (f.getChildrenIterator n name).2) := by
  rw [createFB_cons_cons, hdynamic, if_pos rfl, findOrCreateContainer_of_none hchild]
  rfl

/-- Where no child has a name, all children have other ones. -/
theorem ne_of_getChild_eq_none {n : Node} {name : StringId} (h : n.getChild name = none) :
    ∀ b ∈ n.getChildren, b.getInstanceNameId ≠ name := by
  rintro b hb
  simpa using List.find?_eq_none.mp h b hb

/-- A creation in the container itself. -/
theorem kindAt_createFBHere {name : StringId} {n : Node} (h : f.Ordered n)
    (hname : f.address name ≠ 0) (hlibrary : f.LibraryConstructs)
    (hdynamic : f.isDynamicContainer n = true) :
    (f.createFB paTypeName paTypeHash [name] n).2.kindAt =
      Registry.create f n.kindAt paTypeName paTypeHash [name] := by
  have hblocked : ¬Registry.Blocked f n.kindAt [name] := by
    rw [Registry.blocked_cons_iff, closed_kindAt, hdynamic]
    rintro (hfalse | ⟨p, hp, hpne, -⟩)
    · cases hfalse
    · exact hpne (List.prefix_nil.mp ((List.mem_inits _ _).mp hp))
  funext q
  cases q with
  | nil =>
    rw [Registry.create_of_isSome rfl, Node.kindAt_nil, Node.kindAt_nil, functionBlock_createFB]
  | cons x q =>
    have hfound : f.getChild n name = n.getChild name := getChild_eq h hname
    by_cases hx : x = name
    · subst hx
      have hproper : ¬((x :: q) <+: [x] ∧ x :: q ≠ [x]) := by
        rintro ⟨hbelow, hne⟩
        exact hne (by rw [List.prefix_nil.mp (List.cons_prefix_cons.mp hbelow).2])
      have hextends : [x] <+: x :: q := List.cons_prefix_cons.mpr ⟨rfl, List.nil_prefix⟩
      rw [createFB_singleton hdynamic, hfound]
      cases hc : n.getChild x with
      | some c =>
        have hsome : n.kindAt [x] ≠ none := by
          rw [Node.kindAt_cons, hc]
          exact Option.some_ne_none _
        rw [Registry.create]
        dsimp only
        split
        · rfl
        · rename_i hnone
          rw [not_or, Option.not_isSome_iff_eq_none] at hnone
          rw [if_neg fun hand => hsome hand.2]
          exact hnone.1
      | none =>
        have hnone (q : List StringId) : n.kindAt (x :: q) = none := by
          rw [Node.kindAt_cons, hc]
          rfl
        rw [Registry.create, if_neg (by simp [hnone, hblocked]), if_neg hproper,
          if_pos ⟨hextends, hnone []⟩]
        simp only [List.getLastD_cons, List.getLastD_nil]
        cases hmade : f.createInstance x paTypeName paTypeHash with
        | error errorMSG => exact hnone q
        | ok newFB =>
          obtain ⟨hnew, -⟩ := hlibrary _ _ _ _ hmade
          have hfresh := ne_of_getChild_eq_none hc
          have hcs := (f.getChildrenIterator_append n x).symm
          rw [hcs, ← hnew] at hfresh
          have hinsert := Node.kindAt_insert (by rwa [hnew]) hfresh x q
          rw [if_pos hnew, hnew] at hinsert
          exact hinsert
    · rw [Registry.create_of_ne hx, createFB_singleton hdynamic, hfound]
      cases hc : n.getChild name with
      | some c => rfl
      | none =>
        cases hmade : f.createInstance name paTypeName paTypeHash with
        | error errorMSG => rfl
        | ok newFB =>
          obtain ⟨hnew, -⟩ := hlibrary _ _ _ _ hmade
          have hfresh := ne_of_getChild_eq_none hc
          have hcs := (f.getChildrenIterator_append n name).symm
          rw [hcs, ← hnew] at hfresh
          have hinsert := Node.kindAt_insert (by rwa [hnew]) hfresh x q
          rw [if_neg (by rw [hnew]; exact Ne.symm hx), hnew] at hinsert
          exact hinsert

/-- **What a creation makes of a tree is what it enters into the registry.** -/
theorem kindAt_createFB {names : List StringId} {n : Node} (h : f.Ordered n)
    (hnames : ∀ name ∈ names, f.address name ≠ 0) (hlibrary : f.LibraryConstructs) :
    (f.createFB paTypeName paTypeHash names n).2.kindAt =
      Registry.create f n.kindAt paTypeName paTypeHash names := by
  induction names generalizing n with
  | nil =>
    funext q
    exact (if_pos (.inr (.inl rfl))).symm
  | cons name names ih =>
    have hname := hnames name List.mem_cons_self
    have hchild := getChild_eq h hname
    cases hdynamic : f.isDynamicContainer n with
    | false =>
      have hblocked : Registry.Blocked f n.kindAt (name :: names) :=
        ⟨[], (List.mem_inits _ _).mpr List.nil_prefix, (List.cons_ne_nil _ _).symm, by
          rw [closed_kindAt, hdynamic]; rfl⟩
      have hsame : (f.createFB paTypeName paTypeHash (name :: names) n).2 = n := by
        cases names with
        | nil => rw [createFB, createFBHere, hdynamic]; rfl
        | cons next names => rw [createFB_cons_cons, hdynamic]; rfl
      rw [Registry.create_of_blocked hblocked, hsame]
    | true =>
      have hroot : Registry.closed f n.kindAt [] = false := by rw [closed_kindAt, hdynamic]; rfl
      cases names with
      | nil => exact kindAt_createFBHere h hname hlibrary hdynamic
      | cons next names =>
        have hrest := fun name' hmem => hnames name' (List.mem_cons_of_mem name hmem)
        funext q
        cases q with
        | nil =>
          rw [Registry.create_of_isSome rfl, Node.kindAt_nil, Node.kindAt_nil,
            functionBlock_createFB]
        | cons x q =>
          cases hc : n.getChild name with
          | some c =>
            obtain ⟨before, behind, hcs, hresult⟩ :=
              createFB_in_child hdynamic (hchild.trans hc) next names
            have hordered : f.Ordered c := by
              obtain ⟨-, hall⟩ := h
              exact hall c (hcs ▸ List.mem_append_right _ List.mem_cons_self)
            have hcname := Node.getInstanceNameId_of_getChild hc
            rw [hresult, Node.kindAt_replace hcs h.distinct (getInstanceNameId_createFB _ _),
              ih hordered hrest, hcname]
            by_cases hx : name = x
            · subst hx
              rw [if_pos rfl, Registry.create_below hroot (List.cons_ne_nil _ _),
                below_kindAt_of_some hc]
            · rw [if_neg hx, Registry.create_of_ne (Ne.symm hx)]
          | none =>
            have hnew : f.Ordered (.container name []) :=
              ⟨List.Pairwise.nil, fun c hc => absurd hc List.not_mem_nil⟩
            have hcs := (f.getChildrenIterator_append n name).symm
            have hcname : (f.createFB paTypeName paTypeHash (next :: names)
                (.container name [])).2.getInstanceNameId = name :=
              getInstanceNameId_createFB _ _
            have hfresh := ne_of_getChild_eq_none hc
            rw [hcs, ← hcname] at hfresh
            rw [createFB_in_container hdynamic (hchild.trans hc),
              Node.kindAt_insert hcs (by rwa [hcname] at hfresh ⊢), hcname, ih hnew hrest]
            by_cases hx : name = x
            · subst hx
              rw [if_pos rfl, Registry.create_below hroot (List.cons_ne_nil _ _),
                below_kindAt_of_none hc, Registry.create_container (List.cons_ne_nil _ _)]
            · rw [if_neg hx, Registry.create_of_ne (Ne.symm hx)]

end Firmware

namespace Registry

variable {f : Firmware} {R : Registry} {name : StringId} {names : List StringId}

/-- A function block can be deleted through a name if it can be below it. -/
theorem erasable_cons_iff (hne : names ≠ []) :
    Erasable f R (name :: names) ↔
      closed f (R.below name) [] = false ∧ Erasable f (R.below name) names := by
  constructor
  · rintro ⟨-, hfb, hopen⟩
    refine ⟨hopen [name] ?_ (List.cons_ne_nil _ _) fun heq => hne (List.cons.inj heq).2.symm, hne,
      hfb, fun p hp _ hpne => hopen (name :: p) ?_ (List.cons_ne_nil _ _)
        fun heq => hpne (List.cons.inj heq).2⟩
    · exact (List.mem_inits _ _).mpr (List.cons_prefix_cons.mpr ⟨rfl, List.nil_prefix⟩)
    · exact (List.mem_inits _ _).mpr (List.cons_prefix_cons.mpr ⟨rfl, (List.mem_inits _ _).mp hp⟩)
  · rintro ⟨hroot, -, hfb, hopen⟩
    refine ⟨List.cons_ne_nil _ _, hfb, ?_⟩
    rintro p hp hpnil hpne
    cases p with
    | nil => exact absurd rfl hpnil
    | cons x p =>
      obtain ⟨rfl, hbelow⟩ := List.cons_prefix_cons.mp ((List.mem_inits _ _).mp hp)
      by_cases hnil : p = []
      · rw [hnil]
        exact hroot
      · exact hopen p ((List.mem_inits _ _).mpr hbelow) hnil fun heq => hpne (heq ▸ rfl)

theorem delete_of_not_erasable (h : ¬Erasable f R names) (deleteable : Bool) :
    R.delete f names deleteable = R :=
  funext fun _ => if_neg fun hand => h hand.2.2

/-- A deletion strikes out nothing that another name leads to. -/
theorem delete_of_ne {x : StringId} (h : x ≠ name) (deleteable : Bool) (q : List StringId) :
    R.delete f (name :: names) deleteable (x :: q) = R (x :: q) :=
  if_neg fun hand => h (List.cons_prefix_cons.mp hand.1).1.symm

/-- **A deletion through a name is a deletion below it.** -/
theorem delete_below (hne : names ≠ []) (hopen : closed f (R.below name) [] = false)
    (deleteable : Bool) (q : List StringId) :
    R.delete f (name :: names) deleteable (name :: q) =
      (R.below name).delete f names deleteable q := by
  by_cases hcond : names <+: q ∧ deleteable = true ∧ Erasable f (R.below name) names
  · obtain ⟨hbelow, hdeleteable, herasable⟩ := hcond
    have herasable' := (erasable_cons_iff hne).mpr ⟨hopen, herasable⟩
    have hbelow' : name :: names <+: name :: q := List.cons_prefix_cons.mpr ⟨rfl, hbelow⟩
    exact (if_pos ⟨hbelow', hdeleteable, herasable'⟩).trans
      (if_pos ⟨hbelow, hdeleteable, herasable⟩).symm
  · refine (if_neg ?_).trans (if_neg hcond).symm
    rintro ⟨hbelow, hdeleteable, herasable⟩
    exact hcond ⟨(List.cons_prefix_cons.mp hbelow).2, hdeleteable,
      ((erasable_cons_iff hne).mp herasable).2⟩

end Registry

namespace Firmware

variable {f : Firmware}

theorem delete_kindAt_nil (n : Node) (names : List StringId) (deleteable : Bool) :
    Registry.delete f n.kindAt names deleteable [] = n.kindAt [] :=
  if_neg fun hand => hand.2.2.1 (List.prefix_nil.mp hand.1)

/-- **What a deletion makes of a tree is what it strikes out of the registry.** -/
theorem kindAt_deleteFB {names : List StringId} {n : Node} (h : f.Ordered n)
    (hnames : ∀ name ∈ names, f.address name ≠ 0) (deleteable : Bool) :
    (f.deleteFB deleteable names n).2.kindAt = Registry.delete f n.kindAt names deleteable := by
  induction names generalizing n with
  | nil => exact (Registry.delete_of_not_erasable (fun herasable => herasable.1 rfl) _).symm
  | cons name names ih =>
    have hfound := getChild_eq h (hnames name List.mem_cons_self)
    cases hc : n.getChild name with
    | none =>
      have hnothing : ¬Registry.Erasable f n.kindAt (name :: names) := by
        rintro ⟨-, ⟨d, hd⟩, -⟩
        rw [Node.kindAt_cons, hc] at hd
        cases hd
      have hsame : (f.deleteFB deleteable (name :: names) n).2 = n := by
        cases names with
        | nil => rw [deleteFB_singleton, hfound, hc]
        | cons next names => rw [deleteFB_cons_cons, hfound, hc]
      rw [Registry.delete_of_not_erasable hnothing, hsame]
    | some c =>
      have hcs := children_of_getChild (hfound.trans hc)
      have hcname := Node.getInstanceNameId_of_getChild hc
      have hbelow := below_kindAt_of_some hc
      cases names with
      | nil =>
        rw [deleteFB_singleton, hfound, hc]
        dsimp only
        by_cases hfb : c.isFB = true ∧ deleteable = true
        · obtain ⟨hisFB, rfl⟩ := hfb
          rw [hisFB, if_pos rfl, if_pos rfl]
          have herasable : Registry.Erasable f n.kindAt [name] := by
            refine ⟨List.cons_ne_nil _ _, ?_, fun p hp hnil hne => ?_⟩
            · rw [Node.kindAt_cons, hc]
              cases c with
              | container m cs => cases hisFB
              | fb d cs => exact ⟨d, rfl⟩
            · cases p with
              | nil => exact absurd rfl hnil
              | cons y p =>
                obtain ⟨rfl, hrest⟩ := List.cons_prefix_cons.mp ((List.mem_inits _ _).mp hp)
                exact absurd (by rw [List.prefix_nil.mp hrest]) hne
          funext q
          cases q with
          | nil =>
            rw [delete_kindAt_nil, Node.kindAt_nil, Node.kindAt_nil,
              Node.functionBlock_withChildren]
          | cons x q =>
            rw [Node.kindAt_erase hcs h.distinct, hcname]
            by_cases hx : name = x
            · subst hx
              have hbelow : [name] <+: name :: q :=
                List.cons_prefix_cons.mpr ⟨rfl, List.nil_prefix⟩
              rw [if_pos rfl]
              exact (if_pos ⟨hbelow, rfl, herasable⟩).symm
            · rw [if_neg hx, Registry.delete_of_ne (Ne.symm hx)]
        · have hkept : ∀ q, ¬([name] <+: q ∧ deleteable = true ∧
              Registry.Erasable f n.kindAt [name]) := by
            rintro q ⟨-, hdeleteable, -, ⟨d, hd⟩, -⟩
            refine hfb ⟨?_, hdeleteable⟩
            rw [Node.kindAt_cons, hc] at hd
            cases c with
            | container m cs => cases hd
            | fb d cs => rfl
          have hsame : (if c.isFB = true then
              if deleteable = true then
                (EMGMResponse.ready, n.withChildren ((f.getChildrenIterator n name).1 ++
                  (f.getChildrenIterator n name).2.tail))
              else (.invalidState, n)
            else (.noSuchObject, n)).2 = n := by
            split
            · rw [if_neg fun hdeleteable => hfb ⟨‹_›, hdeleteable⟩]
            · rfl
          rw [hsame]
          exact funext fun q => (if_neg (hkept q)).symm
      | cons next names =>
        have hrest := fun name' hmem => hnames name' (List.mem_cons_of_mem name hmem)
        rw [deleteFB_cons_cons, hfound, hc]
        dsimp only
        cases hdynamic : f.isDynamicContainer c with
        | false =>
          have hclosed : ¬Registry.Erasable f n.kindAt (name :: next :: names) := by
            rw [Registry.erasable_cons_iff (List.cons_ne_nil _ _), hbelow, closed_kindAt, hdynamic]
            exact fun hand => Bool.noConfusion hand.1
          rw [Registry.delete_of_not_erasable hclosed]
          rfl
        | true =>
          have hordered : f.Ordered c := by
            obtain ⟨-, hall⟩ := h
            exact hall c (hcs ▸ List.mem_append_right _ List.mem_cons_self)
          have hopen : Registry.closed f (Registry.below n.kindAt name) [] = false := by
            rw [hbelow, closed_kindAt, hdynamic]
            rfl
          rw [if_pos rfl]
          funext q
          cases q with
          | nil =>
            rw [delete_kindAt_nil, Node.kindAt_nil, Node.kindAt_nil,
              Node.functionBlock_withChildren]
          | cons x q =>
            dsimp only
            rw [Node.kindAt_replace hcs h.distinct (getInstanceNameId_deleteFB _ _ _), hcname,
              ih hordered hrest]
            by_cases hx : name = x
            · subst hx
              rw [if_pos rfl, Registry.delete_below (List.cons_ne_nil _ _) hopen, hbelow]
            · rw [if_neg hx, Registry.delete_of_ne (Ne.symm hx)]

/-! ### Every sequence of commands -/

/-- The tree behind a sequence of operations. -/
def runAll (ops : List f.Operation) (n : Node) : Node := ops.foldl (fun n op => op.run n) n

/-- The registry behind a sequence of operations. -/
noncomputable def registerAll (ops : List f.Operation) (R : Registry) : Registry :=
  ops.foldl (fun R op => op.register R) R

/-- An operation keeps the children in order, and does to the tree what it does to the registry. -/
theorem Operation.run_spec (hlibrary : f.LibraryConstructs) (op : f.Operation) {n : Node}
    (h : f.Ordered n) : f.Ordered (op.run n) ∧ (op.run n).kindAt = op.register n.kindAt := by
  cases op with
  | create paTypeName paTypeHash names interned =>
    refine ⟨h.createFB interned fun name newFB hmade => ?_, kindAt_createFB h interned hlibrary⟩
    obtain ⟨hname, hconstructed⟩ := hlibrary _ _ _ _ hmade
    exact ⟨hname, hconstructed.ordered⟩
  | delete names deleteable interned => exact ⟨h.deleteFB, kindAt_deleteFB h interned deleteable⟩

theorem runAll_spec (hlibrary : f.LibraryConstructs) (ops : List f.Operation) {n : Node}
    (h : f.Ordered n) :
    f.Ordered (runAll ops n) ∧ (runAll ops n).kindAt = registerAll ops n.kindAt := by
  induction ops generalizing n with
  | nil => exact ⟨h, rfl⟩
  | cons op ops ih =>
    obtain ⟨hordered, hkind⟩ := op.run_spec hlibrary h
    obtain ⟨hall, hregister⟩ := ih hordered
    refine ⟨hall, hregister.trans ?_⟩
    rw [hkind]
    rfl

theorem Ordered.resolve {n c : Node} {path : List StringId} (h : f.Ordered n)
    (hc : Node.resolve path n = some c) : f.Ordered c := by
  induction path generalizing n with
  | nil =>
    obtain rfl : n = c := Option.some.inj hc
    exact h
  | cons name path ih =>
    obtain ⟨child, hchild, hrest⟩ := Option.bind_eq_some_iff.mp hc
    obtain ⟨-, hall⟩ := h
    exact ih (hall child (List.mem_of_find?_eq_some hchild)) hrest

theorem kindAt_append {n c : Node} {path : List StringId} (hc : Node.resolve path n = some c)
    (name : StringId) :
    n.kindAt (path ++ [name]) = (c.getChild name).map Node.functionBlock := by
  induction path generalizing n with
  | nil =>
    obtain rfl : n = c := Option.some.inj hc
    rw [List.nil_append, Node.kindAt_cons]
    cases n.getChild name <;> rfl
  | cons name' path ih =>
    obtain ⟨child, hchild, hrest⟩ := Option.bind_eq_some_iff.mp hc
    rw [List.cons_append, Node.kindAt_cons, hchild]
    exact ih hrest

/-- **The children of containers.** Behind every sequence of creations and deletions the children
of every container are sorted strictly by their names, and for a name the binary search finds in a
container what the registry has of it: a child if it was created and has not been deleted since,
and nothing otherwise. -/
theorem children_found_iff (hlibrary : f.LibraryConstructs) {n : Node} (hn : f.Constructed n)
    (ops : List f.Operation) :
    f.Ordered (runAll ops n) ∧
      ∀ path c, Node.resolve path (runAll ops n) = some c →
        Table.Sorted f.addressOf c.getChildren ∧
        ∀ name, f.address name ≠ 0 →
          (f.getChild c name).map Node.functionBlock =
            registerAll ops n.kindAt (path ++ [name]) := by
  obtain ⟨hordered, hkind⟩ := runAll_spec hlibrary ops hn.ordered
  refine ⟨hordered, fun path c hc => ?_⟩
  have hcordered := hordered.resolve hc
  refine ⟨?_, fun name hname => ?_⟩
  · obtain ⟨hsorted, -⟩ := hcordered
    exact hsorted
  · rw [getChild_eq hcordered hname, ← hkind, kindAt_append hc]

/-- A program with one type, whose function blocks have nothing in them. -/
def withOneType : Firmware where
  address name := if name = "A" then 1 else if name = "B" then 2 else if name = "T" then 3 else 0
  address_inj := by
    intro a b
    split_ifs <;> simp_all
  fbTypeLib := [⟨"T", "", fun name => some (.fb ⟨name, .idle, none, [], []⟩ []),
    fun _ newFB => some newFB, some⟩]
  isResource d := d.name = "RES"

/-- The only type of the library. -/
theorem findTypeEntry_withOneType {id : StringId} {entry : CFBTypeEntry}
    (h : withOneType.findTypeEntry id = some entry) :
    (∀ name, entry.createFBInstance name = some (.fb ⟨name, .idle, none, [], []⟩ [])) ∧
      (∀ id newFB, entry.configureFB id newFB = some newFB) ∧ entry.initialized = some := by
  obtain ⟨hhead, -⟩ := Option.filter_eq_some_iff.mp h
  have hmem := (List.dropWhile_sublist _).subset (List.mem_of_mem_head? hhead)
  obtain rfl := List.mem_singleton.mp hmem
  exact ⟨fun _ => rfl, fun _ _ => rfl, rfl⟩

theorem createUninitialized_withOneType {name paTypeName : StringId} {paTypeHash : String}
    {entry : CFBTypeEntry} {newFB : Node}
    (h : withOneType.createUninitialized name paTypeName paTypeHash = .ok (entry, newFB)) :
    newFB = .fb ⟨name, .idle, none, [], []⟩ [] ∧ entry.initialized = some := by
  rw [createUninitialized] at h
  split at h
  · rename_i entry' hfind
    obtain ⟨hcreate, -, hinitialized⟩ := findTypeEntry_withOneType hfind
    rw [hcreate] at h
    split at h
    · cases h
    · cases h
      exact ⟨rfl, hinitialized⟩
  · rw [createGenericFB] at h
    split at h
    · cases h
    · rename_i entry' hfind
      obtain ⟨hcreate, hconfigure, hinitialized⟩ := findTypeEntry_withOneType hfind
      rw [hcreate] at h
      simp only [hconfigure] at h
      cases h
      exact ⟨rfl, hinitialized⟩

theorem withOneType_constructs : withOneType.LibraryConstructs := by
  rintro name paTypeName paTypeHash newFB hmade
  rw [createInstance] at hmade
  cases huninitialized : withOneType.createUninitialized name paTypeName paTypeHash with
  | error errorMSG =>
    rw [huninitialized] at hmade
    cases hmade
  | ok made =>
    obtain ⟨hnew, hinitialized⟩ := createUninitialized_withOneType huninitialized
    rw [huninitialized] at hmade
    dsimp only at hmade
    rw [hinitialized] at hmade
    cases hmade
    rw [hnew]
    exact ⟨rfl, .alone _⟩

/-- A function block is created in a container that is made for it, and is found there. -/
theorem children_found_after_creation :
    ((withOneType.getChild (.container "A" [.fb ⟨"B", .idle, none, [], []⟩ []]) "B").map
      Node.functionBlock) = some (some ⟨"B", .idle, none, [], []⟩) := by
  have hfound := (children_found_iff withOneType_constructs
    (.alone ⟨"RES", .idle, none, [], []⟩)
    [.create "T" "" ["A", "B"] (by decide), .create "T" "" ["A"] (by decide)]).2 ["A"]
    (.container "A" [.fb ⟨"B", .idle, none, [], []⟩ []]) rfl
  rw [hfound.2 "B" (by decide)]
  rfl

end Firmware

end Forte
