/-!
# Type trees

A type tree is a bounded, acyclic picture of a type at one point in time. Every node carries the
name of its type and, optionally, the display parts it is shown with; the rest depends on the kind
of the node. Three kinds are leaves: a primitive type, a *basic* type that was not expanded any
further, and a *reference*, whose expansion was suppressed.

The pieces of object and function types are parametrised by the type of their children, so that the
same structures describe a tree before and after its children are built.

An *optional slot*, that is, an optional property or parameter, says by its question mark that it
admits `undefined`; `Tree.stripUndefined` is the type that is shown in such a slot.
-/

namespace TypeLens

/-- A piece of rendered text with its token class. -/
structure Part where
  /-- The text. -/
  text : String
  /-- The token class. -/
  kind : String
deriving Repr, DecidableEq, Inhabited

/-- What every node of a tree carries. -/
structure Label where
  /-- The name of the type. -/
  name : String
  /-- The display parts stored with the node. -/
  parts : Option (List Part) := none
deriving Repr, DecidableEq, Inhabited

/-- A property of an object type. -/
structure Property (α : Type) where
  /-- The key, or an index signature in brackets. -/
  name : String
  /-- Whether the property may be absent. -/
  optional : Bool
  /-- Whether the property is read-only. -/
  readonly : Bool
  /-- The type of the property. -/
  type : α
deriving Repr, DecidableEq

/-- A parameter of a function type. -/
structure Parameter (α : Type) where
  /-- The name of the parameter. -/
  name : String
  /-- Whether the parameter may be left out. -/
  optional : Bool
  /-- Whether the parameter takes all remaining arguments. -/
  rest : Bool
  /-- The type of the parameter. -/
  type : α
deriving Repr, DecidableEq

/-- A call signature of a function type. -/
structure Signature (α : Type) where
  /-- The type of the result. -/
  result : α
  /-- The parameters in order. -/
  parameters : List (Parameter α)
deriving Repr, DecidableEq

/-- A bounded picture of a type. The excess counters say how many members a node left out. -/
inductive Tree where
  | primitive (label : Label)
  | basic (label : Label)
  | reference (label : Label)
  | union (label : Label) (members : List Tree) (excess : Int)
  | intersection (label : Label) (members : List Tree)
  | object (label : Label) (properties : List (Property Tree)) (excess : Int)
  | array (label : Label) (readonly : Bool) (element : Tree)
  | tuple (label : Label) (readonly : Bool) (elements : List Tree)
  | function (label : Label) (signatures : List (Signature Tree)) (excess : Int)
  | promise (label : Label) (value : Tree)
  | enumMember (label : Label) (member : String)
  | generic (label : Label) (arguments : List Tree)
deriving Repr, Inhabited

namespace Tree

/-- The label of a node. -/
def label : Tree → Label
  | primitive l | basic l | reference l | union l _ _ | intersection l _ | object l _ _
  | array l _ _ | tuple l _ _ | function l _ _ | promise l _ | enumMember l _ | generic l _ => l

/-- The node with another label. -/
def setLabel (l : Label) : Tree → Tree
  | primitive _ => primitive l
  | basic _ => basic l
  | reference _ => reference l
  | union _ ms e => union l ms e
  | intersection _ ms => intersection l ms
  | object _ ps e => object l ps e
  | array _ r t => array l r t
  | tuple _ r ts => tuple l r ts
  | function _ ss e => function l ss e
  | promise _ t => promise l t
  | enumMember _ m => enumMember l m
  | generic _ ts => generic l ts

/-- The name of the type a node shows. -/
def name (t : Tree) : String :=
  t.label.name

/-- The node with other display parts. -/
def setParts (parts : Option (List Part)) (t : Tree) : Tree :=
  t.setLabel ⟨t.name, parts⟩

@[simp]
theorem label_setLabel (l : Label) (t : Tree) : (t.setLabel l).label = l := by
  cases t <;> rfl

@[simp]
theorem setLabel_label (t : Tree) : t.setLabel t.label = t := by
  cases t <;> rfl

@[simp]
theorem name_setParts (parts : Option (List Part)) (t : Tree) :
    (t.setParts parts).name = t.name := by
  simp [setParts, name]

/-- Whether a node is a leaf that shows nothing but a name. -/
def isLeaf : Tree → Bool
  | primitive _ | basic _ | reference _ => true
  | _ => false

/-- Whether a node is rendered as `(...) => R`: a function with one signature and none left out. -/
def isArrow : Tree → Bool
  | function _ [_] e => e == 0
  | _ => false

/-- Whether a node is put in parentheses as the element of an array. -/
def bindsLoosely : Tree → Bool
  | union .. | intersection .. | function .. => true
  | _ => false

/-- The type shown in an optional slot: a union without its `undefined` members. A single member
that is left stands for itself; a union of nothing but `undefined` stays as it is. -/
def stripUndefined : Tree → Tree
  | union l ms e =>
    let kept := ms.filter fun m ↦ m.name != "undefined"
    if kept.length = ms.length ∨ kept.isEmpty then union l ms e
    else
      match kept with
      | [m] => if e = 0 then m else union ⟨l.name, none⟩ [m] e
      | kept => union ⟨l.name, none⟩ kept e
  | t => t

end Tree

/-- What a look-up at a position answers: the tree of a symbol's type and how it is declared. -/
structure TypeInfo where
  /-- The tree of the type. -/
  tree : Tree
  /-- What stands before the type in a declaration. -/
  declaration : String
  /-- The name of the symbol. -/
  name : String
  /-- The kind of the declaration. -/
  kind : Option String
deriving Repr, Inhabited

end TypeLens
