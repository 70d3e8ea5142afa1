import TypeLens.Decimal.Text
import TypeLens.Graph.Snapshot
import TypeLens.Json.Basic
import TypeLens.Text.Number

/-!
# The node at a position

`Node.descendants` lists the nodes below a root, parents before their children, each with the way
to it and the kind of its parent. `Node.resolve` goes through that list and keeps the best node so
far: a node that contains the range replaces the best one when it lies inside it, or when the range
is empty and the node begins exactly where the best one ends. End-of-file tokens never win.
-/

namespace TypeLens.Graph

/-- A node within a tree. -/
structure Located where
  /-- The positions among their siblings of the nodes on the way from the root. -/
  path : List Nat
  /-- The kind of the node's parent; the root has none. -/
  parentKind : Option String
  /-- The node. -/
  node : Node
deriving Repr, Inhabited

/-- A range of positions, in order and not negative. -/
structure Range where
  /-- The first position. -/
  start : Nat
  /-- The last position. -/
  stop : Nat
deriving Repr, DecidableEq, Inhabited

/-- The range between two positions in either order; negative positions count as zero. -/
def Range.between (a b : Int) : Range :=
  if b < a then ⟨b.toNat, a.toNat⟩ else ⟨a.toNat, b.toNat⟩

/-! ### Ranges as structured data -/

/-- Why a value is no range. -/
inductive Range.ReadError where
  /-- A text that is no integer. -/
  | numeral (error : Text.IntegerError)
  /-- A value that is no number. -/
  | notNumber
  /-- Fewer than two positions. -/
  | tooShort
deriving Repr, DecidableEq

/-- Reads a position: a number, of which the integer part counts, a truth value or a numeral. -/
def Range.readPosition : Json → Except Range.ReadError Int
  | .int n => .ok n
  | .bool b => .ok (if b then 1 else 0)
  | .float x => .ok (Decimal.truncate x)
  | .str s => (Text.integer? s).mapError .numeral
  | _ => .error .notNumber

/-- Reads a range from its first two positions; further ones are ignored. -/
def Range.read (v : Json) : Except Range.ReadError Range :=
  let positions : Except Range.ReadError (List Json) :=
    match v with
    | .arr items => .ok items
    | .str s => .ok (s.toList.map fun c ↦ .str (.ofList [c]))
    | _ => .error .notNumber
  positions.bind fun items ↦
    match items with
    | a :: rest =>
      (readPosition a).bind fun start ↦
        match rest with
        | b :: _ => (readPosition b).map fun stop ↦ .between start stop
        | [] => .error .tooShort
    | [] => .error .tooShort

namespace Node

mutual

/-- The node and the nodes below it, where the way to the node is given last step first. -/
def locateFrom (path : List Nat) (parentKind : Option String) : Node → List Located
  | ⟨kind, start, stop, symbol, children⟩ =>
    ⟨path.reverse, parentKind, ⟨kind, start, stop, symbol, children⟩⟩ ::
      locateChildren path kind 0 children

/-- The nodes of the children from a position on. -/
def locateChildren (path : List Nat) (kind : String) : (position : Nat) → List Node → List Located
  | _, [] => []
  | i, n :: ns => n.locateFrom (i :: path) (some kind) ++ locateChildren path kind (i + 1) ns

end

/-- The root of a tree as a located node. -/
def located (root : Node) : Located :=
  ⟨[], none, root⟩

/-- The nodes below a root, parents before their children. -/
def descendants (root : Node) : List Located :=
  locateChildren [] root.kind 0 root.children

/-- Whether the span of a node contains a range. -/
def contains (n : Node) (r : Range) : Bool :=
  n.start ≤ r.start && r.stop ≤ n.stop

/-- Whether a node is preferred to the best node so far. -/
def improves (r : Range) (best n : Node) : Bool :=
  let nested := best.start ≤ n.start && n.stop ≤ best.stop
  let touching := best.stop == r.start && best.start < r.start && r.start == n.start
  nested || touching

/-- One step of the search: keeps the better of two nodes. -/
def better (eofKinds : List String) (r : Range) (best n : Located) : Located :=
  if n.node.contains r && !eofKinds.contains n.node.kind && improves r best.node n.node then n
  else best

/-- The kinds of the tokens that mark the end of a file. -/
def endOfFileKinds : List String :=
  ["EndOfFileToken"]

/-- The most specific node whose span contains a range. -/
def resolve (eofKinds : List String) (root : Node) (r : Range) : Located :=
  root.descendants.foldl (better eofKinds r) root.located

end Node

end TypeLens.Graph
