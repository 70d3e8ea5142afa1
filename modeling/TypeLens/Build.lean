import TypeLens.Graph.Oracle
import TypeLens.Options
import TypeLens.Tree.Parts

/-!
# Expanding types into trees

`Build.tree` expands a type of a graph into a tree. Only the members of objects cost a level of
depth; unions, intersections, signatures, arrays and tuples expand their parts at the same depth.
A cycle is broken by the list of types on the way from the root, which belongs to one branch: a
type seen in one branch is expanded again in another.

The expansion of one type is `node`, which takes the expansion of the types below as an argument.
It tries the forms a type can have one after the other, each a function that asks the oracle what it
needs and declines when the type is not of that form. `treeWithin` ties the knot on a budget of
levels; since each level adds a type to the way, the number of types not yet on it is enough, and
that is the budget of `tree`.
-/

namespace TypeLens.Build

open TypeLens.Graph

/-- A leaf of the given name without display parts. -/
def named (name : String) : Label :=
  ⟨name, none⟩

/-- Tries computations in order until one answers, and falls back on the last. -/
def firstOf {α : Type} : List (Asked (Option α)) → Asked α → Asked α
  | [], last => last
  | attempt :: attempts, last => do
    match ← attempt with
    | some a => pure a
    | none => firstOf attempts last

/-! ### Order of union members -/

/-- The rank of the members that are neither put first nor last. -/
def middleRank : Nat := 5

/-- The rank of a primitive type in a union: a few are put first, in this order, and `null` and
`undefined` last. -/
def primitiveRank : String → Nat
  | "string" => 0
  | "number" => 1
  | "bigint" => 2
  | "boolean" => 3
  | "symbol" => 4
  | "null" => 6
  | "undefined" => 7
  | _ => middleRank

section

variable (o : Oracle) (opts : Options)

/-- The rank of a type in a union. -/
def rank (t : TypeId) : Asked Nat := do
  if ← o.isPrimitive t then return primitiveRank (← o.typeName t) else return middleRank

/-- The members of a union in the order they are shown; members of equal rank keep their order. -/
def sortMembers (members : List TypeId) : Asked (List TypeId) := do
  let ranked ← members.mapM fun t ↦ do return (← rank o t, t)
  return (ranked.mergeSort fun a b ↦ a.1 ≤ b.1).map Prod.snd

/-! ### The forms of a type

The expansion of the types below is the argument `child`, which takes a type and its depth. -/

variable (child : TypeId → Int → Asked Tree)

/-- Expands a type argument; what could not be resolved becomes a leaf of the given name. -/
def argument (unresolved : String) (depth : Int) : Option TypeId → Asked Tree
  | some t => child t depth
  | none => pure (.basic (named unresolved))

/-- Expands a parameter. -/
def parameter (depth : Int) (a : Argument) : Asked (Parameter Tree) := do
  return ⟨a.name, a.isOptional, a.isRest, ← child a.type depth⟩

/-- Expands a signature, its result before its parameters. -/
def signature (depth : Int) (s : Callable) : Asked (Signature Tree) := do
  let result ← argument child "void" depth s.result
  return ⟨result, ← s.parameters.mapM (parameter child depth)⟩

/-- Expands an enum member. -/
def enumForm (t : TypeId) (name : String) : Asked (Option Tree) := do
  match ← o.enumMemberName t with
  | some member => return if member = "" then none else some (.enumMember (named name) member)
  | none => return none

/-- Expands a union. -/
def unionForm (t : TypeId) (name : String) (depth : Int) : Asked (Option Tree) := do
  match ← o.unionMembers t with
  | none | some [] => return none
  | some members =>
    let shown ← sortMembers o (members.take opts.maxUnionMembers)
    let trees ← shown.mapM (child · depth)
    return some (.union (named name) trees (members.length - opts.maxUnionMembers : Nat))

/-- Expands an intersection. -/
def intersectionForm (t : TypeId) (name : String) (depth : Int) : Asked (Option Tree) := do
  match ← o.intersectionMembers t with
  | none | some [] => return none
  | some members => return some (.intersection (named name) (← members.mapM (child · depth)))

/-- Expands a promise. -/
def promiseForm (t : TypeId) (name : String) (depth : Int) : Asked (Option Tree) := do
  if ← o.isPromise t then
    let arguments ← o.typeArguments t
    return some (.promise (named name) (← argument child "void" depth (arguments.head?.getD none)))
  else return none

/-- Expands a type with call signatures. -/
def functionForm (t : TypeId) (name : String) (depth : Int) : Asked (Option Tree) := do
  match ← o.callSignatures t with
  | [] => return none
  | signatures =>
    let below : Int := if opts.unwrapFunctions then depth else opts.maxDepth
    let shown ← (signatures.take opts.maxSignatures).mapM (signature child below)
    return some (.function (named name) shown (signatures.length - opts.maxSignatures : Nat))

/-- Expands an array. -/
def arrayForm (t : TypeId) (name : String) (depth : Int) : Asked (Option Tree) := do
  if ← o.isArray t then
    let below : Int := if opts.unwrapArrays then depth else opts.maxDepth
    let arguments ← o.typeArguments t
    let readonly ← o.isReadonly t
    return some (.array (named name) readonly
      (← argument child "any" below (arguments.head?.getD none)))
  else return none

/-- Expands a tuple. -/
def tupleForm (t : TypeId) (name : String) (depth : Int) : Asked (Option Tree) := do
  if ← o.isTuple t then
    let readonly ← o.isReadonly t
    let arguments ← o.typeArguments t
    return some (.tuple (named name) readonly (← arguments.mapM (argument child "unknown" depth)))
  else return none

/-- Expands an index signature as a property, after a check for cancellation. -/
def indexProperty (depth : Int) (s : IndexSignature) : Asked (Property Tree) := do
  o.poll
  return ⟨"[" ++ s.keyName ++ ": " ++ s.keyType ++ "]", false, s.readonly,
    ← child s.type (depth + 1)⟩

/-- Expands a member as a property, after a check for cancellation. -/
def memberProperty (depth : Int) (m : Member) : Asked (Property Tree) := do
  o.poll
  return ⟨m.name, m.isOptional, m.isReadonly, ← child m.type (depth + 1)⟩

/-- The number of entries an object shows at a depth. -/
def entryLimit (depth : Int) : Nat :=
  if 1 ≤ depth then opts.maxSubProperties else opts.maxProperties

/-- Expands an object: its index signatures first, then its members, up to the limit. -/
def object (t : TypeId) (name : String) (depth : Int) : Asked Tree := do
  let limit := entryLimit opts depth
  let all ← o.properties t
  let members := if opts.hidePrivate then all.filter Member.isPublic else all
  let indexes ← o.indexSignatures t
  let shownIndexes := indexes.take limit
  let indexEntries ← shownIndexes.mapM (indexProperty o child depth)
  let memberEntries ←
    (members.take (limit - shownIndexes.length)).mapM (memberProperty o child depth)
  return .object (named name) (indexEntries ++ memberEntries)
    (members.length + indexes.length - limit : Nat)

/-- Expands an instance of a generic type, an object or anything else. An instance of a skipped
generic type is a reference, one of an unwrapped generic type shows its arguments, and any other
shows them only when it is no object. -/
def genericForm (t : TypeId) (name : String) (depth : Int) : Asked Tree := do
  let target := (← o.genericTarget t).getD ""
  let arguments ← if target = "" then pure [] else o.typeArguments t
  let generic : Asked Tree := do
    return .generic (named target) (← arguments.mapM (argument child "unknown" depth))
  if !arguments.isEmpty && opts.skippedNames.contains target then
    return .reference (named (target ++ "<...>"))
  else if !arguments.isEmpty && opts.unwrappedGenerics.contains target then generic
  else if ← o.isObject t then object o opts child t name depth
  else if !arguments.isEmpty then generic
  else return .basic (named name)

/-- Expands a type of the given name. -/
def node (t : TypeId) (name : String) (depth : Int) : Asked Tree :=
  firstOf
    [enumForm o t name, unionForm o opts child t name depth, intersectionForm o child t name depth,
      promiseForm o child t name depth, functionForm o opts child t name depth,
      arrayForm o opts child t name depth, tupleForm o child t name depth]
    (genericForm o opts child t name depth)

end

/-! ### The recursion -/

/-- Whether a name spells out a type instead of naming it. -/
def isAnonymousName (name : String) : Bool :=
  name.toList.any fun c ↦ c == '{' || c == '[' || c == '('

/-- The leaf for a type that is already on the way from the root. -/
def cycleLeaf (name : String) : Tree :=
  .basic (named (if isAnonymousName name then "..." else name))

/-- Stores display parts with a node that has none, above the greatest depth. -/
def decorate (opts : Options) (depth : Int) (t : Tree) : Tree :=
  if opts.displayParts && depth < opts.maxDepth && t.label.parts.isNone then
    t.setParts (some t.builtParts)
  else t

/-- Decides whether a type is a leaf, and expands it otherwise. -/
def leafOr (o : Oracle) (opts : Options) (t : TypeId) (depth : Int) (way : List TypeId)
    (expand : String → Asked Tree) : Asked Tree := do
  let name ← o.typeName t
  if ← o.isPrimitive t then return .primitive (named name)
  else if opts.maxDepth ≤ depth then return .basic (named name)
  else if t ∈ way then return cycleLeaf name
  else if opts.skippedNames.contains name then return .reference (named name)
  else expand name

/-- Expands a type with at most `levels` levels below it. -/
def treeWithin (o : Oracle) (opts : Options) : (levels : Nat) → TypeId → (depth : Int) →
    (way : List TypeId) → Asked Tree
  | 0, t, depth, way =>
    decorate opts depth <$> leafOr o opts t depth way fun name ↦ pure (.basic (named name))
  | n + 1, t, depth, way =>
    decorate opts depth <$> leafOr o opts t depth way fun name ↦
      node o opts (fun t' depth' ↦ treeWithin o opts n t' depth' (t :: way)) t name depth

/-- The number of types that are not on the way. -/
def remaining (s : Snapshot) (way : List TypeId) : Nat :=
  (s.types.filter fun (id, _) ↦ !way.contains id).length

/-- Expands a type at a depth, below the types on the way. -/
def tree (o : Oracle) (opts : Options) (t : TypeId) (depth : Int) (way : List TypeId) :
    Asked Tree :=
  treeWithin o opts (remaining o.snapshot way) t depth way

end TypeLens.Build
