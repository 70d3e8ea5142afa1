import TypeLens.Graph.Position
import TypeLens.Graph.Snapshot
import TypeLens.Path

/-!
# Asking a type graph

The expansion of types never looks at a snapshot itself; it asks an `Oracle` one question at a time.
A question can fail in three ways, the constructors of `Stop`: the look-up is cancelled, the oracle
is broken for that kind of question, or the thing asked about does not exist.

`Asked` is the monad of questions. Its state counts how often the oracle was asked whether the
look-up is cancelled, and the count survives a failure. An oracle may be set to answer that question
with yes from some count on, and to be broken for one kind of question.
-/

namespace TypeLens.Graph

/-- The questions an oracle answers. -/
inductive Query where
  | typeName
  | isPrimitive
  | enumMemberName
  | unionMembers
  | intersectionMembers
  | isPromise
  | callSignatures
  | constructSignatures
  | isArray
  | isTuple
  | isReadonly
  | typeArguments
  | genericTarget
  | isObject
  | properties
  | indexSignatures
  | hasTypeNamed
  | symbolAt
  | aliasedSymbol
  | symbolName
  | symbolType
  | declaredType
  | declarationKind
  | isInstantiation
  | documentKey
  | documentText
  | syntaxRoot
  | cancellation
deriving Repr, DecidableEq, Inhabited

/-- Why a question was not answered. -/
inductive Stop where
  /-- The look-up was cancelled. -/
  | cancelled
  /-- The oracle is broken. -/
  | crashed
  /-- There is no type, symbol or document of this key. -/
  | missing (key : String)
deriving Repr, DecidableEq, Inhabited

/-- The text that tells a client about a cancelled look-up. -/
def cancelledMessage : String :=
  "Type lookup was cancelled."

/-- Computations that ask an oracle. The state is the number of cancellation checks so far. -/
abbrev Asked := ExceptT Stop (StateM Nat)

/-- A snapshot that answers questions. -/
structure Oracle where
  /-- The snapshot asked. -/
  snapshot : Snapshot
  /-- The absolute path of the directory that document paths start from. -/
  base : String
  /-- The number of the first cancellation check that is answered with yes. -/
  cancelFrom : Option Nat := none
  /-- The kind of question the oracle is broken for. -/
  broken : Option Query := none
deriving Repr, Inhabited

namespace Oracle

variable (o : Oracle)

/-- Answers a question that needs no look-up. -/
def answer {α : Type} (q : Query) (a : α) : Asked α :=
  if o.broken = some q then throw .crashed else pure a

/-- Answers a question about a type. -/
def ofType {α : Type} (q : Query) (id : TypeId) (f : TypeRecord → α) : Asked α :=
  if o.broken = some q then throw .crashed
  else
    match o.snapshot.type? id with
    | some r => pure (f r)
    | none => throw (.missing id)

/-- Answers a question about a symbol. -/
def ofSymbol {α : Type} (q : Query) (id : SymbolId) (f : SymbolRecord → α) : Asked α :=
  if o.broken = some q then throw .crashed
  else
    match o.snapshot.symbol? id with
    | some r => pure (f r)
    | none => throw (.missing id)

/-- Answers a question about a document. -/
def ofDocument {α : Type} (q : Query) (key : String) (f : Document → α) : Asked α :=
  if o.broken = some q then throw .crashed
  else
    match o.snapshot.document? key with
    | some d => pure (f d)
    | none => throw (.missing key)

/-! ### Cancellation -/

/-- Checks whether the look-up is cancelled, and stops it if it is. -/
def poll : Asked Unit := do
  if o.broken = some .cancellation then throw .crashed
  let count := (← get) + 1
  set count
  match o.cancelFrom with
  | some first => if first ≤ count then throw .cancelled
  | none => pure ()

/-- The oracle after a number of cancellation checks, for a look-up that counts from zero again. -/
def polled (count : Nat) : Oracle :=
  { o with cancelFrom := o.cancelFrom.map (· - count) }

/-! ### Types -/

/-- The name of a type. -/
def typeName (t : TypeId) : Asked String :=
  o.ofType .typeName t TypeRecord.name

/-- Whether a type is primitive. -/
def isPrimitive (t : TypeId) : Asked Bool :=
  o.ofType .isPrimitive t (·.category == .primitive)

/-- The qualified name of an enum member. -/
def enumMemberName (t : TypeId) : Asked (Option String) :=
  o.ofType .enumMemberName t TypeRecord.enumMemberName?

/-- The members of a union. -/
def unionMembers (t : TypeId) : Asked (Option (List TypeId)) :=
  o.ofType .unionMembers t fun r ↦ if r.category = .union then some r.members else none

/-- The members of an intersection. -/
def intersectionMembers (t : TypeId) : Asked (Option (List TypeId)) :=
  o.ofType .intersectionMembers t fun r ↦
    if r.category = .intersection then some r.members else none

/-- Whether a type is a promise. -/
def isPromise (t : TypeId) : Asked Bool :=
  o.ofType .isPromise t (·.category == .promise)

/-- The call signatures of a type. -/
def callSignatures (t : TypeId) : Asked (List Callable) :=
  o.ofType .callSignatures t (·.callSignatures.map SignatureRecord.callable)

/-- The construct signatures of a type. -/
def constructSignatures (t : TypeId) : Asked (List Callable) :=
  o.ofType .constructSignatures t (·.constructSignatures.map SignatureRecord.callable)

/-- Whether a type is an array. -/
def isArray (t : TypeId) : Asked Bool :=
  o.ofType .isArray t (·.category == .array)

/-- Whether a type is a tuple. -/
def isTuple (t : TypeId) : Asked Bool :=
  o.ofType .isTuple t (·.category == .tuple)

/-- Whether an array or tuple is read-only. -/
def isReadonly (t : TypeId) : Asked Bool :=
  o.ofType .isReadonly t TypeRecord.readonly

/-- The type arguments of a type. -/
def typeArguments (t : TypeId) : Asked (List (Option TypeId)) :=
  o.ofType .typeArguments t TypeRecord.typeArguments

/-- The name of the generic type a type is an instance of. -/
def genericTarget (t : TypeId) : Asked (Option String) :=
  o.ofType .genericTarget t TypeRecord.target

/-- Whether a type is an object. -/
def isObject (t : TypeId) : Asked Bool :=
  o.ofType .isObject t (·.category == .object)

/-- The members of an object. -/
def properties (t : TypeId) : Asked (List Member) :=
  o.ofType .properties t (·.properties.map PropertyRecord.member)

/-- The index signatures of an object. -/
def indexSignatures (t : TypeId) : Asked (List IndexSignature) :=
  o.ofType .indexSignatures t TypeRecord.indexSignatures

/-- Whether a type of this name occurs in the graph. -/
def hasTypeNamed (name : String) : Asked Bool :=
  o.answer .hasTypeNamed (o.snapshot.hasTypeNamed name)

/-! ### Symbols -/

/-- Follows alias links until there is none or it leads back to a symbol seen before. -/
def aliasFrom (s : Snapshot) : (budget : Nat) → (seen : List SymbolId) → SymbolId →
    Except SymbolId SymbolId
  | budget, seen, id =>
    match s.symbol? id with
    | none => .error id
    | some r =>
      match r.aliasOf with
      | none => .ok id
      | some next =>
        if next ∈ seen then .ok id
        else
          match budget with
          | 0 => .ok id
          | n + 1 => aliasFrom s n (next :: seen) next

/-- The symbol at a node. -/
def symbolAt (n : Located) : Asked (Option SymbolId) :=
  o.answer .symbolAt n.node.symbol

/-- The symbol an alias stands for. The chain of links has at most one step for each symbol. -/
def aliasedSymbol (id : SymbolId) : Asked SymbolId :=
  if o.broken = some .aliasedSymbol then throw .crashed
  else
    match aliasFrom o.snapshot o.snapshot.symbols.length [id] id with
    | .ok target => pure target
    | .error lost => throw (.missing lost)

/-- The name of a symbol. -/
def symbolName (id : SymbolId) : Asked String :=
  o.ofSymbol .symbolName id SymbolRecord.name

/-- The type of a symbol as a value. -/
def symbolType (id : SymbolId) : Asked TypeId :=
  o.ofSymbol .symbolType id SymbolRecord.type

/-- The type a symbol declares. -/
def declaredType (id : SymbolId) : Asked (Option TypeId) :=
  o.ofSymbol .declaredType id SymbolRecord.declaredType

/-- The kind of a symbol's declaration. -/
def declarationKind (id : SymbolId) : Asked (Option String) :=
  o.ofSymbol .declarationKind id SymbolRecord.declarationKind

/-- Whether a node names the class of a `new` expression. -/
def isInstantiation (n : Located) : Asked Bool :=
  o.answer .isInstantiation (n.parentKind == some "NewExpression")

/-! ### Documents -/

/-- The absolute path of a document. -/
def documentPath (path : String) : String :=
  Path.absolute o.base path

/-- The key of the document at a path: the path itself, or the first key that names the same
place. -/
def findDocument (path : String) : Option String :=
  let keys := o.snapshot.documents.map Prod.fst
  if path ∈ keys then some path
  else keys.find? fun key ↦ o.documentPath key == o.documentPath path

/-- The key of the document at a path. -/
def documentKey (path : String) : Asked (Option String) :=
  o.answer .documentKey (o.findDocument path)

/-- The text of a document. -/
def documentText (key : String) : Asked String :=
  o.ofDocument .documentText key Document.text

/-- The root of a document's syntax tree. -/
def syntaxRoot (key : String) : Asked Node :=
  o.ofDocument .syntaxRoot key Document.root

end Oracle

end TypeLens.Graph
