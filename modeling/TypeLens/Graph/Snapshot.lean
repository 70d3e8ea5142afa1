/-!
# Type graph snapshots

A snapshot is the type graph of a project at one point in time: types and symbols under string
identifiers, and the syntax trees of the documents. Types refer to each other by identifier, so the
graph may be cyclic.

The records are the snapshot's own. What the expansion of types asks for is answered in terms of
members, parameters and signatures with their declarations; the functions at the end make those
from the records.
-/

namespace TypeLens.Graph

/-- The identifier of a type. -/
abbrev TypeId := String

/-- The identifier of a symbol. -/
abbrev SymbolId := String

/-- The category of a type. -/
inductive Category where
  | primitive
  | enumMember
  | union
  | intersection
  | promise
  | function
  | array
  | tuple
  | object
  | generic
  | other
deriving Repr, DecidableEq, Inhabited

/-- A property of a type. -/
structure PropertyRecord where
  /-- The key. -/
  name : String
  /-- The type of the property. -/
  type : TypeId
  /-- Whether the property may be absent. -/
  optional : Bool := false
  /-- Whether the property is read-only. -/
  readonly : Bool := false
  /-- The modifiers it is declared with. -/
  modifiers : List String := []
  /-- The kind of its declaration. -/
  declarationKind : String := "PropertySignature"
  /-- Whether the property has no declaration. -/
  synthetic : Bool := false
deriving Repr, DecidableEq, Inhabited

/-- An index signature of a type. -/
structure IndexSignature where
  /-- The name of the key. -/
  keyName : String := "key"
  /-- The type of the key, as text. -/
  keyType : String := "string"
  /-- The type of the values. -/
  type : TypeId
  /-- Whether the values are read-only. -/
  readonly : Bool := false
deriving Repr, DecidableEq, Inhabited

/-- A parameter of a signature. -/
structure ParameterRecord where
  /-- The name of the parameter. -/
  name : String
  /-- The type of the parameter. -/
  type : TypeId
  /-- Whether the parameter may be left out. -/
  optional : Bool := false
  /-- Whether the parameter takes all remaining arguments. -/
  rest : Bool := false
deriving Repr, DecidableEq, Inhabited

/-- A signature of a type. -/
structure SignatureRecord where
  /-- The parameters in order. -/
  parameters : List ParameterRecord := []
  /-- The result type, if it is known. -/
  returnType : Option TypeId := none
deriving Repr, DecidableEq, Inhabited

/-- A type. -/
structure TypeRecord where
  /-- The name of the type. -/
  name : String
  /-- The category of the type. -/
  category : Category := .other
  /-- The members of a union or intersection. -/
  members : List TypeId := []
  /-- The qualified name of an enum member. -/
  member : Option String := none
  /-- Whether an array or tuple is read-only. -/
  readonly : Bool := false
  /-- The name of the generic type this is an instance of. -/
  target : Option String := none
  /-- The type arguments; an argument that could not be resolved is absent. -/
  typeArguments : List (Option TypeId) := []
  /-- The properties in order. -/
  properties : List PropertyRecord := []
  /-- The index signatures in order. -/
  indexSignatures : List IndexSignature := []
  /-- The call signatures in order. -/
  callSignatures : List SignatureRecord := []
  /-- The construct signatures in order. -/
  constructSignatures : List SignatureRecord := []
deriving Repr, DecidableEq, Inhabited

/-- A symbol. -/
structure SymbolRecord where
  /-- The name of the symbol. -/
  name : String
  /-- The type of the symbol as a value. -/
  type : TypeId
  /-- The type the symbol declares. -/
  declaredType : Option TypeId := none
  /-- The kind of the symbol's declaration. -/
  declarationKind : Option String := none
  /-- The symbol this one is an alias of. -/
  aliasOf : Option SymbolId := none
deriving Repr, DecidableEq, Inhabited

/-- A node of a document's syntax tree. The span counts characters; its end is not included. -/
structure Node where
  /-- The kind of the node. -/
  kind : String
  /-- The first position of the span. -/
  start : Nat
  /-- The position behind the span. -/
  stop : Nat
  /-- The symbol the node stands for. -/
  symbol : Option SymbolId := none
  /-- The children in order. -/
  children : List Node := []
deriving Repr, Inhabited

/-- A document. -/
structure Document where
  /-- The text of the document. -/
  text : String
  /-- The root of its syntax tree. -/
  root : Node
deriving Repr, Inhabited

/-- A type graph snapshot. The entries of each map have distinct keys, in the order of the file. -/
structure Snapshot where
  /-- The version of the format. -/
  version : Int := 1
  /-- The types. -/
  types : List (TypeId × TypeRecord) := []
  /-- The symbols. -/
  symbols : List (SymbolId × SymbolRecord) := []
  /-- The documents by path. -/
  documents : List (String × Document) := []
deriving Repr, Inhabited

/-! ### Declarations -/

/-- One of the declarations of a member or parameter. -/
structure DeclarationSite where
  /-- The kind of the declaration. -/
  kind : String
  /-- Its modifiers. -/
  modifiers : List String := []
  /-- Whether it has a question mark. -/
  question : Bool := false
  /-- Whether it has three dots. -/
  dots : Bool := false
deriving Repr, DecidableEq, Inhabited

/-- A member of an object type. -/
structure Member where
  /-- The key. -/
  name : String
  /-- The type of the member. -/
  type : TypeId
  /-- The declarations, if there are any. -/
  declarations : Option (List DeclarationSite) := none
deriving Repr, DecidableEq, Inhabited

/-- A parameter with its declarations. -/
structure Argument where
  /-- The name of the parameter. -/
  name : String
  /-- The type of the parameter. -/
  type : TypeId
  /-- The declarations, if there are any. -/
  declarations : Option (List DeclarationSite) := none
deriving Repr, DecidableEq, Inhabited

/-- A signature whose parameters carry their declarations. -/
structure Callable where
  /-- The result type, if it is known. -/
  result : Option TypeId
  /-- The parameters in order. -/
  parameters : List Argument := []
deriving Repr, DecidableEq, Inhabited

namespace Member

/-- The kinds of declarations whose modifiers can hide a member. -/
def hidingKinds : List String :=
  ["MethodDeclaration", "MethodSignature", "PropertyDeclaration", "PropertySignature"]

/-- The kinds of declarations that can make a member read-only. -/
def readonlyKinds : List String :=
  ["PropertyDeclaration", "PropertySignature", "GetAccessor", "SetAccessor", "Parameter"]

/-- The kinds of declarations that can make a member optional. -/
def optionalKinds : List String :=
  ["PropertyDeclaration", "PropertySignature"]

/-- Whether a name is private by convention. -/
def hasPrivateName (m : Member) : Bool :=
  match m.name.toList with
  | c :: _ => c == '_' || c == '#'
  | [] => false

/-- Whether a declaration hides its member. -/
def hides (d : DeclarationSite) : Bool :=
  hidingKinds.contains d.kind &&
    (d.modifiers.contains "private" || d.modifiers.contains "protected")

/-- Whether a member is visible: its name is not private, and not all of its declarations hide
it. -/
def isPublic (m : Member) : Bool :=
  if m.hasPrivateName then false
  else
    match m.declarations with
    | none | some [] => true
    | some ds => !ds.all hides

/-- Whether one of the declarations makes a member read-only. -/
def isReadonly (m : Member) : Bool :=
  (m.declarations.getD []).any fun d ↦
    readonlyKinds.contains d.kind && d.modifiers.contains "readonly"

/-- Whether one of the declarations makes a member optional. -/
def isOptional (m : Member) : Bool :=
  (m.declarations.getD []).any fun d ↦ optionalKinds.contains d.kind && d.question

end Member

namespace Argument

/-- Whether a parameter may be left out. -/
def isOptional (a : Argument) : Bool :=
  (a.declarations.getD []).any DeclarationSite.question

/-- Whether a parameter takes all remaining arguments. -/
def isRest (a : Argument) : Bool :=
  (a.declarations.getD []).any DeclarationSite.dots

end Argument

/-- A property as a member with at most one declaration. -/
def PropertyRecord.member (p : PropertyRecord) : Member :=
  if p.synthetic then ⟨p.name, p.type, none⟩
  else
    let modifiers :=
      if p.readonly && !p.modifiers.contains "readonly" then p.modifiers ++ ["readonly"]
      else p.modifiers
    ⟨p.name, p.type, some [⟨p.declarationKind, modifiers, p.optional, false⟩]⟩

/-- A parameter with its declaration. -/
def ParameterRecord.argument (p : ParameterRecord) : Argument :=
  ⟨p.name, p.type, some [⟨"Parameter", [], p.optional, p.rest⟩]⟩

/-- A signature with the declarations of its parameters. -/
def SignatureRecord.callable (s : SignatureRecord) : Callable :=
  ⟨s.returnType, s.parameters.map ParameterRecord.argument⟩

/-! ### References -/

namespace TypeRecord

/-- The qualified name of an enum member, or its plain name if it has none. -/
def enumMemberName? (r : TypeRecord) : Option String :=
  if r.category = .enumMember then
    match r.member with
    | some m => some (if m = "" then r.name else m)
    | none => some r.name
  else none

/-- The types a signature refers to. -/
def signatureReferences (s : SignatureRecord) : List TypeId :=
  s.returnType.toList ++ s.parameters.map ParameterRecord.type

/-- The types a type refers to. -/
def references (r : TypeRecord) : List TypeId :=
  r.members ++ r.typeArguments.filterMap id ++ r.properties.map PropertyRecord.type ++
    r.indexSignatures.map IndexSignature.type ++
    (r.callSignatures ++ r.constructSignatures).flatMap signatureReferences

end TypeRecord

namespace Node

mutual

/-- The node and all nodes below it, parents before their children. -/
def walk : Node → List Node
  | ⟨kind, start, stop, symbol, children⟩ =>
    ⟨kind, start, stop, symbol, children⟩ :: walkAll children

/-- The nodes of several trees. -/
def walkAll : List Node → List Node
  | [] => []
  | n :: ns => n.walk ++ walkAll ns

end

end Node

namespace Snapshot

/-- A type by its identifier. -/
def type? (s : Snapshot) (id : TypeId) : Option TypeRecord :=
  s.types.lookup id

/-- A symbol by its identifier. -/
def symbol? (s : Snapshot) (id : SymbolId) : Option SymbolRecord :=
  s.symbols.lookup id

/-- A document by its path. -/
def document? (s : Snapshot) (path : String) : Option Document :=
  s.documents.lookup path

/-- Whether a type or the target of a generic type has this name. -/
def hasTypeNamed (s : Snapshot) (name : String) : Bool :=
  s.types.any fun (_, r) ↦ r.name == name || (r.target == some name && name != "")

/-- The references of types to types that do not exist. -/
def danglingTypes (s : Snapshot) : List String :=
  s.types.flatMap fun (id, r) ↦
    (r.references.filter fun ref ↦ (s.type? ref).isNone).map fun ref ↦
      "type " ++ id ++ " -> " ++ ref

/-- The references of symbols to types and symbols that do not exist. -/
def danglingSymbols (s : Snapshot) : List String :=
  s.symbols.flatMap fun (id, r) ↦
    ((r.type :: r.declaredType.toList).filter (fun ref ↦ (s.type? ref).isNone) ++
      r.aliasOf.toList.filter fun ref ↦ (s.symbol? ref).isNone).map fun ref ↦
      "symbol " ++ id ++ " -> " ++ ref

/-- The references of nodes to symbols that do not exist. -/
def danglingNodes (s : Snapshot) : List String :=
  s.documents.flatMap fun (path, d) ↦
    d.root.walk.flatMap fun n ↦
      (n.symbol.toList.filter fun ref ↦ (s.symbol? ref).isNone).map fun ref ↦
        "node " ++ path ++ "@" ++ toString n.start ++ " -> " ++ ref

/-- All references to what does not exist. -/
def dangling (s : Snapshot) : List String :=
  s.danglingTypes ++ s.danglingSymbols ++ s.danglingNodes

end Snapshot

end TypeLens.Graph
