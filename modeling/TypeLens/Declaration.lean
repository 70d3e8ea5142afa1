import TypeLens.Text.Scan

/-!
# Declarations

A rendered type is introduced by the keyword of the declaration it belongs to. The form of a
declaration follows from the kind of its syntax node; kinds are open-ended names, so they stay
strings and `Form.ofKind` sorts them.
-/

namespace TypeLens.Declaration

open Text

/-- The ways a declaration is introduced. -/
inductive Form where
  | classForm
  | interfaceForm
  | aliasForm
  | functionForm
  | letForm
  | varForm
  | constForm
deriving Repr, DecidableEq

/-- The kinds introduced by `class`. -/
def classKinds : List String :=
  ["ClassDeclaration", "NewExpression"]

/-- The kinds introduced by `interface`. -/
def interfaceKinds : List String :=
  ["ExpressionWithTypeArguments", "InterfaceDeclaration", "QualifiedName"]

/-- The kinds introduced by `type`. -/
def aliasKinds : List String :=
  ["ArrayType", "ConstructorType", "ConstructSignature", "EnumDeclaration", "FunctionType",
    "IndexedAccessType", "IndexSignature", "IntersectionType", "MappedType", "PropertySignature",
    "ThisType", "TupleType", "TypeAliasDeclaration", "TypeAssertionExpression", "TypeLiteral",
    "TypeOperator", "TypePredicate", "TypeQuery", "TypeReference", "UnionType"]

/-- The kinds introduced by `function`. -/
def functionKinds : List String :=
  ["FunctionDeclaration", "FunctionKeyword", "MethodDeclaration", "MethodSignature", "GetAccessor",
    "SetAccessor", "Constructor"]

/-- The kinds that declare a variable; such a symbol has no type declared under its own name. -/
def variableKinds : List String :=
  ["VariableDeclaration", "LetKeyword", "VarKeyword", "ConstKeyword"]

/-- The form of a declaration of a given kind; what is not known is a constant. -/
def Form.ofKind (kind : Option String) : Form :=
  match kind with
  | none => .constForm
  | some k =>
    if k ∈ classKinds then .classForm
    else if k ∈ interfaceKinds then .interfaceForm
    else if k ∈ aliasKinds then .aliasForm
    else if k ∈ functionKinds then .functionForm
    else if k = "LetKeyword" then .letForm
    else if k = "VarKeyword" then .varForm
    else .constForm

/-- What stands before the type in a declaration of `name`. -/
def Form.opening (name : String) : Form → String
  | .classForm => "class " ++ name ++ " "
  | .interfaceForm => "interface " ++ name ++ " "
  | .aliasForm => "type " ++ name ++ " = "
  | .functionForm => "function " ++ name
  | .letForm => "let " ++ name ++ ": "
  | .varForm => "var " ++ name ++ ": "
  | .constForm => "const " ++ name ++ ": "

/-- The module a quoted name stands for: the name without its quotes, from the last `node_modules/`
on. A name is quoted when it has a quote at each end. -/
def quotedModule? (name : String) : Option String :=
  let cs := name.toList
  if 2 ≤ cs.length ∧ cs.head? = some '"' ∧ cs.getLast? = some '"' then
    let path := (((cs.dropWhile (· == '"')).reverse).dropWhile (· == '"')).reverse
    match cutLast? "node_modules/".toList path with
    | some (_, package) => some (.ofList package)
    | none => some (.ofList path)
  else none

/-- The opening of the declaration of `name`, whose declaration has the given kind. -/
def opening (kind : Option String) (name : String) : String :=
  match quotedModule? name with
  | some path => "typeof import(\"" ++ path ++ "\"): "
  | none => (Form.ofKind kind).opening name

end TypeLens.Declaration
