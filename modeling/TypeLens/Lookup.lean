import TypeLens.Build
import TypeLens.Declaration
import TypeLens.Layout
import TypeLens.Tree.Text

/-!
# Looking up the type at a position

A look-up finds the node at a position, follows its symbol through aliases, and expands the symbol's
type. It answers nothing when there is nothing to show at the position, and also when the oracle
fails on the way; only a cancellation stops it with an error, so a tree that is answered is
complete.

A class named in a `new` expression is shown as its constructor.
-/

namespace TypeLens.Lookup

open TypeLens.Graph

/-- Answers nothing when the oracle fails; a cancellation stays an error. -/
def tolerating {α : Type} (m : Asked (Option α)) : Asked (Option α) :=
  tryCatch m fun
    | .cancelled => throw .cancelled
    | _ => pure none

section

variable (o : Oracle) (opts : Options)

/-- The constructor of a class as a function: the parameters of its first construct signature, and
the class itself as its result. -/
def constructor (name : String) (s : Callable) : Asked Tree := do
  let parameters ← s.parameters.mapM (Build.parameter (fun t d ↦ Build.tree o opts t d []) 0)
  return .function (Build.named name) [⟨.reference (Build.named name), parameters⟩] 0

/-- The construct signatures of a class that is named in a `new` expression. -/
def instantiated (n : Located) (t : TypeId) (kind : String) : Asked (List Callable) := do
  if kind = "ClassDeclaration" then
    if ← o.isInstantiation n then o.constructSignatures t else return []
  else return []

/-- The type that is shown for a symbol: the type it declares, unless it is a variable. -/
def shownType (symbol : SymbolId) (declared : Option String) (t : TypeId) : Asked TypeId := do
  if declared.any Declaration.variableKinds.contains then return t
  else return (← o.declaredType symbol).getD t

/-- The kind of declaration a symbol is shown with; without one it is shown as a constant. -/
def shownKind : Option String → String
  | none | some "" => "ConstKeyword"
  | some kind => kind

/-- The name a symbol is shown under: its own, or that of its type if it has none. -/
def shownName (symbol : SymbolId) (t : TypeId) : Asked String := do
  let own ← o.symbolName symbol
  if own = "" then o.typeName t else return own

/-- The answer for the symbol at a node. -/
def ofSymbol (n : Located) (symbol : SymbolId) : Asked TypeInfo := do
  let symbol ← o.aliasedSymbol symbol
  let t ← o.symbolType symbol
  let declared ← o.declarationKind symbol
  let kind := shownKind declared
  let name ← shownName o symbol t
  if (← instantiated o n t kind).isEmpty then
    let tree ← Build.tree o opts (← shownType o symbol declared t) 0 []
    return ⟨tree, Declaration.opening (some kind) name, name, some kind⟩
  else
    match ← o.constructSignatures t with
    | [] => throw .crashed
    | s :: _ =>
      let tree ← constructor o opts name s
      return ⟨tree, Declaration.opening (some "Constructor") name, name, some "Constructor"⟩

/-- The answer at a position of a syntax tree, from an oracle that must not fail. -/
def strictlyAt (root : Node) (position : Int) : Asked (Option TypeInfo) := do
  let n := root.resolve Node.endOfFileKinds (.between position position)
  if n.path.isEmpty then return none
  match ← o.symbolAt n with
  | none => return none
  | some symbol => return some (← ofSymbol o opts n symbol)

/-- The answer at a position of a syntax tree. -/
def atPosition (root : Node) (position : Int) : Asked (Option TypeInfo) :=
  tolerating (strictlyAt o opts root position)

/-- The answer at a position of a file. -/
def inFile (file : String) (position : Int) : Asked (Option TypeInfo) := do
  match ← o.documentKey file with
  | none => return none
  | some key => atPosition o opts (← o.syntaxRoot key) position

end

end TypeLens.Lookup

namespace TypeLens.TypeInfo

/-- The declaration of the symbol with its type laid out. -/
def rendered (info : TypeInfo) (indentation : Int) : String :=
  let anonymous := !info.kind.any Declaration.functionKinds.contains
  info.declaration ++ Layout.pretty (info.tree.textAs anonymous) indentation

end TypeLens.TypeInfo
