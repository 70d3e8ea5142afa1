import TypeLens.Tree.Basic
import TypeLens.Tree.Key

/-!
# The text of a type tree

`Tree.text` renders a tree on one line. Each form is written by a function of its own on the texts
of the pieces (`unionText`, `objectText`, ...), and the recursion over the tree only collects those
pieces. A union leaves out its `undefined` members in an optional slot; the flag of `Tree.textIn`
says whether the node stands in one, so the recursion stays on the pieces of the tree.

A function with one signature is written with an arrow, unless it is declared under a name
(`Tree.namedText`), and an arrow is put in parentheses inside `|` and `&`.
-/

namespace TypeLens

/-- The rendered member of a union. -/
structure Operand where
  /-- The name of the member's type. -/
  name : String
  /-- Whether the text is an arrow. -/
  arrow : Bool
  /-- The text of the member. -/
  text : String
deriving Repr, DecidableEq

/-- The text of an operand, an arrow in parentheses. -/
def Operand.closed (o : Operand) : String :=
  if o.arrow then "(" ++ o.text ++ ")" else o.text

/-- The rendered member of an intersection: the entries of an object, or a text. -/
inductive Segment where
  | entries (texts : List String) (excess : Int)
  | text (text : String)
deriving Repr, DecidableEq

/-- The rendered pieces of a signature. -/
structure SignatureText where
  /-- The parameters between the parentheses. -/
  parameters : String
  /-- The result type. -/
  result : String
deriving Repr, DecidableEq

/-- The word for members left out. -/
def moreText (count : Int) : String :=
  "... " ++ toString count ++ " more"

/-- Writes the two literals `true` and `false` of a union as one `boolean`, where the first of them
stands. -/
def foldBooleans (members : List String) : List String :=
  if "true" ∈ members ∧ "false" ∈ members then
    let isOther (m : String) : Bool := m != "true" && m != "false"
    members.takeWhile isOther ++ "boolean" :: (members.dropWhile isOther).filter isOther
  else members

/-- The text of a union. -/
def unionText (members : List String) (excess : Int) : String :=
  " | ".intercalate (foldBooleans members ++ if 0 < excess then [moreText excess] else [])

/-- The text of a union in a slot of either kind; an optional slot leaves out `undefined`. -/
def slotUnionText (optional : Bool) (operands : List Operand) (excess : Int) : String :=
  let all := operands.map Operand.closed
  let kept := operands.filter fun o ↦ o.name != "undefined"
  if !optional ∨ kept.length = operands.length ∨ kept.isEmpty then unionText all excess
  else
    match kept with
    | [o] => if excess = 0 then o.text else unionText [o.closed] excess
    | kept => unionText (kept.map Operand.closed) excess

/-- The text of an object with the given entries. -/
def objectText (entries : List String) (excess : Int) : String :=
  match entries ++ if 0 < excess then [moreText excess ++ ";"] else [] with
  | [] => "\x7b\x7d"
  | entries => "\x7b " ++ " ".intercalate entries ++ " \x7d"

/-- The entries of a segment. -/
def Segment.lines : Segment → List String
  | entries texts _ => texts
  | text _ => []

/-- The number of entries a segment leaves out. -/
def Segment.hidden : Segment → Int
  | entries _ excess => excess
  | text _ => 0

/-- The text of a segment that is no object. -/
def Segment.text? : Segment → Option String
  | entries .. => none
  | text s => some s

/-- Puts the merged object where the first object stands, and drops the others. -/
def placeMerged (merged : String) : List Segment → List String
  | [] => []
  | .text s :: segments => s :: placeMerged merged segments
  | .entries .. :: segments => merged :: segments.filterMap Segment.text?

/-- The text of an intersection. All its objects are written as one. -/
def intersectionText (segments : List Segment) : String :=
  let hidden := segments.foldr (fun s n ↦ s.hidden + n) 0
  let merged := objectText (segments.flatMap Segment.lines) hidden
  " & ".intercalate (placeMerged merged segments)

/-- The keyword of a read-only type. -/
def readonlyText (readonly : Bool) : String :=
  if readonly then "readonly " else ""

/-- The mark of an optional slot. -/
def optionalText (optional : Bool) : String :=
  if optional then "?" else ""

/-- The text of a property. -/
def propertyText (name : String) (optional readonly : Bool) (type : String) : String :=
  readonlyText readonly ++ Key.quote name ++ optionalText optional ++ ": " ++ type ++ ";"

/-- The text of a parameter. -/
def parameterText (name : String) (optional rest : Bool) (type : String) : String :=
  (if rest then "..." else "") ++ name ++ optionalText optional ++ ": " ++ type

/-- A signature with an arrow before its result. -/
def SignatureText.arrow (s : SignatureText) : String :=
  "(" ++ s.parameters ++ ") => " ++ s.result

/-- A signature with a colon before its result. -/
def SignatureText.colon (s : SignatureText) : String :=
  "(" ++ s.parameters ++ "): " ++ s.result

/-- The text of a function. A single signature stands alone, with an arrow if the function is
anonymous; several stand in braces. -/
def functionText (anonymous : Bool) (name : String) (signatures : List SignatureText)
    (excess : Int) : String :=
  let several :=
    "\x7b" ++ "; ".intercalate (signatures.map SignatureText.colon) ++ ";" ++
      (if 0 < excess then " " ++ moreText excess ++ ";" else "") ++ "\x7d"
  match signatures with
  | [] => name
  | [s] => if excess = 0 then if anonymous then s.arrow else s.colon else several
  | _ => several

/-- The text of an array. -/
def arrayText (readonly loose : Bool) (element : String) : String :=
  readonlyText readonly ++ (if loose then "(" ++ element ++ ")" else element) ++ "[]"

namespace Tree

mutual

/-- The text of a tree that stands in a slot, optional or not. -/
def textIn (optional : Bool) : Tree → String
  | primitive l | basic l | reference l => l.name
  | union _ ms e => slotUnionText optional (operands ms) e
  | intersection _ ms => intersectionText (segments ms)
  | object _ ps e => objectText (propertyTexts ps) e
  | array _ r t => arrayText r t.bindsLoosely (t.textIn false)
  | tuple _ r ts => readonlyText r ++ "[" ++ ", ".intercalate (texts ts) ++ "]"
  | function l ss e => functionText true l.name (signatureTexts ss) e
  | promise _ t => "Promise<" ++ t.textIn false ++ ">"
  | enumMember _ m => m
  | generic l ts => l.name ++ "<" ++ ", ".intercalate (texts ts) ++ ">"

/-- The texts of several trees. -/
def texts : List Tree → List String
  | [] => []
  | t :: ts => t.textIn false :: texts ts

/-- The rendered members of a union. -/
def operands : List Tree → List Operand
  | [] => []
  | t :: ts => ⟨t.name, t.isArrow, t.textIn false⟩ :: operands ts

/-- The rendered members of an intersection. -/
def segments : List Tree → List Segment
  | [] => []
  | t :: ts =>
    (match t with
      | object _ ps e => .entries (propertyTexts ps) e
      | t => .text (Operand.closed ⟨t.name, t.isArrow, t.textIn false⟩)) :: segments ts

/-- The texts of the properties of an object. -/
def propertyTexts : List (Property Tree) → List String
  | [] => []
  | p :: ps => propertyTextOf p :: propertyTexts ps

/-- The text of a property. -/
def propertyTextOf : Property Tree → String
  | ⟨name, optional, readonly, type⟩ => propertyText name optional readonly (type.textIn optional)

/-- The rendered signatures of a function. -/
def signatureTexts : List (Signature Tree) → List SignatureText
  | [] => []
  | s :: ss => signatureTextOf s :: signatureTexts ss

/-- The rendered pieces of a signature. -/
def signatureTextOf : Signature Tree → SignatureText
  | ⟨result, parameters⟩ => ⟨", ".intercalate (parameterTexts parameters), result.textIn false⟩

/-- The texts of the parameters of a signature. -/
def parameterTexts : List (Parameter Tree) → List String
  | [] => []
  | p :: ps => parameterTextOf p :: parameterTexts ps

/-- The text of a parameter. -/
def parameterTextOf : Parameter Tree → String
  | ⟨name, optional, rest, type⟩ => parameterText name optional rest (type.textIn optional)

end

/-- A tree as a rendered member of a union. -/
def operand (t : Tree) : Operand :=
  ⟨t.name, t.isArrow, t.textIn false⟩

/-- A tree as a rendered member of an intersection. -/
def segment : Tree → Segment
  | object _ ps e => .entries (propertyTexts ps) e
  | t => .text t.operand.closed

/-! The pieces of a node are rendered one by one. -/

theorem texts_eq_map (ts : List Tree) : texts ts = ts.map (textIn false) := by
  induction ts with
  | nil => rw [texts, List.map_nil]
  | cons t ts ih => rw [texts, ih, List.map_cons]

theorem operands_eq_map (ts : List Tree) : operands ts = ts.map operand := by
  induction ts with
  | nil => rw [operands, List.map_nil]
  | cons t ts ih => rw [operands, ih, List.map_cons, operand]

theorem segments_eq_map (ts : List Tree) : segments ts = ts.map segment := by
  induction ts with
  | nil => rw [segments, List.map_nil]
  | cons t ts ih =>
    rw [List.map_cons, ← ih]
    cases t <;> rfl

theorem propertyTexts_eq_map (ps : List (Property Tree)) :
    propertyTexts ps = ps.map propertyTextOf := by
  induction ps with
  | nil => rw [propertyTexts, List.map_nil]
  | cons p ps ih => rw [propertyTexts, ih, List.map_cons]

theorem signatureTexts_eq_map (ss : List (Signature Tree)) :
    signatureTexts ss = ss.map signatureTextOf := by
  induction ss with
  | nil => rw [signatureTexts, List.map_nil]
  | cons s ss ih => rw [signatureTexts, ih, List.map_cons]

theorem parameterTexts_eq_map (ps : List (Parameter Tree)) :
    parameterTexts ps = ps.map parameterTextOf := by
  induction ps with
  | nil => rw [parameterTexts, List.map_nil]
  | cons p ps ih => rw [parameterTexts, ih, List.map_cons]

/-- The text of a tree on one line. -/
def text (t : Tree) : String :=
  t.textIn false

/-- The text of a tree behind the name of a declared function. -/
def namedText : Tree → String
  | function l ss e => functionText false l.name (signatureTexts ss) e
  | t => t.text

/-- The text of a tree, in the form that its declaration asks for. -/
def textAs (anonymous : Bool) (t : Tree) : String :=
  if anonymous then t.text else t.namedText

end Tree

end TypeLens
