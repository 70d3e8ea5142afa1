import TypeLens.Tree.Terminal

/-!
# Display parts of a type tree

Display parts are the text of a tree cut into classified tokens. A node shows the parts stored with
it, if it stores any; otherwise its parts are made from those of its children (`Tree.partsIn`).
`Tree.builtParts` makes the parts of a node without looking at those stored with the node itself.

As for plain text, the flag of `Tree.partsIn` says whether the node stands in an optional slot. A
union that loses its `undefined` members there no longer shows the parts stored with it.
-/

namespace TypeLens

/-- The display parts of a member of a union. -/
structure OperandParts where
  /-- The name of the member's type. -/
  name : String
  /-- Whether the member is a leaf. -/
  leaf : Bool
  /-- Whether the member is an arrow. -/
  arrow : Bool
  /-- The parts of the member. -/
  parts : List Part
deriving Repr, DecidableEq

namespace OperandParts

/-- The parts of an operand, an arrow in parentheses. -/
def closed (o : OperandParts) : List Part :=
  if o.arrow then .punctuation "(" :: o.parts ++ [.punctuation ")"] else o.parts

/-- Whether an operand is a leaf of the given name. -/
def isLiteral (name : String) (o : OperandParts) : Bool :=
  o.leaf && o.name == name

/-- Whether an operand is one of the two truth values. -/
def isTruth (o : OperandParts) : Bool :=
  o.isLiteral "true" || o.isLiteral "false"

end OperandParts

/-- The parts of a member of an intersection: the entries of an object, or its parts. -/
inductive SegmentParts where
  | entries (entries : List (List Part)) (excess : Int)
  | parts (parts : List Part)
deriving Repr, DecidableEq

/-- The parts of a signature. -/
structure SignatureParts where
  /-- The parts of each parameter. -/
  parameters : List (List Part)
  /-- The parts of the result type. -/
  result : List Part
deriving Repr, DecidableEq

/-- The parts that stand for members left out. -/
def moreParts (count : Int) : List Part :=
  [.punctuation "...", .space, .plain (toString count ++ " more")]

/-- A colon and a space. -/
def colonParts : List Part :=
  [.punctuation ":", .space]

/-- Writes the two truth values of a union as one `boolean`, where the first of them stands. -/
def foldTruths (operands : List OperandParts) : List (List Part) :=
  if operands.any (·.isLiteral "true") && operands.any (·.isLiteral "false") then
    (operands.takeWhile fun o ↦ !o.isTruth).map OperandParts.closed ++ [.keyword "boolean"] ::
      ((operands.dropWhile fun o ↦ !o.isTruth).filter fun o ↦ !o.isTruth).map OperandParts.closed
  else operands.map OperandParts.closed

/-- The parts of a union. -/
def unionParts (operands : List OperandParts) (excess : Int) : List Part :=
  interleave [.space, .operator "|", .space]
    (foldTruths operands ++ if 0 < excess then [moreParts excess] else [])

/-- The parts stored with a node, or else those given. -/
def Label.shown (l : Label) (built : List Part) : List Part :=
  match l.parts with
  | some (p :: ps) => p :: ps
  | _ => built

/-- The parts of a union in a slot of either kind; an optional slot leaves out `undefined`. -/
def slotUnionParts (optional : Bool) (l : Label) (operands : List OperandParts) (excess : Int) :
    List Part :=
  let kept := operands.filter fun o ↦ o.name != "undefined"
  if !optional ∨ kept.length = operands.length ∨ kept.isEmpty then
    l.shown (unionParts operands excess)
  else
    match kept with
    | [o] => if excess = 0 then o.parts else unionParts [o] excess
    | kept => unionParts kept excess

/-- The parts of an object with the given entries. -/
def objectParts (entries : List (List Part)) (excess : Int) : List Part :=
  if entries.isEmpty ∧ excess = 0 then [.punctuation "\x7b", .punctuation "\x7d"]
  else
    .punctuation "\x7b" :: .space :: entries.flatten ++
      (if 0 < excess then moreParts excess ++ [.punctuation ";", .space] else []) ++
      [.punctuation "\x7d"]

/-- The entries of a segment. -/
def SegmentParts.lines : SegmentParts → List (List Part)
  | entries es _ => es
  | parts _ => []

/-- The number of entries a segment leaves out. -/
def SegmentParts.hidden : SegmentParts → Int
  | entries _ excess => excess
  | parts _ => 0

/-- The parts of a segment that is no object. -/
def SegmentParts.parts? : SegmentParts → Option (List Part)
  | entries .. => none
  | parts ps => some ps

/-- Puts the merged object where the first object stands, and drops the others. -/
def placeMergedParts (merged : List Part) : List SegmentParts → List (List Part)
  | [] => []
  | .parts ps :: segments => ps :: placeMergedParts merged segments
  | .entries .. :: segments => merged :: segments.filterMap SegmentParts.parts?

/-- The parts of an intersection. All its objects are shown as one. -/
def intersectionParts (segments : List SegmentParts) : List Part :=
  let hidden := segments.foldr (fun s n ↦ s.hidden + n) 0
  let merged := objectParts (segments.flatMap SegmentParts.lines) hidden
  interleave [.space, .operator "&", .space] (placeMergedParts merged segments)

/-- The parts of the `readonly` keyword. -/
def readonlyParts (readonly : Bool) : List Part :=
  if readonly then [.keyword "readonly", .space] else []

/-- The parts of the mark of an optional slot. -/
def optionalParts (optional : Bool) : List Part :=
  if optional then [.punctuation "?"] else []

/-- The parts of a property. -/
def propertyParts (name : String) (optional readonly : Bool) (type : List Part) : List Part :=
  readonlyParts readonly ++ .propertyName (Key.quote name) :: optionalParts optional ++
    colonParts ++ type ++ [.punctuation ";", .space]

/-- The parts of a parameter. -/
def parameterParts (name : String) (optional rest : Bool) (type : List Part) : List Part :=
  (if rest then [.punctuation "..."] else []) ++ .parameterName name :: optionalParts optional ++
    colonParts ++ type

/-- The parts of a signature, with an arrow or a colon before its result. -/
def SignatureParts.shown (arrow : Bool) (s : SignatureParts) : List Part :=
  .punctuation "(" :: interleave commaParts s.parameters ++ .punctuation ")" ::
    (if arrow then [.space, .punctuation "=>", .space] else colonParts) ++ s.result

/-- The parts of a function. -/
def functionParts (name : String) (signatures : List SignatureParts) (excess : Int) : List Part :=
  let several :=
    .punctuation "\x7b" ::
      interleave [.space] (signatures.map fun s ↦ s.shown false ++ [.punctuation ";"]) ++
      (if 0 < excess then .space :: moreParts excess ++ [.punctuation ";"] else []) ++
      [.punctuation "\x7d"]
  match signatures with
  | [] => [terminalPart name]
  | [s] => if excess = 0 then s.shown true else several
  | _ => several

/-- The parts of an array. -/
def arrayParts (readonly loose : Bool) (element : List Part) : List Part :=
  readonlyParts readonly ++
    (if loose then .punctuation "(" :: element ++ [.punctuation ")"] else element) ++
    [.punctuation "[]"]

/-- The parts of an enum member: the enum, a dot and the member's own name. -/
def enumMemberParts (member : String) : List Part :=
  match Text.cutLast? ['.'] member.toList with
  | none => [.enumMember member]
  | some ([], own) => [.enumMember (.ofList own)]
  | some (enum, own) => [.enumName (.ofList enum), .punctuation ".", .enumMember (.ofList own)]

namespace Tree

mutual

/-- The parts of a tree that stands in a slot, optional or not. -/
def partsIn (optional : Bool) : Tree → List Part
  | primitive l | basic l | reference l => l.shown [terminalPart l.name]
  | union l ms e => slotUnionParts optional l (operandParts ms) e
  | intersection l ms => l.shown (intersectionParts (segmentParts ms))
  | object l ps e => l.shown (objectParts (propertyEntries ps) e)
  | array l r t => l.shown (arrayParts r t.bindsLoosely (t.partsIn false))
  | tuple l r ts =>
    l.shown (readonlyParts r ++ .punctuation "[" :: interleave commaParts (partLists ts) ++
      [.punctuation "]"])
  | function l ss e => l.shown (functionParts l.name (signatureParts ss) e)
  | promise l t => l.shown (referenceParts "Promise" [t.partsIn false])
  | enumMember l m => l.shown (enumMemberParts m)
  | generic l ts => l.shown (referenceParts l.name (partLists ts))

/-- The parts of several trees. -/
def partLists : List Tree → List (List Part)
  | [] => []
  | t :: ts => t.partsIn false :: partLists ts

/-- The parts of the members of a union. -/
def operandParts : List Tree → List OperandParts
  | [] => []
  | t :: ts => ⟨t.name, t.isLeaf, t.isArrow, t.partsIn false⟩ :: operandParts ts

/-- The parts of the members of an intersection. -/
def segmentParts : List Tree → List SegmentParts
  | [] => []
  | t :: ts =>
    (match t with
      | object _ ps e => .entries (propertyEntries ps) e
      | t => .parts (OperandParts.closed ⟨t.name, t.isLeaf, t.isArrow, t.partsIn false⟩)) ::
      segmentParts ts

/-- The parts of the properties of an object. -/
def propertyEntries : List (Property Tree) → List (List Part)
  | [] => []
  | p :: ps => propertyEntry p :: propertyEntries ps

/-- The parts of a property. -/
def propertyEntry : Property Tree → List Part
  | ⟨name, optional, readonly, type⟩ => propertyParts name optional readonly (type.partsIn optional)

/-- The parts of the signatures of a function. -/
def signatureParts : List (Signature Tree) → List SignatureParts
  | [] => []
  | s :: ss => signatureEntry s :: signatureParts ss

/-- The parts of a signature. -/
def signatureEntry : Signature Tree → SignatureParts
  | ⟨result, parameters⟩ => ⟨parameterEntries parameters, result.partsIn false⟩

/-- The parts of the parameters of a signature. -/
def parameterEntries : List (Parameter Tree) → List (List Part)
  | [] => []
  | p :: ps => parameterEntry p :: parameterEntries ps

/-- The parts of a parameter. -/
def parameterEntry : Parameter Tree → List Part
  | ⟨name, optional, rest, type⟩ => parameterParts name optional rest (type.partsIn optional)

end

/-- A tree as a member of a union, with its parts. -/
def operandPart (t : Tree) : OperandParts :=
  ⟨t.name, t.isLeaf, t.isArrow, t.partsIn false⟩

/-- A tree as a member of an intersection, with its parts. -/
def segmentPart : Tree → SegmentParts
  | object _ ps e => .entries (propertyEntries ps) e
  | t => .parts t.operandPart.closed

/-! The parts of a node are made piece by piece. -/

theorem partLists_eq_map (ts : List Tree) : partLists ts = ts.map (partsIn false) := by
  induction ts with
  | nil => rw [partLists, List.map_nil]
  | cons t ts ih => rw [partLists, ih, List.map_cons]

theorem operandParts_eq_map (ts : List Tree) : operandParts ts = ts.map operandPart := by
  induction ts with
  | nil => rw [operandParts, List.map_nil]
  | cons t ts ih => rw [operandParts, ih, List.map_cons, operandPart]

theorem segmentParts_eq_map (ts : List Tree) : segmentParts ts = ts.map segmentPart := by
  induction ts with
  | nil => rw [segmentParts, List.map_nil]
  | cons t ts ih =>
    rw [List.map_cons, ← ih]
    cases t <;> rfl

theorem propertyEntries_eq_map (ps : List (Property Tree)) :
    propertyEntries ps = ps.map propertyEntry := by
  induction ps with
  | nil => rw [propertyEntries, List.map_nil]
  | cons p ps ih => rw [propertyEntries, ih, List.map_cons]

theorem signatureParts_eq_map (ss : List (Signature Tree)) :
    signatureParts ss = ss.map signatureEntry := by
  induction ss with
  | nil => rw [signatureParts, List.map_nil]
  | cons s ss ih => rw [signatureParts, ih, List.map_cons]

theorem parameterEntries_eq_map (ps : List (Parameter Tree)) :
    parameterEntries ps = ps.map parameterEntry := by
  induction ps with
  | nil => rw [parameterEntries, List.map_nil]
  | cons p ps ih => rw [parameterEntries, ih, List.map_cons]

/-- The parts of a tree, made from its children without the parts stored with the node itself. -/
def builtParts (t : Tree) : List Part :=
  (t.setParts none).partsIn false

/-- The parts a tree is displayed with: those stored, or else its name as plain text. -/
def displayParts (t : Tree) : List Part :=
  t.label.shown [.plain t.name]

end Tree

end TypeLens
