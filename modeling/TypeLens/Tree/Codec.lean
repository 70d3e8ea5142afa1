import TypeLens.Decode.Scalar
import TypeLens.Decode.Schema
import TypeLens.Tree.Shape

/-!
# Type trees as structured data

A node is written as an object with the name of its type, its display parts if it stores any, its
kind and the fields of that kind. Reading goes by the kind: `Tree.schema?` has the fields of each
kind, and the faults inside a node are reported under the node's kind.

Whoever needs trees and answers of look-ups written or read takes a `Codec`, for the writing and
reading of records is not for this library to decide. A codec gives up on a node that lies inside
too many others; the one that is used otherwise, `Codec.standard`, does so from
`Decoder.maxNesting` on.
-/

namespace TypeLens

namespace Part

/-- The fields of a display part. -/
def schema : Schema Part :=
  Part.mk <$> .required ["text"] Decoder.string <*> .required ["kind"] Decoder.string

/-- A display part as an object. -/
def toJson (p : Part) : Json :=
  .obj [("text", .str p.text), ("kind", .str p.kind)]

end Part

namespace Label

/-- The fields every node has. -/
def schema : Schema Label :=
  Label.mk <$> .required ["typeName", "type_name"] Decoder.string
    <*> .defaulting ["displayParts", "display_parts"] none
      (Decoder.nullable (Decoder.sequence Part.schema.openRecord))

/-- The members every node has, its kind included. -/
def fields (kind : String) (l : Label) : Fields :=
  ("typeName", .str l.name) ::
    (match l.parts with
      | some parts => [("displayParts", .arr (parts.map Part.toJson))]
      | none => []) ++
    [("kind", .str kind)]

end Label

variable {α : Type}

/-- The fields of a property. -/
def Property.schema (d : Decoder α) : Schema (Property α) :=
  Property.mk <$> .required ["name"] Decoder.string
    <*> .defaulting ["optional"] false Decoder.boolean
    <*> .defaulting ["readonly"] false Decoder.boolean <*> .required ["type"] d

/-- The fields of a parameter. -/
def Parameter.schema (d : Decoder α) : Schema (Parameter α) :=
  Parameter.mk <$> .required ["name"] Decoder.string
    <*> .defaulting ["optional"] false Decoder.boolean
    <*> .defaulting ["isRestParameter", "is_rest_parameter"] false Decoder.boolean
    <*> .required ["type"] d

/-- The fields of a signature. -/
def Signature.schema (d : Decoder α) : Schema (Signature α) :=
  Signature.mk <$> .required ["returnType", "return_type"] d
    <*> .defaulting ["parameters"] [] (Decoder.sequence (Parameter.schema d).openRecord)

namespace Tree

/-- The word for the kind of a node. -/
def kind : Tree → String
  | primitive _ => "primitive"
  | basic _ => "basic"
  | reference _ => "reference"
  | union .. => "union"
  | intersection .. => "intersection"
  | object .. => "object"
  | array .. => "array"
  | tuple .. => "tuple"
  | function .. => "function"
  | promise .. => "promise"
  | enumMember .. => "enum"
  | generic .. => "generic"

/-- A field that holds several trees. -/
def children (names : List String) (d : Decoder Tree) : Schema (List Tree) :=
  .defaulting names [] (Decoder.sequence d)

/-- A field that counts what was left out. -/
def excess (names : List String) : Schema Int :=
  .defaulting names 0 Decoder.integer

/-- The fields of a node of the given kind, with a decoder for its children. -/
def schema? (d : Decoder Tree) : (kind : String) → Option (Schema Tree)
  | "primitive" => some (primitive <$> Label.schema)
  | "basic" => some (basic <$> Label.schema)
  | "reference" => some (reference <$> Label.schema)
  | "union" =>
    some (union <$> Label.schema <*> children ["types"] d
      <*> excess ["excessMembers", "excess_members"])
  | "intersection" => some (intersection <$> Label.schema <*> children ["types"] d)
  | "object" =>
    some (object <$> Label.schema
      <*> .defaulting ["properties"] [] (Decoder.sequence (Property.schema d).openRecord)
      <*> excess ["excessProperties", "excess_properties"])
  | "array" =>
    some (array <$> Label.schema <*> .defaulting ["readonly"] false Decoder.boolean
      <*> .required ["elementType", "element_type"] d)
  | "tuple" =>
    some (tuple <$> Label.schema <*> .defaulting ["readonly"] false Decoder.boolean
      <*> children ["elementTypes", "element_types"] d)
  | "function" =>
    some (function <$> Label.schema
      <*> .defaulting ["signatures"] [] (Decoder.sequence (Signature.schema d).openRecord)
      <*> excess ["excessSignatures", "excess_signatures"])
  | "promise" => some (promise <$> Label.schema <*> .required ["type"] d)
  | "enum" => some (enumMember <$> Label.schema <*> .required ["member"] Decoder.string)
  | "generic" => some (generic <$> Label.schema <*> children ["arguments"] d)
  | _ => none

/-- Reads a node by the schema of its kind. -/
def decodeBy (schema? : (kind : String) → Option (Schema Tree)) : Decoder Tree
  | .obj fields =>
    match Fields.get? fields "kind" with
    | none => .refuse .kindMissing
    | some (.str kind) =>
      match schema? kind with
      | some s => (s.decode fields).under (.key kind)
      | none => .refuse .kindUnknown
    | some _ => .refuse .kindUnknown
  | _ => .refuse .notNode

/-- Reads a tree of at most `levels` levels. -/
def decodeWithin : (levels : Nat) → Decoder Tree
  | n + 1 => decodeBy (schema? (decodeWithin n))
  | 0 => decodeBy fun kind ↦
    (schema? (fun _ ↦ .refuse .tooDeep) kind).map fun _ ↦ .refusing .tooDeep

mutual

/-- A tree as an object. -/
def toJson : Tree → Json
  | primitive l => .obj (l.fields "primitive")
  | basic l => .obj (l.fields "basic")
  | reference l => .obj (l.fields "reference")
  | union l ms e =>
    .obj (l.fields "union" ++ [("types", .arr (jsonList ms)), ("excessMembers", .int e)])
  | intersection l ms => .obj (l.fields "intersection" ++ [("types", .arr (jsonList ms))])
  | object l ps e =>
    .obj (l.fields "object" ++
      [("properties", .arr (propertyJsons ps)), ("excessProperties", .int e)])
  | array l r t => .obj (l.fields "array" ++ [("readonly", .bool r), ("elementType", t.toJson)])
  | tuple l r ts =>
    .obj (l.fields "tuple" ++ [("readonly", .bool r), ("elementTypes", .arr (jsonList ts))])
  | function l ss e =>
    .obj (l.fields "function" ++
      [("signatures", .arr (signatureJsons ss)), ("excessSignatures", .int e)])
  | promise l t => .obj (l.fields "promise" ++ [("type", t.toJson)])
  | enumMember l m => .obj (l.fields "enum" ++ [("member", .str m)])
  | generic l ts => .obj (l.fields "generic" ++ [("arguments", .arr (jsonList ts))])

/-- Several trees as objects. -/
def jsonList : List Tree → List Json
  | [] => []
  | t :: ts => t.toJson :: jsonList ts

/-- The properties of an object type as objects. -/
def propertyJsons : List (Property Tree) → List Json
  | [] => []
  | p :: ps => propertyJson p :: propertyJsons ps

/-- A property as an object. -/
def propertyJson : Property Tree → Json
  | ⟨name, optional, readonly, type⟩ =>
    .obj [("name", .str name), ("optional", .bool optional), ("readonly", .bool readonly),
      ("type", type.toJson)]

/-- The signatures of a function type as objects. -/
def signatureJsons : List (Signature Tree) → List Json
  | [] => []
  | s :: ss => signatureJson s :: signatureJsons ss

/-- A signature as an object. -/
def signatureJson : Signature Tree → Json
  | ⟨result, parameters⟩ =>
    .obj [("returnType", result.toJson), ("parameters", .arr (parameterJsons parameters))]

/-- The parameters of a signature as objects. -/
def parameterJsons : List (Parameter Tree) → List Json
  | [] => []
  | p :: ps => parameterJson p :: parameterJsons ps

/-- A parameter as an object. -/
def parameterJson : Parameter Tree → Json
  | ⟨name, optional, rest, type⟩ =>
    .obj [("name", .str name), ("optional", .bool optional), ("isRestParameter", .bool rest),
      ("type", type.toJson)]

end

end Tree

namespace TypeInfo

/-- The fields of a look-up's answer, with a decoder for its tree. -/
def schema (d : Decoder Tree) : Schema TypeInfo :=
  TypeInfo.mk <$> .required ["typeTree", "type_tree"] d
    <*> .required ["declaration"] Decoder.string <*> .required ["name"] Decoder.string
    <*> .defaulting ["syntaxKind", "syntax_kind"] none (Decoder.nullable Decoder.string)

/-- A look-up's answer as an object, with its tree as it is written. -/
def written (info : TypeInfo) (tree : Json) : Json :=
  .obj ([("typeTree", tree), ("declaration", .str info.declaration), ("name", .str info.name)] ++
    match info.kind with
    | some kind => [("syntaxKind", .str kind)]
    | none => [])

end TypeInfo

/-- What writes trees and answers of look-ups as objects and reads them again. A tree may be part of
another one, and is written or read below a number of nodes then. -/
structure Codec where
  /-- How many nodes may lie inside each other. -/
  levels : Nat
  /-- Writes a tree below some number of nodes, if not too many lie inside each other. -/
  write? : (above : Nat) → Tree → Option Json
  /-- Reads a tree below some number of nodes. -/
  read : (above : Nat) → Decoder Tree
  /-- Writes a look-up's answer, if its tree is written. -/
  writeInfo? : TypeInfo → Option Json
  /-- Reads a look-up's answer. -/
  readInfo : Decoder TypeInfo

/-- The codec that writes a tree up to the greatest height, and reads as many levels. -/
def Codec.standard : Codec where
  levels := Decoder.maxNesting
  write? above t := if above + t.height ≤ Decoder.maxNesting then some t.toJson else none
  read above := Tree.decodeWithin (Decoder.maxNesting - above)
  writeInfo? info :=
    if info.tree.height ≤ Decoder.maxNesting then some (info.written info.tree.toJson) else none
  readInfo := (TypeInfo.schema (Tree.decodeWithin Decoder.maxNesting)).openRecord

end TypeLens
