import TypeLens.Decode.Scalar
import TypeLens.Decode.Schema
import TypeLens.Graph.Snapshot
import TypeLens.Json.Reader

/-!
# Reading snapshots

A snapshot is read from the bytes of a file: the bytes hold one value of structured data, the value
has the fields of a snapshot and no others, and every reference in it has a target.
`Snapshot.parse` answers the snapshot or the first of these three conditions that fails. A node of a
syntax tree that lies inside too many others is refused like a field that is wrong
(`Decoder.maxNesting`).
-/

namespace TypeLens.Graph

/-- The words for the categories of types. -/
def Category.ofName? : String → Option Category
  | "primitive" => some .primitive
  | "enumMember" => some .enumMember
  | "union" => some .union
  | "intersection" => some .intersection
  | "promise" => some .promise
  | "function" => some .function
  | "array" => some .array
  | "tuple" => some .tuple
  | "object" => some .object
  | "generic" => some .generic
  | "other" => some .other
  | _ => none

/-- Reads a category. -/
def Category.decode : Decoder Category
  | .str s =>
    match ofName? s with
    | some c => .ok c
    | none => .refuse .notAllowed
  | _ => .refuse .notAllowed

/-- A truth value that is false when absent. -/
def flag (names : List String) : Schema Bool :=
  .defaulting names false Decoder.boolean

/-- A string that may be absent or `null`. -/
def optionalText (names : List String) : Schema (Option String) :=
  .defaulting names none (Decoder.nullable Decoder.string)

/-- A sequence that is empty when absent. -/
def items {α : Type} (names : List String) (d : Decoder α) : Schema (List α) :=
  .defaulting names [] (Decoder.sequence d)

/-- The fields of a property. -/
def PropertyRecord.schema : Schema PropertyRecord :=
  PropertyRecord.mk <$> .required ["name"] Decoder.string <*> .required ["type"] Decoder.string
    <*> flag ["optional"] <*> flag ["readonly"] <*> items ["modifiers"] Decoder.string
    <*> .defaulting ["declarationKind", "declaration_kind"] "PropertySignature" Decoder.string
    <*> flag ["synthetic"]

/-- The fields of an index signature. -/
def IndexSignature.schema : Schema IndexSignature :=
  IndexSignature.mk <$> .defaulting ["keyName", "key_name"] "key" Decoder.string
    <*> .defaulting ["keyType", "key_type"] "string" Decoder.string
    <*> .required ["type"] Decoder.string <*> flag ["readonly"]

/-- The fields of a parameter. -/
def ParameterRecord.schema : Schema ParameterRecord :=
  ParameterRecord.mk <$> .required ["name"] Decoder.string <*> .required ["type"] Decoder.string
    <*> flag ["optional"] <*> flag ["rest"]

/-- The fields of a signature. -/
def SignatureRecord.schema : Schema SignatureRecord :=
  SignatureRecord.mk <$> items ["parameters"] ParameterRecord.schema.closedRecord
    <*> optionalText ["returnType", "return_type"]

/-- The fields of a type. -/
def TypeRecord.schema : Schema TypeRecord :=
  TypeRecord.mk <$> .required ["name"] Decoder.string
    <*> .defaulting ["category"] .other Category.decode
    <*> items ["members"] Decoder.string <*> optionalText ["member"] <*> flag ["readonly"]
    <*> optionalText ["target"]
    <*> items ["typeArguments", "type_arguments"] (Decoder.nullable Decoder.string)
    <*> items ["properties"] PropertyRecord.schema.closedRecord
    <*> items ["indexSignatures", "index_signatures"] IndexSignature.schema.closedRecord
    <*> items ["callSignatures", "call_signatures"] SignatureRecord.schema.closedRecord
    <*> items ["constructSignatures", "construct_signatures"] SignatureRecord.schema.closedRecord

/-- The fields of a symbol. -/
def SymbolRecord.schema : Schema SymbolRecord :=
  SymbolRecord.mk <$> .required ["name"] Decoder.string <*> .required ["type"] Decoder.string
    <*> optionalText ["declaredType", "declared_type"]
    <*> optionalText ["declarationKind", "declaration_kind"]
    <*> optionalText ["aliasOf", "alias_of"]

/-- The fields of a node, with a decoder for its children. -/
def Node.schema (d : Decoder Node) : Schema Node :=
  Node.mk <$> .required ["kind"] Decoder.string <*> .required ["start"] Decoder.natural
    <*> .required ["end"] Decoder.natural <*> optionalText ["symbol"] <*> items ["children"] d

/-- Reads a node with at most `levels` levels. -/
def Node.decodeWithin : (levels : Nat) → Decoder Node
  | n + 1 => (Node.schema (decodeWithin n)).closedRecord
  | 0 => fun _ ↦ .refuse .tooDeep

/-- Reads a node. -/
def Node.decode : Decoder Node :=
  Node.decodeWithin Decoder.maxNesting

/-- The fields of a document. -/
def Document.schema : Schema Document :=
  Document.mk <$> .required ["text"] Decoder.string <*> .required ["root"] Node.decode

namespace Snapshot

/-- The fields of a snapshot. -/
def schema : Schema Snapshot :=
  Snapshot.mk <$> .defaulting ["version"] 1 Decoder.integer
    <*> .defaulting ["types"] [] (Decoder.map TypeRecord.schema.closedRecord)
    <*> .defaulting ["symbols"] [] (Decoder.map SymbolRecord.schema.closedRecord)
    <*> .defaulting ["documents"] [] (Decoder.map Document.schema.closedRecord)

/-- The number of dangling references a refusal names. -/
def reportedReferences : Nat := 10

/-- The refusal of a snapshot with dangling references, in the order of their texts. -/
def danglingRefusal (s : Snapshot) : Option Cause :=
  match s.dangling with
  | [] => none
  | texts =>
    let sorted := texts.mergeSort fun a b ↦ !(b < a)
    some (.rejected ("Unknown references: " ++ ", ".intercalate (sorted.take reportedReferences)))

/-- Reads a snapshot from structured data. -/
def decode (v : Json) : Decoded Snapshot :=
  (schema.closedRecord v).filter danglingRefusal

/-- Why bytes are no snapshot. -/
inductive ParseError where
  /-- The bytes are no structured data. -/
  | notData
  /-- The data is no snapshot. -/
  | schema (faults : List Fault)
deriving Repr, DecidableEq

/-- The text of a failure. What exactly is wrong stays open: a mark stands in its place. -/
def ParseError.message : ParseError → String
  | notData => "Snapshot is not valid JSON: <detail>"
  | schema _ => "Snapshot does not match the type graph schema: <detail>"

/-- Reads a snapshot from the bytes of a file. -/
def parse (bytes : ByteArray) : Except ParseError Snapshot :=
  match Json.readBytes? .snapshot bytes with
  | none => .error .notData
  | some v =>
    match decode v with
    | .ok s => .ok s
    | .error faults => .error (.schema faults)

end Snapshot

end TypeLens.Graph
