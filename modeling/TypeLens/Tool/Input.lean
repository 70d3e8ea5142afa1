import TypeLens.Options
import TypeLens.Text.Blank
import TypeLens.Uri

/-!
# Tool inputs

The inputs of the three tools. White characters around their texts do not count, a file may be named
by a path or a file URI, several fields go by more than one name, and unknown fields are refused.

A position may be given as a nested object: with `character` it is counted from zero, as language
servers do, with `column` from one. Lines and columns given outside that object win.
-/

namespace TypeLens.Tool

/-- Reads a string without the white characters around it. -/
def trimmed (v : Json) : Decoded String :=
  (Decoder.string v).andThen fun s ↦ .ok (Text.trimWhite s)

/-- A text that may be absent or `null`. -/
def optionalText (names : List String) : Schema (Option String) :=
  .defaulting names none (Decoder.nullable trimmed)

/-- The field that says how a result is rendered. -/
def responseFormat : Schema (Option String) :=
  optionalText ["_format", "response_format"]

/-- The greatest width of a level. -/
def maxIndentation : Int := 8

/-- The width of a level. -/
def indentation : Schema Int :=
  .defaulting ["indentation"] 2 (Decoder.integerBetween 0 (some maxIndentation))

/-- Replaces a file URI by its path; other values stay as they are. -/
def uriToPath {α : Type} (next : Decoder α) : Decoder α
  | .str s =>
    match Uri.toPath s with
    | .ok path => next (.str path)
    | .error e => .refuse (.rejected e.message)
  | v => next v

/-- Reads the path of a file, which may not be empty. -/
def filePath : Decoder String :=
  uriToPath fun v ↦ (trimmed v).filter fun path ↦
    if path = "" then some (.rejected "file_path cannot be empty.") else none

/-- Reads the path of a snapshot; an empty path is none. -/
def configPath : Decoder (Option String) :=
  uriToPath fun
    | .str "" => .ok none
    | v => Decoder.nullable trimmed v

/-! ### Positions -/

/-- The value of an integer or truth value. -/
def plainInteger? : Option Json → Option Int
  | some (.int n) => some n
  | some (.bool b) => some (if b then 1 else 0)
  | _ => none

/-- Moves a nested position to the fields of the input. -/
def flattenPosition (fields : Fields) : Fields :=
  match fields.get? "position" with
  | some (.obj position) =>
    let rest := fields.erase "position"
    let fromZero := Fields.has position "character" && !Fields.has position "column"
    let shift : Int := if fromZero then 1 else 0
    let line := plainInteger? (Fields.get? position "line")
    let column :=
      plainInteger? (Fields.get? position (if fromZero then "character" else "column"))
    let withLine :=
      match line with
      | some n => if rest.has "line" then rest else rest.put "line" (.int (n + shift))
      | none => rest
    match column with
    | some n =>
      if withLine.has "column" || withLine.has "character" then withLine
      else withLine.put "column" (.int (n + shift))
    | none => withLine
  | _ => fields

/-- Flattens the position of an input before it is decoded. -/
def flattening {α : Type} (s : Schema α) : Decoder α
  | .obj fields => s.closedFields (flattenPosition fields)
  | v => s.closedRecord v

/-- A place in a file. -/
structure Location where
  /-- How the result is rendered. -/
  format : Option String
  /-- The file. -/
  file : String
  /-- The line, from one on. -/
  line : Int
  /-- The column, from one on. -/
  column : Int
deriving Repr, Inhabited

/-- The fields of a location. -/
def Location.schema : Schema Location :=
  Location.mk <$> responseFormat <*> .required ["file_path", "uri", "path"] filePath
    <*> .required ["line"] (Decoder.integerBetween 1 none)
    <*> .required ["column", "character"] (Decoder.integerBetween 1 none)

/-- Reads a location. -/
def Location.decode : Decoder Location :=
  flattening Location.schema

/-- The input of a look-up. -/
structure LookupInput where
  /-- The place. -/
  location : Location
  /-- The snapshot to ask, if it is given. -/
  config : Option String
  /-- The bounds of the expansion. -/
  options : Options
  /-- Whether all bounds are lifted. -/
  full : Bool
  /-- The width of a level. -/
  indentation : Int
deriving Repr, Inhabited

/-- Reads the input of a look-up. -/
def LookupInput.decode : Decoder LookupInput :=
  flattening (LookupInput.mk <$> Location.schema
    <*> .defaulting ["config_path", "config", "snapshot"] none configPath
    <*> .defaulting ["options", "prettify_options"] {} Options.decode
    <*> .defaulting ["full"] false Decoder.boolean <*> Tool.indentation)

/-- The input of a reflow. -/
structure ReflowInput where
  /-- How the result is rendered. -/
  format : Option String
  /-- The type as text. -/
  text : String
  /-- The width of a level. -/
  indentation : Int
  /-- The name the type is declared under. -/
  name : Option String
  /-- The kind of the declaration. -/
  kind : Option String
deriving Repr, Inhabited

/-- Reads a text that may not be empty. -/
def nonemptyText (v : Json) : Decoded String :=
  (trimmed v).filter fun s ↦ if s = "" then some .tooShort else none

/-- Reads the input of a reflow. -/
def ReflowInput.decode : Decoder ReflowInput :=
  (ReflowInput.mk <$> responseFormat <*> .required ["type_string", "text", "type"] nonemptyText
    <*> Tool.indentation <*> optionalText ["name"]
    <*> optionalText ["syntax_kind", "syntaxKind", "kind"]).closedRecord

/-- The input of a status report. -/
structure StatusInput where
  /-- How the result is rendered. -/
  format : Option String
  /-- Whether the sessions are dropped first. -/
  clear : Bool
deriving Repr, Inhabited

/-- Reads the input of a status report. -/
def StatusInput.decode : Decoder StatusInput :=
  (StatusInput.mk <$> responseFormat <*> .defaulting ["clear"] false Decoder.boolean).closedRecord

/-- Reads the input all tools share. -/
def decodeFormat : Decoder (Option String) :=
  responseFormat.closedRecord

end TypeLens.Tool
