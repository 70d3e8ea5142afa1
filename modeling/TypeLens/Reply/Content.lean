import TypeLens.Json.Writer
import TypeLens.Text.Blank
import TypeLens.Text.Scan

/-!
# Content of a reply

A reply shows its content as a list of blocks, objects of structured data. A text block holds text
in Markdown; a resource block holds a text under a URI. Code is put between fences that are longer
than any run of backticks inside, so that it can be taken out again.
-/

namespace TypeLens.Reply

/-- A block of text. -/
def textBlock (text : String) : Json :=
  .obj [("type", .str "text"), ("text", .str text)]

/-- A block with a resource. -/
def resourceBlock (uri text mimeType : String) : Json :=
  .obj [("type", .str "resource"),
    ("resource", .obj [("uri", .str uri), ("mimeType", .str mimeType), ("text", .str text)])]

/-- The type of resources that hold structured data. -/
def jsonMimeType : String := "application/json"

/-- The URI of the resource that repeats the structured data of a reply. The token makes it
unique. -/
def dataUri (token : String) : String :=
  "file:///_prettify_structured_" ++ token ++ ".json"

/-- A block that repeats structured data as text, if the data can be written. -/
def dataBlock? (token : String) (fields : Fields) : Option Json :=
  let value := Json.obj fields
  if value.isWritable then some (resourceBlock (dataUri token) value.write jsonMimeType) else none

/-! ### Fences -/

/-- A number of backticks in a row. -/
def ticks (n : Nat) : List Char :=
  List.replicate n '\x60'

/-- The length of a fence, starting from some number of backticks: one more is added as long as the
text holds them. -/
def fenceFrom (text : List Char) (n : Nat) : Nat :=
  if Text.occurs (ticks n) text then fenceFrom text (n + 1) else n
termination_by text.length + 1 - n
decreasing_by
  have hlength := Text.length_le_of_occurs ‹_›
  rw [ticks, List.length_replicate] at hlength
  omega

/-- The fence around a text: three backticks, or as many more as it takes for the text not to hold
them. -/
def fence (text : String) : String :=
  .ofList (ticks (fenceFrom text.toList 3))

/-- A text between fences. -/
def codeBlock (text language : String) : String :=
  fence text ++ language ++ "\n" ++ text ++ "\n" ++ fence text

/-! ### Summaries -/

/-- A summary in Markdown: a headline, and a bullet for each detail that is not blank. -/
def summary (headline : String) (details : List String) : String :=
  let headline := match Text.trimBlank headline with
    | "" => "(no summary provided)"
    | s => s
  let bullets := (details.map Text.trimBlank).filter (· != "")
  "\n".intercalate (("**Summary:** " ++ headline) :: bullets.map ("- " ++ ·))

/-! ### Formats -/

/-- The ways a reply is rendered. -/
inductive Format where
  | markdown
  | json
deriving Repr, DecidableEq, Inhabited

/-- The word for a format. -/
def Format.name : Format → String
  | markdown => "markdown"
  | json => "json"

/-- The lower case of a letter. Beyond ASCII only the Kelvin sign has a lower case that can occur in
the word for a format. -/
def lowerLetter (c : Char) : Char :=
  if c.toNat = 0x212A then 'k' else c.toLower

/-- The format a word asks for; what is not known means Markdown. -/
def Format.ofText (word : Option String) : Format :=
  let cs := (Text.trim Text.isBlank (word.getD "").toList).map lowerLetter
  if cs = "json".toList then .json else .markdown

/-- The format of a reply: the one it is to have, or else the one the client asked for before. -/
def Format.chosen (wanted hint : Option String) : Format :=
  ofText (wanted <|> hint)

end TypeLens.Reply
