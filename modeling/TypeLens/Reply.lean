import TypeLens.Reply.Limit
import TypeLens.Text.Distinct

/-!
# Replies

Every tool answers with a reply: a list of content blocks, a flag for errors, and structured data.
The first block is a summary in Markdown, or, when the client asks for it, the structured data as
text. `success` and `failure` make the replies of a tool that worked and of one that did not; a
failure carries a code, and hints on what to do about it.

Making a reply can itself fail, in the ways listed in `Reply.Error`.
-/

namespace TypeLens

/-- The reply of a tool. -/
structure Reply where
  /-- The blocks of content. -/
  content : List Json
  /-- Whether the tool failed. -/
  isError : Bool
  /-- The structured data. -/
  structured : Option Fields

namespace Reply

/-- Why a reply cannot be made. -/
inductive Error where
  /-- There is no content. -/
  | noContent
  /-- The structured data has an integer that cannot be written. -/
  | notWritable
  /-- The structured data has something else in the place of its remarks. -/
  | noRemarks
deriving Repr, DecidableEq

/-- The text of a failure to make a reply. -/
def Error.message : Error → String
  | noContent => "mcp_result requires at least one content item"
  | notWritable => "Integer exceeds 64-bit range"
  | noRemarks => "remarks are not an object"

/-- A reply as an object. -/
def toJson (r : Reply) : Json :=
  .obj ([("content", .arr r.content), ("isError", .bool r.isError)] ++
    match r.structured with
    | some fields => [("structuredContent", .obj fields)]
    | none => [])

/-- A reply with at least one block. -/
def make (content : List Json) (isError : Bool) (structured : Option Fields) : Except Error Reply :=
  if content.isEmpty then .error .noContent else .ok ⟨content, isError, structured⟩

/-- The message of a reply in its form as an object; a reply without one has a message all the same.
Fails when there is something else in the place of the structured data. -/
def messageOf? (reply : Json) : Option String :=
  match reply.get? "structuredContent" with
  | none => some "Tool error"
  | some (.obj fields) => some (((Fields.get? fields "message").map Json.shown).getD "Tool error")
  | some _ => none

/-- What replies depend on besides what they say. -/
structure Setting where
  /-- The format the client asked for. -/
  format : Format
  /-- The name of snapshot files. -/
  configName : String
  /-- What makes the URI of repeated data unique. -/
  token : String
deriving Repr, Inhabited

/-- Adds the summary to the remarks of structured data, unless they have one. -/
def withSummary? (headline : String) (fields : Fields) : Option Fields := do
  let remarks ← remarks? fields
  let remarks := if remarks.has "summary" then remarks else remarks.put "summary" (.str headline)
  return fields.put metaField (.obj remarks)

/-- Puts a reply together from its summary, its blocks and its structured data. -/
def assemble (s : Setting) (headline : String) (details : List String) (structured : Option Fields)
    (extra : List Json) (isError : Bool) : Except Error Reply := do
  let limited := limitContent characterLimit (textBlock (summary headline details) :: extra)
  let some data := withRemarks? characterLimit structured limited | .error .noRemarks
  match s.format with
  | .markdown => make limited.items isError data
  | .json =>
    let some data := withSummary? headline (data.getD []) | .error .noRemarks
    let some block := dataBlock? s.token data | .error .notWritable
    make (block :: limited.items.drop 1) isError (some data)

/-- Whether a block is the given text. -/
def isTextBlock (text : String) (item : Json) : Bool :=
  (item.get? "type").bind Json.str? == some "text" && (item.get? "text").bind Json.str? == some text

/-- The blocks without a first block that only repeats the summary. -/
def withoutHeadline (headline : String) : List Json → List Json
  | [] => []
  | item :: items => if isTextBlock headline item then items else item :: items

/-- The reply of a tool that worked. -/
def success (s : Setting) (headline : String) (structured : Option Fields) (content : List Json) :
    Except Error Reply :=
  assemble s headline [] structured (withoutHeadline headline content) false

/-! ### Failures -/

/-- The codes of failures. -/
inductive Code where
  /-- There is no snapshot for the file. -/
  | configNotFound
  /-- The snapshot cannot be loaded. -/
  | sessionFailure
  /-- The snapshot does not cover the file. -/
  | invalidPath
  /-- The position is outside the document. -/
  | badRequest
  /-- There is no type at the position. -/
  | noType
  /-- The look-up was cancelled. -/
  | cancelled
  /-- Something else went wrong. -/
  | unknown
  /-- A code of somebody else's. -/
  | other (word : String)
deriving Repr, DecidableEq

/-- The word for a code. -/
def Code.word : Code → String
  | configNotFound => "config_not_found"
  | sessionFailure => "session_failure"
  | invalidPath => "invalid_path"
  | badRequest => "bad_request"
  | noType => "no_type"
  | cancelled => "cancelled"
  | unknown => "unknown"
  | other word => word

/-- The code of a word. -/
def Code.ofWord : String → Code
  | "config_not_found" => configNotFound
  | "session_failure" => sessionFailure
  | "invalid_path" => invalidPath
  | "bad_request" => badRequest
  | "no_type" => noType
  | "cancelled" => cancelled
  | "unknown" => unknown
  | word => other word

/-- Reading back the word for a code gives the code, unless it is the word of another one. -/
theorem Code.ofWord_word (c : Code) (h : ∀ w, c ≠ other w) : ofWord c.word = c := by
  cases c with
  | other w => exact absurd rfl (h w)
  | _ => rfl

/-- The hint of last resort. -/
def lastHint : String :=
  "If the problem persists, clear the cached sessions with `prettify_session_status`."

/-- The number of documents a hint names. -/
def namedDocuments : Nat := 5

/-- The documents listed in the details of a failure. -/
def listedDocuments (details : Fields) : List String :=
  (((details.get? "documents").bind Json.arr?).getD []).filterMap Json.str?

/-- The hints that go with a code. -/
def Code.hints (configName : String) (details : Fields) : Code → List String
  | configNotFound =>
    ["Export a type graph snapshot named `" ++ configName ++ "` next to your project, " ++
      "set `PRETTIFY_TYPE_CONFIG`, or pass `config_path`."]
  | sessionFailure =>
    ["Regenerate the snapshot; it could not be parsed or references unknown types.",
      "Call `prettify_session_status` with `clear=true` after replacing the file."]
  | invalidPath =>
    match listedDocuments details with
    | [] => ["Check that the file is part of the exported snapshot."]
    | documents =>
      ["The snapshot only covers: " ++ ", ".intercalate (documents.take namedDocuments)]
  | badRequest => ["Lines and columns are 1-based and must fall inside the document."]
  | noType => ["Place the cursor on an identifier, such as a variable, type or property name."]
  | cancelled =>
    ["The lookup was cancelled; retry with a smaller `maxDepth` if it keeps timing out."]
  | unknown | other _ => [lastHint]

/-- What a failure says. -/
structure Problem where
  /-- What went wrong. -/
  message : String
  /-- The code of the failure. -/
  code : Option Code := none
  /-- The tool that failed, or another category. -/
  category : Option String := none
  /-- Further details. -/
  details : Fields := []
  /-- Hints beside those that go with the code. -/
  hints : List String := []

namespace Problem

/-- All hints of a failure, without repetitions. -/
def allHints (p : Problem) (configName : String) : List String :=
  Text.distinct (p.hints ++
    match p.code with
    | some c => c.hints configName p.details
    | none => [lastHint])

/-- A failure as structured data. -/
def structured (p : Problem) (hints : List String) : Fields :=
  [("message", .str p.message)] ++
    (p.code.toList.map fun c ↦ ("code", .str c.word)) ++
    (p.category.toList.map fun c ↦ ("category", .str c)) ++
    (if p.details.isEmpty then [] else [("details", .obj p.details)]) ++
    [("hints", .strings hints)]

/-- The bullets of a failure's summary. -/
def bullets (p : Problem) (hints : List String) : List String :=
  (p.code.toList.map fun c ↦ "Code: `" ++ c.word ++ "`") ++
    (p.category.toList.map fun c ↦ "Category: " ++ c) ++ hints.map ("Hint: " ++ ·)

end Problem

/-- The reply of a tool that failed. -/
def failure (s : Setting) (p : Problem) : Except Error Reply :=
  let hints := p.allHints s.configName
  assemble s ("Error: " ++ p.message) (p.bullets hints) (some (p.structured hints)) [] true

end Reply

end TypeLens
