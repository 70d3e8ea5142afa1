import TypeLens.Json.Display
import TypeLens.Reply.Content

/-!
# The length of a reply

The texts of a reply's blocks are cut so that their total length stays within a limit. The cut is
made from the end: the last texts lose their characters first, and a note at the end says so. The
text of a resource counts unless the resource is structured data.

`blocks` finds the texts that count, `cutBack` cuts them, and `limitContent` does both and adds the
note. The blocks themselves are objects of any shape and are otherwise left as they are.
-/

namespace TypeLens.Reply

/-- The greatest length of the texts of a reply. -/
def characterLimit : Int := 25000

/-- Puts a comma before each group of three digits, counted from the end. The digits are listed last
first. -/
def groupDigits : List Char → List Char
  | a :: b :: c :: d :: rest => a :: b :: c :: ',' :: groupDigits (d :: rest)
  | ds => ds

/-- An integer with commas between groups of three digits. -/
def grouped (n : Int) : String :=
  (if n < 0 then "-" else "") ++
    .ofList (groupDigits (Nat.toDigits 10 n.natAbs).reverse).reverse

/-- The hint for a reply that was cut. -/
def truncationHint (limit : Int) : String :=
  "Output truncated to " ++ grouped limit ++
    " characters. Lower maxDepth or maxProperties, or reflow a smaller type string."

/-- The note at the end of a reply that was cut. -/
def truncationNote (limit : Int) : String :=
  "_Note: " ++ truncationHint limit ++ "_"

/-- Where the text of a block stands. -/
inductive Place where
  | block
  | resource
deriving Repr, DecidableEq

/-- A text that counts. -/
structure Counted where
  /-- Where the text stands. -/
  place : Place
  /-- The name of the text among the texts cut. -/
  label : String
  /-- The text. -/
  text : String
deriving Repr, DecidableEq

/-- A block with the text of it that counts, if there is one. -/
structure Block where
  /-- The block. -/
  item : Json
  /-- The text that counts. -/
  counted : Option Counted

/-- The text a value is named by; what is empty or zero names nothing. -/
def labelOf? (v : Json) : Option String :=
  if v.truthy then some v.shown else none

/-- The text of a block that counts. The first text that counts is the summary, if it is the text of
a block. -/
def counted? (isFirst : Bool) (index : Nat) (item : Json) : Option Counted :=
  let position := "[" ++ toString index ++ "]"
  match item.get? "type", item.get? "text", item.get? "resource" with
  | some (.str "text"), some (.str text), _ =>
    some ⟨.block, if isFirst then "summary" else "text" ++ position, text⟩
  | some (.str "resource"), _, some (.obj resource) =>
    match Fields.get? resource "text", Fields.get? resource "mimeType" with
    | some (.str text), mimeType =>
      if mimeType.bind Json.str? = some jsonMimeType then none
      else
        some ⟨.resource,
          ((Fields.get? resource "uri").bind labelOf?).getD ("resource" ++ position), text⟩
    | _, _ => none
  | _, _, _ => none

/-- The blocks from an index on, with the texts that count. -/
def blocksFrom : (isFirst : Bool) → (index : Nat) → List Json → List Block
  | _, _, [] => []
  | isFirst, i, item :: items =>
    let counted := counted? isFirst i item
    ⟨item, counted⟩ :: blocksFrom (isFirst && counted.isNone) (i + 1) items

/-- The blocks of a reply with the texts that count. -/
def blocks (items : List Json) : List Block :=
  blocksFrom true 0 items

/-- Replaces the text of a block at a place. -/
def setText (text : String) : Place → Json → Json
  | .block, .obj fields => .obj (Fields.put "text" (.str text) fields)
  | .resource, .obj fields =>
    match Fields.get? fields "resource" with
    | some (.obj resource) =>
      .obj (Fields.put "resource" (.obj (Fields.put "text" (.str text) resource)) fields)
    | _ => .obj fields
  | _, v => v

/-- The length of the text of a block that counts. -/
def Block.length (b : Block) : Nat :=
  match b.counted with
  | some c => c.text.length
  | none => 0

/-- The length of all texts that count. -/
def totalLength : List Block → Nat
  | [] => 0
  | b :: bs => b.length + totalLength bs

/-- What is left of a text without its last characters and without blanks at the end. -/
def cutText (cut : Nat) (text : String) : String :=
  Text.trimBlankEnd (.ofList (text.toList.take (text.length - cut)))

/-- Cuts a number of characters from the end of the blocks' texts. Answers the blocks, the names of
the texts that were cut, and how many characters are still to be cut. -/
def cutBack : List Block → (excess : Nat) → List Json × List String × Nat
  | [], excess => ([], [], excess)
  | b :: bs, excess =>
    let (items, sections, excess) := cutBack bs excess
    match b.counted with
    | none => (b.item :: items, sections, excess)
    | some c =>
      let cut := min c.text.length excess
      if cut = 0 then (b.item :: items, sections, excess)
      else (setText (cutText cut c.text) c.place b.item :: items, c.label :: sections, excess - cut)

/-- Blocks within a limit. -/
structure Limited where
  /-- The blocks. -/
  items : List Json
  /-- Whether a text was cut. -/
  truncated : Bool
  /-- The names of the texts that were cut. -/
  sections : List String

/-- Cuts the texts of blocks to a limit. -/
def limitContent (limit : Int) (items : List Json) : Limited :=
  let bs := blocks items
  let total : Int := totalLength bs
  if total ≤ limit then ⟨items, false, []⟩
  else
    let note := truncationNote limit
    let room := max 0 (limit - note.length)
    let (cut, sections, _) := cutBack bs (total - room).toNat
    ⟨cut ++ [textBlock note], true, sections⟩

/-- The field of structured data that holds remarks on the reply. -/
def metaField : String := "_meta"

/-- The remarks of structured data; they are missing at first, and must be an object. -/
def remarks? (fields : Fields) : Option Fields :=
  match fields.get? metaField with
  | none => some []
  | some (.obj remarks) => some remarks
  | some _ => none

/-- The remarks on a reply that was cut. -/
def truncationRemarks (limit : Int) (sections : List String) : Fields :=
  [("truncated", .bool true), ("character_limit", .int limit),
    ("truncation_hint", .str (truncationHint limit))] ++
    if sections.isEmpty then [] else [("truncated_sections", .strings sections)]

/-- Adds remarks to structured data when the reply was cut. Fails when there is something else in
the place of the remarks. -/
def withRemarks? (limit : Int) (structured : Option Fields) (limited : Limited) :
    Option (Option Fields) :=
  if limited.truncated then do
    let fields := structured.getD []
    let remarks ← remarks? fields
    return some (fields.put metaField
      (.obj (Fields.merge remarks (truncationRemarks limit limited.sections))))
  else some structured

end TypeLens.Reply
