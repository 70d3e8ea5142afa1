import TypeLens.Lookup
import TypeLens.Tree.Codec

/-!
# The completion channel

An editor asks for the type at a position through the channel it asks for completions on: it puts a
request object where the trigger character belongs. A completion query whose trigger is such an
object is answered with an empty list of completions and the look-up's answer beside it; any other
query gets the empty list alone.

Options that cannot be read are not an error: the look-up runs with the default options then. But
there is no answer to the query when what was looked up cannot be written.
-/

namespace TypeLens.Channel

open TypeLens.Graph

/-- The word that marks a request object. -/
def marker : String := "prettify-type-info-request"

/-- The name of the field that holds the look-up's answer. -/
def responseField : String := "__prettifyResponse"

/-- The name of the field of a query that holds its trigger. -/
def triggerField : String := "triggerCharacter"

/-- Whether a trigger is a request object. -/
def isRequest : Json → Bool
  | .obj fields =>
    match Fields.get? fields "meta" with
    | some (.str word) => word == marker
    | _ => false
  | _ => false

/-- The fields of a request object. -/
def schema : Schema Options :=
  (fun _ options ↦ options) <$> .defaulting ["meta"] marker (Decoder.oneOf [marker])
    <*> .defaulting ["options"] {} Options.decode

/-- Reads a request object. -/
def decode : Decoder Options :=
  schema.openRecord

/-- Options as a request object. -/
def request (o : Options) : Json :=
  .obj [("meta", .str marker), ("options", o.toJson)]

/-- The options a trigger asks for, if it is a request object. -/
def requested? (trigger : Json) : Option Options :=
  if isRequest trigger then
    match decode trigger with
    | .ok o => some o
    | .error _ => some {}
  else none

/-- The empty list of completions. -/
def noCompletions : Fields :=
  [("isGlobalCompletion", .bool false), ("isMemberCompletion", .bool false),
    ("isNewIdentifierLocation", .bool false), ("entries", .arr [])]

/-- The trigger of a completion query. -/
def trigger : Json → Json
  | .obj fields => (Fields.get? fields triggerField).getD .null
  | _ => .null

variable {α : Type}

/-- What makes look-ups. -/
abbrev Provider (α : Type) := Options → Asked (Option α)

/-- The answer to a query with what was looked up in it. -/
def response (info : Json) : Fields :=
  noCompletions ++ [(responseField, info)]

/-- The answer to a query whose look-up was answered, if that can be written. -/
def response? (write? : α → Option Json) : Option α → Option Fields
  | none => some (response .null)
  | some info => (write? info).map response

/-- Answers a completion query, with look-ups made by the provider. There is no answer when what was
looked up cannot be written. -/
def completions (write? : α → Option Json) (provider : Provider α) (query : Json) :
    Asked (Option Fields) := do
  match requested? (trigger query) with
  | none => return some noCompletions
  | some options => return response? write? (← provider options)

/-- Reads the look-up's answer off the answer to a query. -/
def received (read : Decoder TypeInfo) (answer : Fields) : Decoded (Option TypeInfo) :=
  Decoder.nullable read ((answer.get? responseField).getD .null)

/-- The query that asks for a look-up. -/
def query (o : Options) : Json :=
  .obj [(triggerField, request o)]

end TypeLens.Channel
