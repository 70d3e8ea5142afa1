import TypeLens.Text.Word

/-!
# Property keys

A property key is written bare when it reads as a name or is an index signature in brackets, and
as a double-quoted literal otherwise. Inside the quotes a backslash and a quote are escaped by a
backslash, and nothing else is.

A bare key may carry one line feed at its end: the test looks at the key up to a final line feed,
but the key is written as it is.
-/

namespace TypeLens.Key

/-- The key without one line feed at its end. -/
def withoutFinalNewline (cs : List Char) : List Char :=
  if cs.getLast? = some '\n' then cs.dropLast else cs

/-- An index signature: brackets around a text on one line. -/
def isBracketed (cs : List Char) : Bool :=
  match cs with
  | '[' :: rest => rest.getLast? == some ']' && !rest.contains '\n'
  | _ => false

/-- Whether a key is written without quotes. -/
def isBare (cs : List Char) : Bool :=
  let body := withoutFinalNewline cs
  Text.isName body || isBracketed body

/-- Puts a backslash before each backslash and quote. -/
def escape (cs : List Char) : List Char :=
  cs.flatMap fun c ↦ if c = '\\' ∨ c = '"' then ['\\', c] else [c]

/-- The characters of a key as it is written in a rendered type. -/
def quoteChars (cs : List Char) : List Char :=
  if isBare cs then cs else '"' :: escape cs ++ ['"']

/-- A key as it is written in a rendered type. -/
def quote (name : String) : String :=
  .ofList (quoteChars name.toList)

end TypeLens.Key
