import TypeLens.Decimal.Text
import TypeLens.Json.Basic

/-!
# Writing structured data

The compact form: no white space, members in their order, and only quotes, backslashes and control
characters escaped. An integer beyond 64 bits has no written form, and neither has a value that is
nested too deeply; `isWritable` is the test.
-/

namespace TypeLens.Json

/-- A hexadecimal digit in lower case. -/
def hexChar (n : Nat) : Char :=
  if n < 10 then Char.ofNat (48 + n) else Char.ofNat (87 + n)

/-- The characters a character is written with inside a string. -/
def escapeChar (c : Char) : List Char :=
  match c with
  | '"' => ['\\', '"']
  | '\\' => ['\\', '\\']
  | '\x08' => ['\\', 'b']
  | '\t' => ['\\', 't']
  | '\n' => ['\\', 'n']
  | '\x0c' => ['\\', 'f']
  | '\r' => ['\\', 'r']
  | c =>
    if c.toNat < 0x20 then ['\\', 'u', '0', '0', hexChar (c.toNat / 16), hexChar (c.toNat % 16)]
    else [c]

/-- A string with its quotes. -/
def quoteText (s : String) : String :=
  .ofList ('"' :: s.toList.flatMap escapeChar ++ ['"'])

/-- The text of a floating-point number; what is not finite is `null`. -/
def floatText (x : Float) : String :=
  if x.isNaN ∨ x.isInf then "null" else Decimal.data.writeFloat x

mutual

/-- The compact text of a value. -/
def write : Json → String
  | null => "null"
  | bool true => "true"
  | bool false => "false"
  | int n => toString n
  | float x => floatText x
  | str s => quoteText s
  | arr items => "[" ++ ",".intercalate (writeItems items) ++ "]"
  | obj fields => "\x7b" ++ ",".intercalate (writeFields fields) ++ "\x7d"

/-- The texts of the items of an array. -/
def writeItems : List Json → List String
  | [] => []
  | item :: items => item.write :: writeItems items

/-- The texts of the members of an object. -/
def writeFields : List (String × Json) → List String
  | [] => []
  | (key, value) :: fields => (quoteText key ++ ":" ++ value.write) :: writeFields fields

end

/-! ### Values without a written form -/

mutual

/-- Whether every integer of a value fits 64 bits, signed or not. -/
def hasNarrowIntegers : Json → Bool
  | int n => isNarrow n
  | arr items => itemsHaveNarrowIntegers items
  | obj fields => fieldsHaveNarrowIntegers fields
  | _ => true

/-- Whether every integer of the items fits 64 bits. -/
def itemsHaveNarrowIntegers : List Json → Bool
  | [] => true
  | item :: items => item.hasNarrowIntegers && itemsHaveNarrowIntegers items

/-- Whether every integer of the values of the members fits 64 bits. -/
def fieldsHaveNarrowIntegers : List (String × Json) → Bool
  | [] => true
  | (_, value) :: fields => value.hasNarrowIntegers && fieldsHaveNarrowIntegers fields

end

/-- The greatest depth of a value that is written. -/
def maxWrittenDepth : Nat := 255

/-- Whether a value has a written form. -/
def isWritable (v : Json) : Bool :=
  v.hasNarrowIntegers && v.depth ≤ maxWrittenDepth

end TypeLens.Json
