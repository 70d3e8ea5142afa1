import TypeLens.Decode.Fault
import TypeLens.Decode.Numeral

/-!
# Decoding scalars and sequences

Scalars are read leniently. An integer may arrive as a truth value, as a floating-point number
without fraction or as a numeral; a truth value as the numbers 0 and 1 or as one of a few words;
a floating-point number as any number, truth value or numeral. Strings are never made from other
values.
-/

namespace TypeLens.Decoder

variable {α : Type}

/-- The integer a floating-point number without fraction stands for, below 64 bits. -/
def integerOfFloat (x : Float) : Decoded Int :=
  if x.isNaN ∨ x.isInf then .refuse .integerSize
  else if x.floor != x then .refuse .fractional
  else if -9223372036854775808 < x ∧ x < 9223372036854775808 then .ok x.toInt64.toInt
  else .refuse .integerSize

/-- Reads an integer. -/
def integer : Decoder Int
  | .int n => .ok n
  | .bool b => .ok (if b then 1 else 0)
  | .float x => integerOfFloat x
  | .str s =>
    match Numeral.integerOf s with
    | .value n => .ok n
    | .tooLong => .refuse .integerSize
    | .invalid => .refuse .integerSyntax
  | _ => .refuse .notInteger

/-- Reads an integer between bounds. -/
def integerBetween (least : Int) (greatest : Option Int) (v : Json) : Decoded Int :=
  (integer v).filter fun n ↦
    if n < least then some .tooSmall
    else match greatest with
      | some g => if g < n then some .tooLarge else none
      | none => none

/-- Reads an integer that is not negative. -/
def natural (v : Json) : Decoded Nat :=
  (integerBetween 0 none v).andThen fun n ↦ .ok n.toNat

/-- The words for truth, in lower case. -/
def trueWords : List String := ["1", "true", "t", "yes", "y", "on"]

/-- The words for falsehood, in lower case. -/
def falseWords : List String := ["0", "false", "f", "no", "n", "off"]

/-- The truth value of a number within 64 bits. -/
def booleanOfInteger (n : Int) : Decoded Bool :=
  if n = 0 then .ok false
  else if n = 1 then .ok true
  else if -Json.signedBound ≤ n ∧ n < Json.signedBound then .refuse .booleanSyntax
  else .refuse .notBoolean

/-- Reads a truth value. -/
def boolean : Decoder Bool
  | .bool b => .ok b
  | .int n => booleanOfInteger n
  | .float x =>
    match integerOfFloat x with
    | .ok n => booleanOfInteger n
    | .error _ => .refuse .notBoolean
  | .str s =>
    let word := String.ofList (Numeral.lowerLatin s.toList)
    if word ∈ trueWords then .ok true
    else if word ∈ falseWords then .ok false
    else .refuse .booleanSyntax
  | _ => .refuse .notBoolean

/-- The floating-point number next to an integer, unless the integer is beyond all of them. -/
def floatOfInteger (n : Int) : Decoded Float :=
  let x := Float.ofInt n
  if x.isInf then .refuse .notNumber else .ok x

/-- Reads a floating-point number. -/
def number : Decoder Float
  | .float x => .ok x
  | .int n => floatOfInteger n
  | .bool b => .ok (if b then 1 else 0)
  | .str s =>
    match Numeral.floatOf s with
    | some x => .ok x
    | none => .refuse .numberSyntax
  | _ => .refuse .notNumber

/-- Reads a string. -/
def string : Decoder String
  | .str s => .ok s
  | _ => .refuse .notString

/-- Reads one of the words of a list. -/
def oneOf (words : List String) : Decoder String
  | .str s => if s ∈ words then .ok s else .refuse .notAllowed
  | _ => .refuse .notAllowed

/-- Reads a value or `null`. -/
def nullable (d : Decoder α) : Decoder (Option α)
  | .null => .ok none
  | v => some <$> d v

/-- Decodes the items from a position on, and collects all faults. -/
def itemsFrom (d : Decoder α) : (position : Nat) → List Json → Decoded (List α)
  | _, [] => .ok []
  | n, v :: vs => List.cons <$> (d v).under (.index n) <*> itemsFrom d (n + 1) vs

/-- Reads a list. -/
def list (d : Decoder α) : Decoder (List α)
  | .arr vs => itemsFrom d 0 vs
  | _ => .refuse .notList

/-- Reads a fixed sequence. -/
def sequence (d : Decoder α) : Decoder (List α)
  | .arr vs => itemsFrom d 0 vs
  | _ => .refuse .notSequence

/-- Decodes the values of all members, and collects all faults. -/
def entries (d : Decoder α) : Fields → Decoded (List (String × α))
  | [] => .ok []
  | (k, v) :: rest => List.cons <$> ((k, ·) <$> (d v).under (.key k)) <*> entries d rest

/-- Reads a map from strings. -/
def map (d : Decoder α) : Decoder (List (String × α))
  | .obj fields => entries d fields
  | _ => .refuse .notMap

end TypeLens.Decoder
