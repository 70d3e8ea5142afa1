import TypeLens.Json.Basic
import TypeLens.Text.Word

/-!
# Reading structured data

A strict reader: one value, nothing behind it but white space, no leading zeros, no control
characters in strings, no escape of half a surrogate pair, no number beyond the range of
floating-point numbers. When a key occurs twice in an object, the last value counts, at the place
of the first.

`Limits` says how deep values may nest and whether integers beyond 64 bits are kept or read as
floating-point numbers. The reader recurses on a budget that the length of the text bounds: every
second call passes over a character.
-/

namespace TypeLens.Json

/-- What a reader accepts beyond the grammar. -/
structure Limits where
  /-- The greatest depth of nesting. -/
  maxDepth : Nat
  /-- Whether an integer beyond 64 bits stays an integer. -/
  wideIntegers : Bool
deriving Repr, DecidableEq

/-- The limits of snapshot files: 1024 levels, and integers of 64 bits with or without sign. -/
def Limits.snapshot : Limits := ⟨1024, false⟩

/-- The limits of request lines: integers of any size. -/
def Limits.line : Limits := ⟨100000, true⟩

/-- The white space between tokens. -/
def isTokenSpace (c : Char) : Bool :=
  c == ' ' || c == '\t' || c == '\n' || c == '\r'

/-- The text from its first token on. -/
def skipSpace (cs : List Char) : List Char :=
  cs.dropWhile isTokenSpace

/-- The value of a hexadecimal digit. -/
def hexDigit? (c : Char) : Option Nat :=
  if '0' ≤ c ∧ c ≤ '9' then some (c.toNat - 48)
  else if 'a' ≤ c ∧ c ≤ 'f' then some (c.toNat - 87)
  else if 'A' ≤ c ∧ c ≤ 'F' then some (c.toNat - 55)
  else none

/-- The value of four hexadecimal digits. -/
def hex4? (a b c d : Char) : Option Nat := do
  return (((← hexDigit? a) * 16 + (← hexDigit? b)) * 16 + (← hexDigit? c)) * 16 + (← hexDigit? d)

/-- The character of a simple escape. -/
def escaped? : Char → Option Char
  | '"' => some '"'
  | '\\' => some '\\'
  | '/' => some '/'
  | 'b' => some '\x08'
  | 'f' => some '\x0c'
  | 'n' => some '\n'
  | 'r' => some '\r'
  | 't' => some '\t'
  | _ => none

/-- The rest of a string up to its closing quote, with what follows. -/
def readString? : List Char → Option (List Char × List Char)
  | [] => none
  | '"' :: cs => some ([], cs)
  | '\\' :: 'u' :: a :: b :: c :: d :: cs =>
    match hex4? a b c d with
    | none => none
    | some n =>
      if 0xD800 ≤ n ∧ n < 0xDC00 then
        match cs with
        | '\\' :: 'u' :: e :: f :: g :: h :: cs =>
          match hex4? e f g h with
          | none => none
          | some m =>
            if 0xDC00 ≤ m ∧ m < 0xE000 then
              (readString? cs).map fun (text, rest) ↦
                (Char.ofNat (0x10000 + (n - 0xD800) * 0x400 + (m - 0xDC00)) :: text, rest)
            else none
        | _ => none
      else if 0xDC00 ≤ n ∧ n < 0xE000 then none
      else (readString? cs).map fun (text, rest) ↦ (Char.ofNat n :: text, rest)
  | '\\' :: e :: cs =>
    match escaped? e with
    | none => none
    | some c => (readString? cs).map fun (text, rest) ↦ (c :: text, rest)
  | c :: cs =>
    if c.toNat < 0x20 ∨ c = '\\' then none
    else (readString? cs).map fun (text, rest) ↦ (c :: text, rest)

/-- The number a run of decimal digits stands for. -/
def natOfDigits (digits : List Char) : Nat :=
  digits.foldl (fun n c ↦ 10 * n + (c.toNat - 48)) 0

/-- The floating-point number nearest to `mantissa · 10 ^ exponent`, unless it is out of range. -/
def float? (mantissa : Nat) (exponent : Int) : Option Float :=
  let size : Int := (Nat.toDigits 10 mantissa).length + exponent
  if mantissa = 0 ∨ size < -400 then some 0
  else if 400 < size then none
  else
    let x := Float.ofScientific mantissa (exponent < 0) exponent.natAbs
    if x.isInf then none else some x

/-- The digits behind a decimal point, if there is one, with what follows. -/
def readFraction? : List Char → Option (List Char × List Char)
  | '.' :: cs =>
    match cs.takeWhile Text.isLatinDigit with
    | [] => none
    | digits => some (digits, cs.dropWhile Text.isLatinDigit)
  | cs => some ([], cs)

/-- The sign of an exponent, with what follows. -/
def readSign : List Char → Bool × List Char
  | '-' :: cs => (true, cs)
  | '+' :: cs => (false, cs)
  | cs => (false, cs)

/-- The exponent, if there is one, with what follows. -/
def readExponent? (cs : List Char) : Option (Option Int × List Char) :=
  match cs with
  | c :: cs' =>
    if c = 'e' ∨ c = 'E' then
      let (negative, rest) := readSign cs'
      match rest.takeWhile Text.isLatinDigit with
      | [] => none
      | digits =>
        let n : Int := natOfDigits digits
        some (some (if negative then -n else n), rest.dropWhile Text.isLatinDigit)
    else some (none, cs)
  | [] => some (none, [])

/-- The digits before a decimal point: a zero alone, or digits that do not start with a zero. -/
def readWhole? : List Char → Option (List Char × List Char)
  | '0' :: cs => some (['0'], cs)
  | cs =>
    match cs.takeWhile Text.isLatinDigit with
    | [] => none
    | digits => some (digits, cs.dropWhile Text.isLatinDigit)

/-- A number without its sign, with what follows. -/
def readUnsigned? (limits : Limits) (negative : Bool) (cs : List Char) :
    Option (Json × List Char) := do
  let (whole, rest) ← readWhole? cs
  let (fraction, rest) ← readFraction? rest
  let (exponent, rest) ← readExponent? rest
  let mantissa := natOfDigits (whole ++ fraction)
  let n : Int := if negative then -(mantissa : Int) else mantissa
  if fraction.isEmpty ∧ exponent = none ∧ (limits.wideIntegers ∨ isNarrow n) then
    return (.int n, rest)
  else
    let x ← float? mantissa (exponent.getD 0 - fraction.length)
    return (.float (if negative then -x else x), rest)

/-- A number, with what follows. -/
def readNumber? (limits : Limits) : List Char → Option (Json × List Char)
  | '-' :: cs => readUnsigned? limits true cs
  | cs => readUnsigned? limits false cs

/-- A value that is neither an array nor an object, with what follows. -/
def readScalar? (limits : Limits) (cs : List Char) : Option (Json × List Char) :=
  match cs with
  | '"' :: cs => (readString? cs).map fun (text, rest) ↦ (.str (.ofList text), rest)
  | 't' :: 'r' :: 'u' :: 'e' :: cs => some (.bool true, cs)
  | 'f' :: 'a' :: 'l' :: 's' :: 'e' :: cs => some (.bool false, cs)
  | 'n' :: 'u' :: 'l' :: 'l' :: cs => some (.null, cs)
  | cs => readNumber? limits cs

mutual

/-- A value, with what follows. -/
def readValue? (limits : Limits) : (budget : Nat) → (depth : Nat) → List Char →
    Option (Json × List Char)
  | 0, _, _ => none
  | n + 1, depth, cs =>
    match skipSpace cs with
    | '[' :: cs =>
      if limits.maxDepth ≤ depth then none
      else
        match skipSpace cs with
        | ']' :: rest => some (.arr [], rest)
        | cs => (readItems? limits n (depth + 1) cs).map fun (items, rest) ↦ (.arr items, rest)
    | '{' :: cs =>
      if limits.maxDepth ≤ depth then none
      else
        match skipSpace cs with
        | '}' :: rest => some (.obj [], rest)
        | cs =>
          (readFields? limits n (depth + 1) cs).map fun (fields, rest) ↦
            (.obj (Fields.merge [] fields), rest)
    | cs => readScalar? limits cs

/-- The items of an array up to its closing bracket, with what follows. -/
def readItems? (limits : Limits) : (budget : Nat) → (depth : Nat) → List Char →
    Option (List Json × List Char)
  | 0, _, _ => none
  | n + 1, depth, cs =>
    match readValue? limits n depth cs with
    | none => none
    | some (item, rest) =>
      match skipSpace rest with
      | ']' :: rest => some ([item], rest)
      | ',' :: rest =>
        (readItems? limits n depth rest).map fun (items, rest) ↦ (item :: items, rest)
      | _ => none

/-- The members of an object up to its closing brace, with what follows. -/
def readFields? (limits : Limits) : (budget : Nat) → (depth : Nat) → List Char →
    Option (Fields × List Char)
  | 0, _, _ => none
  | n + 1, depth, cs =>
    match skipSpace cs with
    | '"' :: cs =>
      match readString? cs with
      | none => none
      | some (key, rest) =>
        match skipSpace rest with
        | ':' :: rest =>
          match readValue? limits n depth rest with
          | none => none
          | some (value, rest) =>
            match skipSpace rest with
            | '}' :: rest => some ([(.ofList key, value)], rest)
            | ',' :: rest =>
              (readFields? limits n depth rest).map fun (fields, rest) ↦
                ((.ofList key, value) :: fields, rest)
            | _ => none
        | _ => none
    | _ => none

end

/-- Reads a text that holds one value. -/
def read? (limits : Limits) (text : String) : Option Json :=
  let cs := text.toList
  match readValue? limits (2 * cs.length + 2) 0 cs with
  | some (value, rest) => if (skipSpace rest).isEmpty then some value else none
  | none => none

/-- Reads bytes that hold one value in UTF-8. -/
def readBytes? (limits : Limits) (bytes : ByteArray) : Option Json :=
  (String.fromUTF8? bytes).bind (read? limits)

end TypeLens.Json
