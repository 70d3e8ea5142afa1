import TypeLens.Json.Reader
import TypeLens.Text.Blank
import TypeLens.Text.Quoted

/-!
# Numbers typed by people

Settings and positions are typed as text. `integer?` and `float?` read such text: white characters
around it, a sign, decimal digits of any script, and single underscores between digits. An
information separator is no white character here. `float?` also reads infinities and not-a-numbers,
and a number beyond the range of floating-point numbers is infinite.
-/

namespace TypeLens.Text

/-- The greatest number of digits of an integer that is read or shown. -/
def maxIntegerDigits : Nat := 4300

/-- Why a text is no integer. -/
inductive IntegerError where
  /-- The text is no integer numeral. -/
  | syntactic (text : String)
  /-- The numeral has too many digits. -/
  | tooLong (digits : Nat)
deriving Repr, DecidableEq

/-- The text of a refusal. -/
def IntegerError.message : IntegerError → String
  | syntactic text => "invalid literal for int() with base 10: " ++ quoted text
  | tooLong digits =>
    "Exceeds the limit (" ++ toString maxIntegerDigits ++
      " digits) for integer string conversion: value has " ++ toString digits ++
      " digits; use sys.set_int_max_str_digits() to increase the limit"

/-- Whether an integer has few enough digits to be shown. -/
def isShowable (n : Int) : Bool :=
  n.natAbs < Nat.pow 10 maxIntegerDigits

/-- The text of a refusal to show an integer. -/
def showRefusal : String :=
  "Exceeds the limit (" ++ toString maxIntegerDigits ++
    " digits) for integer string conversion; use sys.set_int_max_str_digits() to increase the limit"

/-- Writes the digits of other scripts with the digits of ASCII. -/
def latinDigits (cs : List Char) : List Char :=
  cs.map fun c ↦
    match digit? c with
    | some d => Char.ofNat (48 + d)
    | none => c

/-- Drops the underscores that stand between two digits. The argument says whether a digit
precedes. -/
def dropSeparators : (afterDigit : Bool) → List Char → List Char
  | _, [] => []
  | afterDigit, c :: cs =>
    match c, cs with
    | '_', d :: _ =>
      if afterDigit && isLatinDigit d then dropSeparators false cs else c :: dropSeparators false cs
    | _, _ => c :: dropSeparators (isLatinDigit c) cs

/-- A typed number in plain form: without white characters around it, in digits of ASCII, and
without separators between digits. -/
def plainNumeral (s : String) : List Char :=
  dropSeparators false (latinDigits (trim isWhite s.toList))

/-- Reads an integer. -/
def integer? (s : String) : Except IntegerError Int :=
  let (negative, digits) := Json.readSign (plainNumeral s)
  if digits.isEmpty || !digits.all isLatinDigit then .error (.syntactic s)
  else if maxIntegerDigits < digits.length then .error (.tooLong digits.length)
  else
    let n : Int := Json.natOfDigits digits
    .ok (if negative then -n else n)

/-- Reads a nonnegative decimal number. -/
def magnitude? (cs : List Char) : Option Float := do
  let whole := cs.takeWhile isLatinDigit
  let rest := cs.dropWhile isLatinDigit
  let (fraction, rest) := match rest with
    | '.' :: rest => (rest.takeWhile isLatinDigit, rest.dropWhile isLatinDigit)
    | rest => ([], rest)
  guard (!(whole ++ fraction).isEmpty)
  let (exponent, rest) ← Json.readExponent? rest
  guard rest.isEmpty
  return (Json.float? (Json.natOfDigits (whole ++ fraction))
    (exponent.getD 0 - fraction.length)).getD (1 / 0)

/-- Reads an infinity, a not-a-number or a decimal number, with an optional sign. -/
def signedFloat? (cs : List Char) : Option Float :=
  let (negative, body) := Json.readSign cs
  let word := body.map Char.toLower
  let size :=
    if word = "inf".toList ∨ word = "infinity".toList then some (1 / 0)
    else if word = "nan".toList then some (0 / 0)
    else magnitude? body
  size.map fun x ↦ if negative then -x else x

/-- Reads a floating-point number. -/
def float? (s : String) : Option Float :=
  signedFloat? (plainNumeral s)

end TypeLens.Text
