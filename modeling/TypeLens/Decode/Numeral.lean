import TypeLens.Json.Reader
import TypeLens.Text.Blank
import TypeLens.Text.Number
import TypeLens.Text.Scan

/-!
# Numerals in strings

Numbers may arrive as strings. `integerOf` reads an integer. A numeral in canonical form, which has
no zeros in front, is read as it stands. Any other text is tidied first, and then it has to be
canonical: white characters around it, a plus sign, zeros in front, single underscores between
digits and a fractional part of zeros are allowed. `floatOf` reads a decimal numeral, an infinity or
a not-a-number.
-/

namespace TypeLens.Numeral

open Text

/-- The greatest length of an integer that is read from a string, with its sign. -/
def maxLength : Nat := 4300

/-- What reading an integer numeral can answer. -/
inductive Reading where
  | value (n : Int)
  | tooLong
  | invalid
deriving Repr, DecidableEq

/-- Reads an integer without sign, zeros in front or separators. A run of more than `room` digits is
too long whatever stands behind it. -/
def plainDigits (room : Nat) (cs : List Char) : Reading :=
  match cs with
  | ['0'] => .value 0
  | '0' :: _ => .invalid
  | [] => .invalid
  | cs =>
    if room < (cs.takeWhile isLatinDigit).length then .tooLong
    else if cs.all isLatinDigit then .value (Json.natOfDigits cs)
    else .invalid

/-- Reads an integer in its canonical form. -/
def canonical (cs : List Char) : Reading :=
  match cs with
  | '-' :: digits =>
    match plainDigits (maxLength - 1) digits with
    | .value n => .value (-n)
    | r => r
  | cs => plainDigits maxLength cs

/-- Drops zeros and underscores in front of the first other digit or a minus sign. The argument is
the last character dropped, which is kept before a decimal point and at the end. -/
def dropZerosFrom (last : Char) : List Char → Option (List Char)
  | [] => some [last]
  | c :: cs =>
    if c = '0' ∨ c = '_' then dropZerosFrom c cs
    else if c = '.' then some (last :: c :: cs)
    else if c = '-' ∨ ('1' ≤ c ∧ c ≤ '9') then some (c :: cs)
    else none

/-- Drops the zeros in front of a numeral, which has to start with a digit. -/
def dropZeros : List Char → Option (List Char)
  | '0' :: cs => dropZerosFrom '0' cs
  | c :: cs => if '1' ≤ c ∧ c ≤ '9' then some (c :: cs) else none
  | [] => none

/-- Drops a decimal point with nothing but zeros behind it, of which there is at least one. -/
def dropZeroFraction (cs : List Char) : List Char :=
  match cutFirst? ['.'] cs with
  | some (whole, fraction) =>
    if !fraction.isEmpty && fraction.all (· == '0') then whole else cs
  | none => cs

/-- Drops underscores that stand alone between other characters. -/
def dropUnderscores (cs : List Char) : List Char :=
  if cs.head? = some '_' ∨ cs.getLast? = some '_' ∨ occurs ['_', '_'] cs then cs
  else cs.filter (· != '_')

/-- The canonical form of a numeral without sign, if it is one. -/
def tidyDigits? (cs : List Char) : Option (List Char) :=
  (dropZeros cs).map fun cs ↦ dropUnderscores (dropZeroFraction cs)

/-- The canonical form of a numeral, if it is one. -/
def tidy? : List Char → Option (List Char)
  | '+' :: cs => tidyDigits? cs
  | '-' :: cs => (tidyDigits? cs).map ('-' :: ·)
  | cs => tidyDigits? cs

/-- Reads an integer numeral. Only one that needs no tidying can be too long. -/
def integerOf (s : String) : Reading :=
  match canonical s.toList with
  | .invalid =>
    match (tidy? (trim isWhite s.toList)).map canonical with
    | some (.value n) => .value n
    | _ => .invalid
  | r => r

/-- The lower case of the letters of the Latin alphabet; other characters stay as they are. -/
def lowerLatin (cs : List Char) : List Char :=
  cs.map Char.toLower

/-- Reads a floating-point numeral. -/
def floatOf (s : String) : Option Float :=
  match signedFloat? (trim isWhite s.toList) with
  | some x => some x
  | none => if s.toList.contains '_' then signedFloat? (dropUnderscores s.toList) else none

end TypeLens.Numeral
