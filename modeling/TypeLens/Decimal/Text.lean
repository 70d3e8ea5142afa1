import TypeLens.Decimal.Shortest

/-!
# The text of floating-point numbers

`Format` holds the choices a notation for floating-point numbers makes; the digits themselves are
always the shortest ones. Two notations are used: `report` for the settings a server reports, and
`data` for numbers inside structured data.
-/

namespace TypeLens.Decimal

/-- The choices of a notation for floating-point numbers. -/
structure Format where
  /-- The least power of ten of the first digit that is written positionally. -/
  leastPositional : Int
  /-- The greatest power of ten of the first digit that is written positionally. -/
  greatestPositional : Int
  /-- The least number of digits of an exponent. -/
  exponentWidth : Nat
deriving Repr, DecidableEq

/-- The notation of reported settings: positional from `10 ^ -4` up to `10 ^ 15`, an exponent of at
least two digits beyond. -/
def report : Format := ⟨-4, 15, 2⟩

/-- The notation of structured data: positional from `10 ^ -5` up to `10 ^ 15`, an exponent without
padding beyond. -/
def data : Format := ⟨-5, 15, 1⟩

/-- Removes the zeros at the end of the digits, at most `budget` of them. -/
def Digits.normalize : (budget : Nat) → Digits → Digits
  | 0, d => d
  | n + 1, d =>
    if d.digits ≠ 0 ∧ d.digits % 10 = 0 then normalize n ⟨d.digits / 10, d.exponent + 1⟩ else d

/-- The text of an exponent, always with a sign. -/
def Format.exponentText (f : Format) (e : Int) : String :=
  let digits := Nat.repr e.natAbs
  let padding := String.ofList (List.replicate (f.exponentWidth - digits.length) '0')
  let sign := if e < 0 then "-" else "+"
  "e" ++ sign ++ padding ++ digits

/-- The text of a positive decimal in a notation. -/
def Format.write (f : Format) (d : Digits) : String :=
  let d := d.normalize 20
  let digits := Nat.toDigits 10 d.digits
  let lead : Int := d.exponent + digits.length - 1
  if f.leastPositional ≤ lead ∧ lead ≤ f.greatestPositional then
    if 0 ≤ d.exponent then
      .ofList (digits ++ List.replicate d.exponent.toNat '0' ++ ['.', '0'])
    else if 0 ≤ lead then
      .ofList (digits.take (lead.toNat + 1) ++ '.' :: digits.drop (lead.toNat + 1))
    else
      .ofList ('0' :: '.' :: List.replicate (-lead - 1).toNat '0' ++ digits)
  else
    match digits with
    | [] => ""
    | [first] => .ofList [first] ++ f.exponentText lead
    | first :: more => .ofList (first :: '.' :: more) ++ f.exponentText lead

/-! ### Binary numbers -/

/-- The bound of the 52 bits behind the leading one. -/
def fractionBound : Nat := 4503599627370496

/-- The bound of the 11 bits of the exponent. -/
def scaleBound : Nat := 2048

/-- The bit of the sign, above all others. -/
def signBit : Nat := 9223372036854775808

/-- The magnitude of a finite number, from the bits of its encoding. -/
def Binary.ofBits (bits : Nat) : Binary :=
  let fraction := bits % fractionBound
  let scale := bits / fractionBound % scaleBound
  if scale = 0 then ⟨fraction, -1074, false⟩
  else ⟨fractionBound + fraction, Int.ofNat scale - 1075, fraction == 0 && 1 < scale⟩

/-- The integer part of a finite number. -/
def truncate (x : Float) : Int :=
  let size : Int := (Binary.ofBits x.toBits.toNat).value.floorOn 0
  if x < 0 then -size else size

/-- The text of a floating-point number in a notation. -/
def Format.writeFloat (f : Format) (x : Float) : String :=
  let bits := x.toBits.toNat
  if x.isNaN then "nan"
  else
    let sign := if bits < signBit then "" else "-"
    if x.isInf then sign ++ "inf"
    else if x == 0 then sign ++ "0.0"
    else sign ++ f.write (Binary.ofBits bits).shortest

end TypeLens.Decimal
