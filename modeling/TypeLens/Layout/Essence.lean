import TypeLens.Text.Blank
import TypeLens.Text.Scan
import TypeLens.Text.Word

/-!
# The essence of a declaration

Two declarations that differ only in layout have the same *essence*: the declaration without its
leading keyword, without blanks and semicolons, and without the qualifiers of qualified names.
-/

namespace TypeLens.Layout

open Text

/-- The lower-case letters of the Latin alphabet. -/
def isLatinLower (c : Char) : Bool :=
  'a' ≤ c && c ≤ 'z'

/-- Drops a lower-case word at the start together with the blank behind it. -/
def dropKeyword (cs : List Char) : List Char :=
  match cs.takeWhile isLatinLower, cs.dropWhile isLatinLower with
  | _ :: _, b :: rest => if isBlank b then rest else cs
  | _, _ => cs

/-- The characters of a qualifier. -/
def isQualifierChar (c : Char) : Bool :=
  isLatinLetter c || isLatinDigit c || c == '_'

/-- The length of the qualifier at the start of the text, its dot included. -/
def qualifierLength? : List Char → Option Nat
  | [] => none
  | c :: cs =>
    if isLatinLetter c || c == '_' then
      match cs.dropWhile isQualifierChar with
      | '.' :: _ => some ((cs.takeWhile isQualifierChar).length + 2)
      | _ => none
    else none

/-- Drops the qualifiers that start where no word character precedes. The first argument says
whether one precedes, the second how many characters of a qualifier are still to be dropped. -/
def dropQualifiersFrom : (inWord : Bool) → Nat → List Char → List Char
  | _, _, [] => []
  | _, n + 1, c :: cs => dropQualifiersFrom (isWordChar c) n cs
  | inWord, 0, c :: cs =>
    match if inWord then none else qualifierLength? (c :: cs) with
    | some n => dropQualifiersFrom (isWordChar c) (n - 1) cs
    | none => c :: dropQualifiersFrom (isWordChar c) 0 cs

/-- Drops the qualifiers of qualified names. -/
def dropQualifiers (cs : List Char) : List Char :=
  dropQualifiersFrom false 0 cs

/-- Drops blanks and semicolons. -/
def dropSpacing (cs : List Char) : List Char :=
  cs.filter fun c ↦ !isBlank c && c != ';'

/-- The essence of a declaration's characters. -/
def essenceChars (cs : List Char) : List Char :=
  dropQualifiers (dropSpacing (dropKeyword cs))

/-- The essence of a declaration. -/
def essence (text : String) : String :=
  .ofList (essenceChars text.toList)

end TypeLens.Layout
