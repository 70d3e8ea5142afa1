import TypeLens.Text.Blank
import TypeLens.Text.Scan
import TypeLens.Text.Word

/-!
# Member lines

A member line is one line of a laid-out type that declares a member: an optional `readonly`, a key,
an optional `?`, a colon and a space, the member's type and an optional semicolon. `Member.read?`
reads such a line and `Member.chars` writes it back.

A member whose type admits `undefined` at either end of a union is written as an optional member
instead: `sugar` turns `name: X | undefined;` into `name?: X;`. A type that contains an arrow is
left alone, because a union behind an arrow belongs to the result type.
-/

namespace TypeLens.Layout

open Text

/-- The parts of a member line. -/
structure Member where
  /-- The `readonly` keyword with the blanks behind it, or nothing. -/
  modifier : List Char
  /-- The key as it is written, quotes included. -/
  key : List Char
  /-- Whether the key is followed by a question mark. -/
  optional : Bool
  /-- The text of the member's type. -/
  type : List Char
  /-- The final semicolon, or nothing. -/
  terminator : List Char
deriving Repr, DecidableEq

namespace Member

/-- The `readonly` keyword and the blanks behind it, at least one, with what follows. -/
def readModifier (cs : List Char) : List Char × List Char :=
  match after? "readonly".toList cs with
  | some rest =>
    match rest.takeWhile isBlank with
    | [] => ([], cs)
    | blanks => ("readonly".toList ++ blanks, rest.dropWhile isBlank)
  | none => ([], cs)

/-- The rest of a quoted key up to its closing quote, which no backslash precedes, with what
follows. -/
def readQuoted? : List Char → Option (List Char × List Char)
  | [] => none
  | '"' :: cs => some (['"'], cs)
  | ['\\'] => none
  | '\\' :: c :: cs => (readQuoted? cs).map fun (key, rest) ↦ ('\\' :: c :: key, rest)
  | c :: cs => (readQuoted? cs).map fun (key, rest) ↦ (c :: key, rest)

/-- A key, quoted or bare, with what follows. -/
def readKey? : List Char → Option (List Char × List Char)
  | '"' :: cs => (readQuoted? cs).map fun (key, rest) ↦ ('"' :: key, rest)
  | cs => name? cs

/-- A question mark, if there is one, with what follows. -/
def readQuestion : List Char → Bool × List Char
  | '?' :: cs => (true, cs)
  | cs => (false, cs)

/-- The type and the final semicolon: the semicolon is split off unless it is all there is. -/
def readType? (cs : List Char) : Option (List Char × List Char) :=
  match cs with
  | [] => none
  | [c] => some ([c], [])
  | cs => if cs.getLast? = some ';' then some (cs.dropLast, [';']) else some (cs, [])

/-- Reads a member line. -/
def read? (line : List Char) : Option Member := do
  let (modifier, rest) := readModifier line
  let (key, rest) ← readKey? rest
  let (optional, rest) := readQuestion rest
  let rest ← after? ": ".toList rest
  let (type, terminator) ← readType? rest
  return { modifier, key, optional, type, terminator }

/-- The line a member is written on. -/
def chars (m : Member) : List Char :=
  m.modifier ++ m.key ++ (if m.optional then ['?'] else []) ++ ": ".toList ++ m.type ++
    m.terminator

end Member

/-- Drops `word` from the start as often as it stands there, at most `budget` times. -/
def dropWords (word : List Char) : (budget : Nat) → List Char → List Char
  | 0, cs => cs
  | n + 1, cs =>
    match after? word cs with
    | some rest => dropWords word n rest
    | none => cs

/-- The union with the `undefined` members at its two ends left out. -/
def withoutUndefined (type : List Char) : List Char :=
  let tail := (dropWords " | undefined".toList.reverse type.length type.reverse).reverse
  dropWords "undefined | ".toList tail.length tail

/-- Writes a member that admits `undefined` as an optional member. -/
def sugar (line : List Char) : List Char :=
  match Member.read? line with
  | none => line
  | some m =>
    if occurs "=>".toList m.type then line
    else
      let type := withoutUndefined m.type
      if type = m.type ∨ type.all isBlank then line
      else { m with optional := true, type := trimEnd isBlank type }.chars

end TypeLens.Layout
