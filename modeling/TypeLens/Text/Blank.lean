/-!
# Blank characters and trimming

Two classes of blank characters occur in type text. `isWhite` is the `White_Space` property of
Unicode; `isBlank` adds the four information separators U+001C to U+001F, which count as blank
wherever text is laid out, but not where the fields of a request are trimmed or numbers are read.

Trimming is stated on lists of characters, with `trim`, `trimStart` and `trimEnd` taking the class
as a parameter, so that the laws below hold for both classes at once.
-/

namespace TypeLens.Text

/-- The characters with the `White_Space` property. -/
def isWhite (c : Char) : Bool :=
  let n := c.toNat
  (9 ≤ n && n ≤ 13) || n == 0x20 || n == 0x85 || n == 0xA0 || n == 0x1680 ||
    (0x2000 ≤ n && n ≤ 0x200A) || n == 0x2028 || n == 0x2029 || n == 0x202F || n == 0x205F ||
    n == 0x3000

/-- The white characters and the four information separators. -/
def isBlank (c : Char) : Bool :=
  isWhite c || (0x1C ≤ c.toNat && c.toNat ≤ 0x1F)

variable {α : Type}

/-- Drops the longest run at the start whose elements satisfy `p`. -/
def trimStart (p : α → Bool) (cs : List α) : List α :=
  cs.dropWhile p

/-- Drops the longest run at the end whose elements satisfy `p`. -/
def trimEnd (p : α → Bool) (cs : List α) : List α :=
  (cs.reverse.dropWhile p).reverse

/-- Drops the elements that satisfy `p` from both ends. -/
def trim (p : α → Bool) (cs : List α) : List α :=
  trimEnd p (trimStart p cs)

@[simp]
theorem trimEnd_nil (p : α → Bool) : trimEnd p [] = [] :=
  rfl

/-- A last element outside the class stops the trimming. -/
theorem trimEnd_concat_of_not {p : α → Bool} {cs : List α} {c : α} (h : p c = false) :
    trimEnd p (cs ++ [c]) = cs ++ [c] := by
  simp [trimEnd, h]

/-- The text without blank characters at its ends. -/
def trimBlank (s : String) : String :=
  .ofList (trim isBlank s.toList)

/-- The text without blank characters at its end. -/
def trimBlankEnd (s : String) : String :=
  .ofList (trimEnd isBlank s.toList)

/-- The text without white characters at its ends. -/
def trimWhite (s : String) : String :=
  .ofList (trim isWhite s.toList)

end TypeLens.Text
