/-!
# Lines and editor positions

A text is cut into lines at every line terminator of Unicode; a carriage return and a line feed in a
row are one terminator. Editors give a position as a line and a column, both from one on, and count
columns in UTF-16 code units. `offset?` is the number of characters before such a position; a column
inside a character of two units counts as the column where the character begins.
-/

namespace TypeLens.Text

/-- The characters that end a line. -/
def isTerminator (c : Char) : Bool :=
  let n := c.toNat
  (10 ≤ n && n ≤ 13) || (0x1C ≤ n && n ≤ 0x1E) || n == 0x85 || n == 0x2028 || n == 0x2029

/-- A line of a text. -/
structure Line where
  /-- The characters of the line. -/
  body : List Char
  /-- The terminator, which only the last line may lack. -/
  terminator : List Char
deriving Repr, DecidableEq, Inhabited

/-- The line as it stands in the text. -/
def Line.chars (l : Line) : List Char :=
  l.body ++ l.terminator

/-- The lines of a text. A terminator at the end of the text does not begin another line. -/
def lines : List Char → List Line
  | [] => []
  | '\r' :: '\n' :: cs => ⟨[], ['\r', '\n']⟩ :: lines cs
  | c :: cs =>
    if isTerminator c then ⟨[], [c]⟩ :: lines cs
    else
      match lines cs with
      | [] => [⟨[c], []⟩]
      | l :: ls => ⟨c :: l.body, l.terminator⟩ :: ls

/-- The lines an editor shows: at least one, and an empty one behind a final line feed or carriage
return. -/
def editorLines (cs : List Char) : List Line :=
  let shown := match lines cs with
    | [] => [⟨[], []⟩]
    | ls => ls
  if cs.getLast? = some '\n' ∨ cs.getLast? = some '\r' then shown ++ [⟨[], []⟩] else shown

/-- The number of UTF-16 code units of a character. -/
def charUnits (c : Char) : Nat :=
  if 0xFFFF < c.toNat then 2 else 1

/-- The number of UTF-16 code units of a text. -/
def units : List Char → Nat
  | [] => 0
  | c :: cs => charUnits c + units cs

/-- The number of characters before a code unit. -/
def indexOfUnit? : (unit : Nat) → List Char → Option Nat
  | 0, _ => some 0
  | _ + 1, [] => none
  | u + 1, c :: cs =>
    if u + 1 < charUnits c then some 0 else (indexOfUnit? (u + 1 - charUnits c) cs).map (· + 1)

/-- The number of characters of some lines, with their terminators. -/
def lengthOfLines : List Line → Nat
  | [] => 0
  | l :: ls => l.chars.length + lengthOfLines ls

/-- The number of characters before a position. -/
def offset? (text : String) (line column : Int) : Option Nat :=
  let ls := editorLines text.toList
  if line < 1 ∨ column < 1 then none
  else
    match ls[line.toNat - 1]? with
    | none => none
    | some l =>
      (indexOfUnit? (column.toNat - 1) l.body).map fun i ↦
        lengthOfLines (ls.take (line.toNat - 1)) + i

/-- A line of a text with a mark before a column, counted in characters. -/
def lineWithMark (text : String) (line : Int) (column : Option Int) (mark : String) : String :=
  if line < 1 then "Line number out of range"
  else
    match (lines text.toList)[line.toNat - 1]? with
    | none => "Line number out of range"
    | some l =>
      match column with
      | none => .ofList l.body
      | some c =>
        if c < 1 ∨ l.body.length < c - 1 then "Invalid column number"
        else
          let i := c.toNat - 1
          .ofList (l.body.take i) ++ mark ++ .ofList (l.body.drop i)

/-- The mark of the cursor. -/
def cursorMark : String := "<cursor>"

end TypeLens.Text
