import TypeLens.Layout.Brace
import TypeLens.Layout.ImportPath
import TypeLens.Layout.Member

/-!
# Laying out a type

A type arrives as one line of text and is laid out with one member on each line. The line breaks
behind `{` and `;` and before `}`; each line is indented by its depth of open braces; a member that
admits `undefined` is written as an optional member (`sugar`), import paths are shortened
(`shortenImports`), and braces with nothing to lay out are closed again (`closeBraces`).

The layout works on text alone, so it applies as well to type text copied from elsewhere. Depth is
counted by lines: a line with a closing brace is one level further out, and a line with an opening
brace moves the lines behind it one level in.
-/

namespace TypeLens.Layout

open Text

/-- The text with a line break behind each `{` and `;` and before each `}`. -/
def breakMembers (cs : List Char) : List Char :=
  cs.flatMap fun c ↦
    if c = '{' then ['{', '\n'] else if c = '}' then ['\n', '}'] else if c = ';' then [';', '\n']
    else [c]

/-- The lines of a text after breaking, without blanks at their ends and without empty lines. -/
def memberLines (cs : List Char) : List (List Char) :=
  ((splitAll '\n' (breakMembers cs)).map (trim isBlank)).filter fun line ↦ !line.isEmpty

/-- Indents the lines by `width` blanks for each level, from the given depth on. -/
def indentFrom (width : Nat) : (depth : Nat) → List (List Char) → List (List Char)
  | _, [] => []
  | depth, line :: lines =>
    let own := if '}' ∈ line then depth - 1 else depth
    (List.replicate (width * own) ' ' ++ sugar line) ::
      indentFrom width (if '{' ∈ line then own + 1 else own) lines

/-- The text without blank lines and without line feeds at its end. -/
def dropBlankLines (cs : List Char) : List Char :=
  trimEnd (· == '\n') (joinAll ['\n'] ((splitAll '\n' cs).filter fun line ↦ !line.all isBlank))

/-- Lays out the characters of a type with `width` blanks for each level. -/
def reflow (width : Nat) (cs : List Char) : List Char :=
  let lines := indentFrom width 0 (memberLines cs)
  dropBlankLines (closeBraces (shortenImports (joinAll ['\n'] lines)))

/-- Lays out a type with `indentation` blanks for each level; below one the text stays as it is. -/
def pretty (text : String) (indentation : Int) : String :=
  if indentation < 1 then text else .ofList (reflow indentation.toNat text.toList)

end TypeLens.Layout
