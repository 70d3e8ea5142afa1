import TypeLens.Declaration
import TypeLens.Layout
import TypeLens.Reply
import TypeLens.Tool.Input

/-!
# The reflow tool

The tool lays out the text of a type, and puts the opening of a declaration before it when it is
given a name. It needs no snapshot.
-/

namespace TypeLens.Tool

/-- The text of a reflow. -/
def reflowed (input : ReflowInput) : String :=
  let laidOut := Layout.pretty input.text input.indentation
  match input.name with
  | none | some "" => laidOut
  | some name => Declaration.opening input.kind name ++ laidOut

/-- The number of lines of a text. -/
def lineCount (text : String) : Nat :=
  text.toList.count '\n' + 1

/-- Lays out the text of a type. -/
def reflow (setting : Reply.Setting) (input : ReflowInput) : Except Reply.Error Reply :=
  let text := reflowed input
  Reply.success setting ("Reflowed type (" ++ toString (lineCount text) ++ " lines).")
    (some [("rendered", .str text), ("indentation", .int input.indentation),
      ("lineCount", .int (lineCount text))])
    [Reply.textBlock (Reply.codeBlock text "ts")]

end TypeLens.Tool
