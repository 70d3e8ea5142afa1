import TypeLens.Text.Blank
import TypeLens.Text.Scan
import TypeLens.Text.Word

/-!
# Braces kept on one line

Laying out a type breaks the line inside every pair of braces. Three shapes are put back on one
line afterwards: empty braces, braces around nothing but a count of hidden members, and the
placeholders of template literal types.
-/

namespace TypeLens.Layout

open Text

/-- Matches braces around blanks. -/
def emptyBraces? : List Char → Option (Nat × List Char)
  | '{' :: cs =>
    match cs.dropWhile isBlank with
    | '}' :: _ => some ((cs.takeWhile isBlank).length + 2, ['{', '}'])
    | _ => none
  | _ => none

/-- Matches braces around a count of hidden members, such as `{ ... 3 more; }`. -/
def excessBraces? : List Char → Option (Nat × List Char)
  | '{' :: cs => do
    let body ← after? "...".toList (cs.dropWhile isBlank)
    let body := body.dropWhile isBlank
    let count := body.takeWhile isDigit
    guard (!count.isEmpty)
    let rest ← after? "more".toList ((body.dropWhile isDigit).dropWhile isBlank)
    let rest := match rest with
      | ';' :: behind => behind
      | _ => rest
    match rest.dropWhile isBlank with
    | '}' :: behind =>
      some (cs.length + 1 - behind.length, "\x7b ... ".toList ++ count ++ " more \x7d".toList)
    | _ => none
  | _ => none

/-- Matches a placeholder without braces inside, and drops the blanks around its type. Of a
placeholder that holds blanks only, the last one is kept. -/
def placeholder? : List Char → Option (Nat × List Char)
  | '$' :: '{' :: cs =>
    let body := cs.takeWhile fun c ↦ c != '{' && c != '}'
    match body.getLast?, cs.dropWhile fun c ↦ c != '{' && c != '}' with
    | some last, '}' :: _ =>
      let kept := if body.all isBlank then [last] else trim isBlank body
      some (body.length + 3, '$' :: '{' :: kept ++ ['}'])
    | _, _ => none
  | _ => none

/-- Puts the three shapes back on one line. -/
def closeBraces (cs : List Char) : List Char :=
  substitute placeholder? (substitute excessBraces? (substitute emptyBraces? cs))

end TypeLens.Layout
