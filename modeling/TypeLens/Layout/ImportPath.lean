import TypeLens.Text.Scan
import TypeLens.Text.Word

/-!
# Import paths

A module's type is shown as `typeof import("path")`. Inside a rendered type only the module part
of the path is kept: what stands behind the last `node_modules/`, or the last segment of a file
path. Bare module names are left alone.
-/

namespace TypeLens.Layout

open Text

/-- The path with forward slashes only. -/
def forwardSlashes (path : List Char) : List Char :=
  path.map fun c ↦ if c = '\\' then '/' else c

/-- Whether a path starts with a drive letter, a colon and a slash of either kind. -/
def startsWithDrive : List Char → Bool
  | d :: ':' :: s :: _ => isLatinLetter d && (s == '/' || s == '\\')
  | _ => false

/-- Whether a path with forward slashes starts like a file path. -/
def startsLikeFile (path : List Char) : Bool :=
  ["/", "./", "../"].any fun start ↦ (after? start.toList path).isSome

/-- The last segment of a path, slashes at its end apart. -/
def lastSegment (path : List Char) : List Char :=
  ((path.reverse.dropWhile (· == '/')).takeWhile (· != '/')).reverse

/-- The module part of an import path. -/
def modulePart (path : List Char) : List Char :=
  let slashed := forwardSlashes path
  match cutLast? "node_modules/".toList slashed with
  | some (_, package) => package
  | none => if startsLikeFile slashed || startsWithDrive path then lastSegment slashed else path

/-- The module part of an import path. -/
def shortImportPath (path : String) : String :=
  .ofList (modulePart path.toList)

/-- Matches `typeof import("path")` and shortens the path. -/
def importMatch? (cs : List Char) : Option (Nat × List Char) := do
  let opening := "typeof import(\"".toList
  let closing := "\")".toList
  let rest ← after? opening cs
  let path := rest.takeWhile (· != '"')
  let _ ← after? closing (rest.dropWhile (· != '"'))
  return (opening.length + path.length + closing.length, opening ++ modulePart path ++ closing)

/-- Shortens every import path of a text. -/
def shortenImports (cs : List Char) : List Char :=
  substitute importMatch? cs

end TypeLens.Layout
