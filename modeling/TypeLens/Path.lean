import TypeLens.Text.Scan

/-!
# File paths

Paths are strings with slashes. A path is *absolute* when it starts with a slash; the working
directory makes a relative path absolute, and `normalize` resolves `.` and `..` without looking at
any file. Exactly two slashes at the start are kept as they are, more count as one.
-/

namespace TypeLens.Path

open Text

/-- Whether a path starts with a slash. -/
def isAbsolute (path : String) : Bool :=
  path.toList.head? == some '/'

/-- The slashes a normalized path starts with. -/
def rootOf : List Char → List Char
  | '/' :: '/' :: '/' :: _ => ['/']
  | '/' :: '/' :: _ => ['/', '/']
  | '/' :: _ => ['/']
  | _ => []

/-- Adds a segment to the resolved ones, which are listed last first. -/
def resolveStep (absolute : Bool) (resolved : List (List Char)) (segment : List Char) :
    List (List Char) :=
  if segment = [] ∨ segment = ['.'] then resolved
  else if segment = ['.', '.'] then
    match resolved with
    | [] => if absolute then [] else [segment]
    | last :: earlier => if last = ['.', '.'] then segment :: resolved else earlier
  else segment :: resolved

/-- The segments of a path with `.` and `..` resolved. -/
def resolvedSegments (path : List Char) : List (List Char) :=
  ((splitAll '/' path).foldl (resolveStep !(rootOf path).isEmpty) []).reverse

/-- The path with the given slashes at the start and the given segments. -/
def ofSegments (root : List Char) (segments : List (List Char)) : String :=
  .ofList (root ++ joinAll ['/'] segments)

/-- The shortest path that names the same place, as far as its text shows. -/
def normalize (path : String) : String :=
  match ofSegments (rootOf path.toList) (resolvedSegments path.toList) with
  | "" => "."
  | path => path

/-- The second path as seen from the first. -/
def join (directory path : String) : String :=
  if isAbsolute path then path
  else if directory = "" ∨ directory.toList.getLast? = some '/' then directory ++ path
  else directory ++ "/" ++ path

/-- The normalized absolute path, as seen from a working directory. -/
def absolute (working path : String) : String :=
  normalize (join working path)

/-- The directory a path lies in. -/
def parent (path : String) : String :=
  let head := (path.toList.reverse.dropWhile (· != '/')).reverse
  if head.all (· == '/') then .ofList head
  else .ofList (head.reverse.dropWhile (· == '/')).reverse

/-- The segments of a path without empty ones. -/
def segments (path : String) : List (List Char) :=
  (splitAll '/' path.toList).filter fun s ↦ !s.isEmpty

/-- The ways to a place and to all places above it. The segments are listed last first. -/
def waysUp : List (List Char) → List (List (List Char))
  | [] => [[]]
  | last :: earlier => (last :: earlier) :: waysUp earlier

/-- A normalized absolute path and the directories above it, up to the root. -/
def ancestors (path : String) : List String :=
  (waysUp (segments path).reverse).map fun way ↦ ofSegments (rootOf path.toList) way.reverse

/-- The longest common beginning of two lists. -/
def commonStart {α : Type} [DecidableEq α] : List α → List α → List α
  | a :: as, b :: bs => if a = b then a :: commonStart as bs else []
  | _, _ => []

/-- The longest path both of two absolute normalized paths lie under. -/
def common (a b : String) : String :=
  .ofList ('/' :: joinAll ['/'] (commonStart (segments a) (segments b)))

/-- The way from one absolute normalized path to another. -/
def relative (path start : String) : String :=
  let shared := (commonStart (segments start) (segments path)).length
  let up := List.replicate ((segments start).length - shared) ['.', '.']
  match up ++ (segments path).drop shared with
  | [] => "."
  | way => .ofList (joinAll ['/'] way)

end TypeLens.Path
