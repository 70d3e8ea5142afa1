import TypeLens.Path

/-!
# Files

A file system is a tree of directories and files, here a list of places with what stands there. A
place is the list of segments that lead to it from the root. A path is walked segment by segment:
every segment but the last must lead to a directory, `.` stays and `..` goes up.

Files have a time of modification in whole seconds; nothing else about them is kept but their
content.
-/

namespace TypeLens

/-- The segments that lead to a place from the root. -/
abbrev Place := List (List Char)

/-- What stands at a place. -/
inductive FileNode where
  | directory
  /-- A file. -/
  | file (content : ByteArray) (modified : Int)

/-- A file system. -/
structure FileSystem where
  /-- The absolute path of the directory that relative paths start from. -/
  working : String
  /-- What stands at the places other than the root. -/
  nodes : List (Place × FileNode)

namespace FileSystem

/-- Why a path leads nowhere. -/
inductive WalkError where
  /-- Something on the way does not exist. -/
  | notFound
  /-- Something on the way is a file. -/
  | notDirectory
  /-- The path has a character that no path may have. -/
  | malformed
deriving Repr, DecidableEq

variable (fs : FileSystem)

/-- What stands at a place. -/
def at? (place : Place) : Option FileNode :=
  if place = [] then some .directory else fs.nodes.lookup place

/-- Walks from a place along the segments of a path. -/
def walk : (here : Place) → List (List Char) → Except WalkError FileNode
  | here, [] =>
    match fs.at? here with
    | some node => .ok node
    | none => .error .notFound
  | here, segment :: rest =>
    match fs.at? here with
    | none => .error .notFound
    | some (.file _ _) => .error .notDirectory
    | some .directory =>
      if segment = [] ∨ segment = ['.'] then walk here rest
      else if segment = ['.', '.'] then walk here.dropLast rest
      else walk (here ++ [segment]) rest

/-- What a path leads to. -/
def stat (path : String) : Except WalkError FileNode :=
  if path.toList.contains '\x00' then .error .malformed
  else if path = "" then .error .notFound
  else fs.walk [] (Text.splitAll '/' (Path.join fs.working path).toList)

/-- Whether a path leads to a directory. -/
def isDirectory (path : String) : Bool :=
  match fs.stat path with
  | .ok .directory => true
  | _ => false

/-- Whether a path leads to a file. -/
def isFile (path : String) : Bool :=
  match fs.stat path with
  | .ok (.file _ _) => true
  | _ => false

/-- The absolute path of a path. -/
def absolute (path : String) : String :=
  Path.absolute fs.working path

/-- The place of a path, as far as its text shows. -/
def place (path : String) : Place :=
  Path.segments (fs.absolute path)

/-! ### Changes -/

/-- Puts something at a place. -/
def put (place : Place) (node : FileNode) : FileSystem :=
  { fs with nodes := (place, node) :: fs.nodes.filter fun (p, _) ↦ p ≠ place }

/-- What was just put at a place stands there. -/
theorem at?_put_self {place : Place} (node : FileNode) (h : place ≠ []) :
    (fs.put place node).at? place = some node := by
  simp [at?, put, h]

/-- Makes a directory and those above it, unless they exist. -/
def makeDirectories (place : Place) : FileSystem :=
  ((Path.waysUp place.reverse).map List.reverse).reverse.foldl
    (fun fs p ↦ if (fs.at? p).isSome then fs else fs.put p .directory) fs

/-- Makes a directory. -/
def makeDirectory (path : String) : FileSystem :=
  fs.makeDirectories (fs.place path)

/-- Writes a file, with the directories it needs. -/
def write (path : String) (content : ByteArray) (modified : Int) : FileSystem :=
  let place := fs.place path
  (fs.makeDirectories place.dropLast).put place (.file content modified)

/-- Sets the time of modification of a file. -/
def touch (path : String) (modified : Int) : FileSystem :=
  let place := fs.place path
  match fs.at? place with
  | some (.file content _) => fs.put place (.file content modified)
  | _ => fs

/-- Removes what stands at a path, and all below it. -/
def delete (path : String) : FileSystem :=
  let place := fs.place path
  { fs with nodes := fs.nodes.filter fun (p, _) ↦ !place.isPrefixOf p }

end FileSystem

end TypeLens
