import TypeLens.FileSystem

/-!
# The snapshot of a project

Each file belongs to a project, and the project has a snapshot of its types: the nearest file of the
configured name in the directory of the file or one above it. The configured name may also be an
absolute path; then all files share that snapshot. A client may name a snapshot itself.

Searches are remembered by directory in a `Memo`: a file in a directory that was met on the way of
an earlier search gets the earlier answer, as long as the snapshot is still there.
-/

namespace TypeLens.Project

/-- The name of snapshots that are searched for, unless another one is configured. -/
def defaultConfigName : String := "type-graph.json"

/-- The name that is searched for: the configured one, unless it is empty. -/
def configName : Option String → String
  | none | some "" => defaultConfigName
  | some name => name

/-- Why there is no snapshot. -/
inductive Missing where
  /-- The configured path leads to no file. -/
  | configured (path : String)
  /-- No directory above a file has a snapshot. -/
  | notFound (name file : String)
  /-- The path a client gave leads to no file. -/
  | given (path : String)
  /-- The snapshot was there and is gone. -/
  | gone (path : String)
deriving Repr, DecidableEq

/-- The text of a failure to find a snapshot. -/
def Missing.message : Missing → String
  | configured path => "Configured snapshot " ++ path ++ " does not exist."
  | notFound name file => "Could not find " ++ name ++ " in any directory above " ++ file ++ "."
  | given path => "Snapshot " ++ path ++ " does not exist."
  | gone path => "Project configuration " ++ path ++ " does not exist."

section

variable (fs : FileSystem)

/-- The directory of a path, or the path itself if it is a directory, and all directories above. -/
def directoriesAbove (path : String) : List String :=
  let full := fs.absolute path
  Path.ancestors (if fs.isDirectory full then full else Path.parent full)

/-- Searches for the snapshot of a file. -/
def find (name file : String) : Except Missing String :=
  if Path.isAbsolute name then
    if fs.isFile name then .ok name else .error (.configured name)
  else
    match ((directoriesAbove fs file).map (Path.join · name)).find? fs.isFile with
    | some candidate => .ok candidate
    | none => .error (.notFound name file)

/-- The path of a file relative to a root, if it lies below the root. A relative path starts from
the root or else from the working directory. -/
def relative? (root file : String) : Option String :=
  let root := fs.absolute root
  let candidates :=
    if Path.isAbsolute file then [fs.absolute file]
    else [fs.absolute (Path.join root file), fs.absolute file]
  (candidates.find? fun c ↦ Path.common c root == root).map fun c ↦ Path.relative c root

/-- The snapshots found so far, by directory. -/
abbrev Memo := List (String × String)

/-- Remembers the snapshot of a directory. -/
def remember (memo : Memo) (directory snapshot : String) : Memo :=
  (directory, snapshot) :: memo.filter fun (d, _) ↦ d != directory

/-- What was just remembered is found. -/
@[simp]
theorem lookup_remember_self (memo : Memo) (directory snapshot : String) :
    (remember memo directory snapshot).lookup directory = some snapshot := by
  simp [remember]

/-- The directories up to the first one that is the directory of a snapshot or does not begin with
its path, which is included. -/
def sharing (home : String) : List String → List String
  | [] => []
  | d :: ds =>
    if d = home ∨ ¬home.toList.isPrefixOf d.toList then [d] else d :: sharing home ds

/-- Searches for the snapshot of a file and remembers it for the directories on the way. -/
def search (name : String) (memo : Memo) (file : String) : Except Missing String × Memo :=
  match find fs name file with
  | .error e => (.error e, memo)
  | .ok found =>
    let snapshot := fs.absolute found
    let directories :=
      sharing (Path.parent snapshot) (directoriesAbove fs (Path.parent (fs.absolute file)))
    (.ok snapshot, directories.foldl (fun memo d ↦ remember memo d snapshot) memo)

/-- The snapshot of a file: the one given, the one remembered, or the one a search finds. -/
def resolve (name : String) (memo : Memo) (file : String) (given : Option String) :
    Except Missing String × Memo :=
  match given with
  | none | some "" =>
    match memo.lookup (Path.parent (fs.absolute file)) with
    | some cached => if fs.isFile cached then (.ok cached, memo) else search fs name memo file
    | none => search fs name memo file
  | some path =>
    if fs.isFile (fs.absolute path) then (.ok (fs.absolute path), memo)
    else (.error (.given path), memo)

end

end TypeLens.Project
