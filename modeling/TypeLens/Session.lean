import TypeLens.Cache
import TypeLens.Graph.Oracle
import TypeLens.Graph.Schema
import TypeLens.Project
import TypeLens.Text.Quoted

/-!
# Sessions

A session is an oracle over a snapshot, built once and kept in a cache under the absolute path of
the snapshot. A session is handed out only while the file has the time of modification it had when
the session was built; otherwise the session is dropped and a new one is built.

Building can fail. A failure leaves no session under that path, and the other sessions as they are.
-/

namespace TypeLens

open TypeLens.Graph

/-- An oracle over a snapshot that was loaded. -/
structure Session where
  /-- The absolute path of the snapshot. -/
  key : String
  /-- The oracle. -/
  oracle : Oracle
  /-- The names that are not expanded, of those that occur in the snapshot. -/
  skipped : List String
  /-- The time of modification of the file when it was loaded. -/
  modified : Int
  /-- The number of builds before the one that made the session. -/
  serial : Nat
deriving Repr, Inhabited

namespace Session

/-- Why a session cannot be built. -/
inductive BuildError where
  /-- There is a directory in the place of the snapshot. -/
  | directory (path : String)
  /-- The file is no snapshot. -/
  | snapshot (error : Snapshot.ParseError)
  /-- The builder failed for a reason of its own. -/
  | failed (reason : String)
deriving Repr, DecidableEq

/-- The text of a failure to build a session. -/
def BuildError.message : BuildError → String
  | directory path => "[Errno 21] Is a directory: " ++ Text.quoted path
  | snapshot e => e.message
  | failed reason => reason

/-- Why there is no session. -/
inductive Error where
  /-- There is no snapshot. -/
  | missing (reason : Project.Missing)
  /-- The path of the snapshot goes through a file. -/
  | notDirectory
  /-- The path of the snapshot has a character that no path may have. -/
  | malformed
  /-- The session of a snapshot cannot be built. -/
  | build (key : String) (cause : BuildError)
deriving Repr, DecidableEq

/-- The text of a failure to provide a session. -/
def Error.message : Error → String
  | missing reason => reason.message
  | notDirectory => "Not a directory"
  | malformed => "embedded null byte"
  | build key cause => "Failed to build type session for " ++ key ++ ": " ++ cause.message

/-- What builds the oracle for a path. -/
abbrev Builder := String → Except BuildError Oracle

/-- Loads the snapshot at a path. Its documents are found from the directory it lies in. -/
def load (fs : FileSystem) : Builder := fun path ↦
  match fs.stat path with
  | .ok (.file content _) =>
    match Snapshot.parse content with
    | .ok snapshot => .ok { snapshot, base := Path.parent (fs.absolute path) }
    | .error e => .error (.snapshot e)
  | _ => .error (.directory path)

/-- The names of types that are never expanded unless it is configured otherwise: wrappers that tell
a reader nothing. -/
def defaultSkipped : List String :=
  ["String", "Number", "Boolean", "Date", "RegExp", "Function", "Symbol"]

/-- The number of sessions that are kept unless it is configured otherwise. -/
def defaultCapacity : Nat := 3

/-- The seconds a session is kept unless it is configured otherwise: a day. -/
def defaultLifetime : Float := 86400

end Session

/-- The sessions that are kept. -/
structure Sessions (τ : Type) where
  /-- The sessions by the absolute path of their snapshot. -/
  cache : Cache τ String Session
  /-- The names that are not expanded in any session. -/
  skipped : List String
  /-- The number of builds so far, failures included. -/
  builds : Nat := 0
deriving Repr

namespace Sessions

variable {τ : Type} [Sub τ] [LE τ] [DecidableLE τ] (s : Sessions τ)

/-- Builds a session and keeps it. -/
def build (builder : Session.Builder) (now : τ) (key : String) (modified : Int) :
    Except Session.Error Session × Sessions τ :=
  let counted := { s with builds := s.builds + 1 }
  match builder key with
  | .error cause => (.error (.build key cause), counted)
  | .ok oracle =>
    let session : Session :=
      ⟨key, oracle, s.skipped.filter oracle.snapshot.hasTypeNamed, modified, s.builds⟩
    (.ok session, { counted with cache := s.cache.put now key session })

/-- The time of modification of a snapshot. That of a directory is not kept, because no session has
it. -/
def modified (fs : FileSystem) (key : String) : Except Session.Error (Option Int) :=
  match fs.stat key with
  | .ok (.file _ modified) => .ok (some modified)
  | .ok .directory => .ok none
  | .error .notFound => .error (.missing (.gone key))
  | .error .notDirectory => .error .notDirectory
  | .error .malformed => .error .malformed

/-- The session of the snapshot at an absolute path: the one that is kept, if the file has not
changed since, or a new one. -/
def getOrBuildAt (fs : FileSystem) (builder : Session.Builder) (now : τ) (key : String) :
    Except Session.Error Session × Sessions τ :=
  match modified fs key with
  | .error e => (.error e, s)
  | .ok modified =>
    match s.cache.get now key with
    | (some session, cache) =>
      if some session.modified = modified then (.ok session, { s with cache })
      else { s with cache := (cache.pop key).2 }.build builder now key (modified.getD 0)
    | (none, cache) => { s with cache }.build builder now key (modified.getD 0)

/-- The session of a snapshot. -/
def getOrBuild (fs : FileSystem) (builder : Session.Builder) (now : τ) (path : String) :
    Except Session.Error Session × Sessions τ :=
  s.getOrBuildAt fs builder now (fs.absolute path)

/-- Drops all sessions. -/
def clear : Sessions τ :=
  { s with cache := s.cache.clear }

/-- Lets the cancellation checks of the sessions that are kept answer yes from some check on. -/
def cancelFrom (now : τ) (first : Nat) : Sessions τ :=
  let cache := s.cache.keys.foldl (fun cache key ↦ (cache.get now key).2) s.cache
  { s with
    cache := cache.mapValues fun _ session ↦
      { session with oracle := { session.oracle with cancelFrom := some first } } }

/-- Records that the oracle of a session was asked a number of times whether its look-up is
cancelled. -/
def polled (key : String) (count : Nat) : Sessions τ :=
  { s with
    cache := s.cache.mapValues fun k session ↦
      if k = key then { session with oracle := session.oracle.polled count } else session }

end Sessions

end TypeLens
