import TypeLens.Reply
import TypeLens.Session

/-!
# The server

A server keeps sessions, remembers which snapshot covers which directory, and has a name for
snapshots to search for. Its tools take the server as it is and give it back as they leave it.
What they find outside the server is the `Host`.
-/

namespace TypeLens

/-- What the tools of a server find around it. -/
structure Host (τ : Type) where
  /-- The files. -/
  files : FileSystem
  /-- What builds the oracles of sessions. -/
  builder : Session.Builder
  /-- The time. -/
  now : τ
  /-- What makes the URI of repeated data unique. -/
  token : String

/-- The state of a server. -/
structure Server (τ : Type) where
  /-- The sessions that are kept. -/
  sessions : Sessions τ
  /-- The snapshots found so far. -/
  memo : Project.Memo := []
  /-- The configured name of snapshots. -/
  configName : Option String := none
deriving Repr

namespace Server

variable {τ : Type} (s : Server τ)

/-- How the replies of a call are made. -/
def setting (token : String) (format : Option String) : Reply.Setting :=
  ⟨.chosen format none, Project.configName s.configName, token⟩

/-- The snapshot of a file. -/
def resolve (fs : FileSystem) (file : String) (given : Option String) :
    Except Project.Missing String × Server τ :=
  let (found, memo) := Project.resolve fs (Project.configName s.configName) s.memo file given
  (found, { s with memo })

variable [Sub τ] [LE τ] [DecidableLE τ]

/-- The session at the path of a snapshot. -/
def session (h : Host τ) (path : String) : Except Session.Error Session × Server τ :=
  let (found, sessions) := s.sessions.getOrBuild h.files h.builder h.now path
  (found, { s with sessions })

/-- The session for a file. -/
def sessionFor (h : Host τ) (file : String) (given : Option String) :
    Except Session.Error Session × Server τ :=
  match s.resolve h.files file given with
  | (.error missing, s) => (.error (.missing missing), s)
  | (.ok path, s) => s.session h path

end Server

end TypeLens
