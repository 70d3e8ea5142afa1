import TypeLens.Server
import TypeLens.Tool.Input

/-!
# The status tool

The tool lists the sessions that are kept, the one used longest ago first, and drops them before on
request.
-/

namespace TypeLens.Tool

variable {τ : Type}

/-- The headline for a number of sessions. -/
def statusHeadline (count : Nat) : String :=
  toString count ++ " type session" ++ (if count = 1 then "" else "s") ++ " cached."

/-- The sessions a status report is about. -/
def reported (s : Sessions τ) (input : StatusInput) : Sessions τ :=
  if input.clear then s.clear else s

/-- Lists the sessions. -/
def status (setting : Reply.Setting) (s : Server τ) (input : StatusInput) :
    Except Reply.Error Reply × Server τ :=
  let sessions := reported s.sessions input
  let paths := sessions.cache.keys
  (Reply.success setting (statusHeadline paths.length)
    (some [("sessions", .strings paths), ("capacity", .int sessions.cache.capacity),
      ("cleared", .bool input.clear)])
    (paths.map Reply.textBlock), { s with sessions })

end TypeLens.Tool
