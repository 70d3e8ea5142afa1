/-!
# Access to the server

A server may be guarded by a token. A client that presents exactly this token gets the one grant
there is; any other client gets none.
-/

namespace TypeLens.Tool

/-- What a client may do. -/
structure Grant where
  /-- The token the client presented. -/
  token : String
  /-- The name the client goes by. -/
  client : String
  /-- The rights of the client. -/
  scopes : List String
deriving Repr, DecidableEq

/-- The grant for a token. -/
def grant? (expected token : String) : Option Grant :=
  if token = expected then some ⟨token, "prettify-type-mcp", ["user"]⟩ else none

/-- A client has access exactly when it presents the token. -/
theorem isSome_grant? {expected token : String} :
    (grant? expected token).isSome ↔ token = expected := by
  by_cases h : token = expected <;> simp [grant?, h]

end TypeLens.Tool
