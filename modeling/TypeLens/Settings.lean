import TypeLens.Server
import TypeLens.Text.Number

/-!
# Settings

A server takes its settings from the environment: the name of snapshots, the number of sessions that
are kept, and the seconds they are kept for. A setting that is empty or cannot be read is left at
its default; there is room for at least one session, and a time that is not positive means for
ever.
-/

namespace TypeLens

/-- The variables of an environment. -/
abbrev Environment := List (String × String)

namespace Environment

/-- The value of a variable. -/
def get? (env : Environment) (name : String) : Option String :=
  env.lookup name

/-- Sets a variable. -/
def set (env : Environment) (name value : String) : Environment :=
  (name, value) :: env.filter fun (n, _) ↦ n != name

/-- A variable just set has its value. -/
@[simp]
theorem get?_set_self (env : Environment) (name value : String) :
    (env.set name value).get? name = some value := by
  simp [get?, set]

/-- The value of a variable without the blanks around it. -/
def trimmed (env : Environment) (name : String) : String :=
  Text.trimBlank ((env.get? name).getD "")

/-- The variable that names snapshots. -/
def configVariable : String := "PRETTIFY_TYPE_CONFIG"

/-- The variable for the number of sessions. -/
def capacityVariable : String := "PRETTIFY_TYPE_CACHE_SIZE"

/-- The variable for the lifetime of sessions. -/
def lifetimeVariable : String := "PRETTIFY_TYPE_CACHE_TTL"

end Environment

/-- The settings of a server. -/
structure Settings where
  /-- The name of snapshots. -/
  configName : String := Project.defaultConfigName
  /-- The number of sessions that are kept. -/
  capacity : Nat := Session.defaultCapacity
  /-- The seconds a session is kept, if there is a limit. -/
  lifetime : Option Float := some Session.defaultLifetime
deriving Repr

namespace Settings

/-- The number of sessions a text asks for. -/
def capacityOf (text : String) : Nat :=
  match Text.integer? text with
  | .ok n => if n < 1 then Session.defaultCapacity else n.toNat
  | .error _ => Session.defaultCapacity

/-- The lifetime of sessions a text asks for. -/
def lifetimeOf (text : String) : Option Float :=
  let seconds := (Text.float? text).getD Session.defaultLifetime
  if 0 < seconds then some seconds else none

/-- The settings of an environment. -/
def ofEnvironment (env : Environment) : Settings where
  configName := Project.configName (some (env.trimmed Environment.configVariable))
  capacity := capacityOf (env.trimmed Environment.capacityVariable)
  lifetime := lifetimeOf (env.trimmed Environment.lifetimeVariable)

/-- There is room for at least one session. -/
theorem capacityOf_pos (text : String) : 0 < capacityOf text := by
  unfold capacityOf
  split
  · split
    · decide
    · omega
  · decide

/-- A server with these settings that has not done anything yet. -/
def server (s : Settings) : Server Float where
  sessions := ⟨.empty s.capacity s.lifetime, Session.defaultSkipped, 0⟩
  configName := some s.configName

end Settings

end TypeLens
