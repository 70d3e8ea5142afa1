import TypeLens.CommandLine

/-!
# Starting the server

Reads the command line and the environment, and reports the settings the server starts with. A
request for help is answered with status 0 and a mistake with status 2.
-/

namespace TypeLens.CommandLine

/-- The variables that are read. -/
def readEnvironment : IO Environment := do
  let names :=
    [Environment.configVariable, Environment.capacityVariable, Environment.lifetimeVariable]
  let values ← names.mapM fun name ↦ do return (← IO.getEnv name).map fun value ↦ (name, value)
  return values.filterMap id

/-- The settings of a launch as one line. -/
def report (l : Launch) (env : Environment) : String :=
  let settings := Settings.ofEnvironment (l.environment env)
  "Serving type snapshots named " ++ settings.configName ++ " (cache size " ++
    toString settings.capacity ++ ") over " ++ l.transport.name ++ " at " ++ l.host ++ ":" ++
    toString l.portNumber

end TypeLens.CommandLine

open TypeLens.CommandLine in
/-- Starts the server. -/
def main (args : List String) : IO UInt32 := do
  match parse args with
  | .help =>
    IO.println usage
    return 0
  | .mistake =>
    IO.eprintln usage
    return 2
  | .launch l =>
    IO.println (report l (← readEnvironment))
    return 0
