import TypeLens.Settings

/-!
# The command line

The server is started with options that each have a value, either the next argument or behind an
equals sign, and with a request for help. The name of an option may be cut short as long as only one
option is meant.

An argument is first taken for what it looks like, a `Token`. `run` then reads the tokens from left
to right and stops at a request for help or at the first mistake. An argument that belongs to no
option is a mistake that shows only at the end, so a request for help wins over it.
-/

namespace TypeLens.CommandLine

open Text

/-- The options. -/
inductive Flag where
  | help
  | transport
  | host
  | portNumber
  | configName
  | cacheSize
deriving Repr, DecidableEq

/-- The names of the options. -/
def Flag.names : List (String × Flag) :=
  [("-h", help), ("--help", help), ("--transport", transport), ("--host", host),
    ("--port", portNumber), ("--config-name", configName), ("--cache-size", cacheSize)]

/-- What an argument is taken for. -/
inductive Token where
  /-- A value, or something that belongs to no option. -/
  | word (text : String)
  /-- The name of an option, with the value behind an equals sign. -/
  | flag (flag : Flag) (value : Option String)
  /-- A request for help with letters behind it, each of which has to be an option too. An equals
  sign in front of the letters does not count. -/
  | letters (rest : List Char)
  /-- Something that looks like an option and is none. -/
  | unknown
  /-- The mark behind which all arguments are values. -/
  | mark
deriving Repr, DecidableEq

/-- Whether a text is a negative number. A line feed at its end does not count. -/
def isNegativeNumber (cs : List Char) : Bool :=
  match cs with
  | '-' :: body =>
    let body := if body.getLast? = some '\n' then body.dropLast else body
    match body.dropWhile isDigit with
    | [] => !body.isEmpty
    | '.' :: fraction => !fraction.isEmpty && fraction.all isDigit
    | _ => false
  | _ => false

/-- What an argument is taken for when it is no option. -/
def plainToken (arg : String) : Token :=
  if isNegativeNumber arg.toList || arg.toList.contains ' ' then .word arg else .unknown

/-- The options a name that is cut short may mean. -/
def matching (start : List Char) : List Flag :=
  (Flag.names.filter fun (name, _) ↦ start.isPrefixOf name.toList).map Prod.snd

/-- What an argument is taken for, unless more than one option is meant. -/
def Token.ofArgument? (arg : String) : Option Token :=
  let cs := arg.toList
  let (start, value) := match cutFirst? ['='] cs with
    | some (before, after) => (before, some (String.ofList after))
    | none => (cs, none)
  match cs, Flag.names.lookup arg, Flag.names.lookup (.ofList start) with
  | _, some f, _ => some (.flag f none)
  | '-' :: '-' :: _, none, some f => some (.flag f value)
  | '-' :: '-' :: _, none, none =>
    match matching start with
    | [] => some (plainToken arg)
    | [f] => some (.flag f value)
    | _ => none
  | '-' :: 'h' :: '=' :: rest, none, _ | '-' :: 'h' :: rest, none, _ => some (.letters rest)
  | '-' :: _ :: _, none, _ => some (plainToken arg)
  | _, none, _ => some (.word arg)

/-- What the arguments are taken for, unless the name of an option means more than one. -/
def tokens? : List String → Option (List Token)
  | [] => some []
  | "--" :: args => some (.mark :: args.map .word)
  | arg :: args => do return (← Token.ofArgument? arg) :: (← tokens? args)

/-- The ways the server is reached. -/
inductive Transport where
  | stdio
  | sse
  | streamableHttp
deriving Repr, DecidableEq

/-- The name of a way to reach the server. -/
def Transport.name : Transport → String
  | stdio => "stdio"
  | sse => "sse"
  | streamableHttp => "streamable-http"

/-- The way a word means. -/
def Transport.ofName? : String → Option Transport
  | "stdio" => some stdio
  | "sse" => some sse
  | "http" | "streamable-http" | "streamable_http" => some streamableHttp
  | _ => none

/-- How the server is started. -/
structure Launch where
  /-- The way the server is reached. -/
  transport : Transport := .stdio
  /-- The address the server listens at. -/
  host : String := "127.0.0.1"
  /-- The number of the socket the server listens at. -/
  portNumber : Int := 8000
  /-- The name of snapshots. -/
  configName : Option String := none
  /-- The number of sessions that are kept. -/
  cacheSize : Option Int := none
deriving Repr, DecidableEq

namespace Launch

/-- Sets an option. -/
def set? (l : Launch) (value : String) : Flag → Option Launch
  | .help => none
  | .transport => (Transport.ofName? value).map fun t ↦ { l with transport := t }
  | .host => some { l with host := value }
  | .portNumber => (integer? value).toOption.map fun n ↦ { l with portNumber := n }
  | .configName => some { l with configName := some value }
  | .cacheSize => (integer? value).toOption.map fun n ↦ { l with cacheSize := some n }

/-- The environment the server runs in: what the command line says wins. -/
def environment (l : Launch) (env : Environment) : Environment :=
  let env := match l.configName with
    | none | some "" => env
    | some name => env.set Environment.configVariable name
  match l.cacheSize with
  | none => env
  | some n => env.set Environment.capacityVariable (toString n)

end Launch

/-- What a command line asks for. -/
inductive Request where
  /-- To start the server. -/
  | launch (launch : Launch)
  /-- To explain the options. -/
  | help
  /-- Nothing that makes sense. -/
  | mistake
deriving Repr, DecidableEq

/-- Whether letters behind a request for help are options: there are some, and all of them ask for
help again. -/
def areOptions (letters : List Char) : Bool :=
  !letters.isEmpty && letters.all (· == 'h')

/-- Reads the tokens from left to right. The first argument says whether something belongs to no
option. -/
def run : (stray : Bool) → Launch → List Token → Request
  | stray, l, [] => if stray then .mistake else .launch l
  | _, l, .word _ :: rest | _, l, .unknown :: rest | _, l, .mark :: rest => run true l rest
  | _, _, .letters rest :: _ => if areOptions rest then .help else .mistake
  | _, _, .flag .help none :: _ => .help
  | stray, l, .flag f (some value) :: rest =>
    match l.set? value f with
    | some l => run stray l rest
    | none => .mistake
  | stray, l, .flag f none :: .word value :: rest =>
    match l.set? value f with
    | some l => run stray l rest
    | none => .mistake
  | _, _, .flag _ none :: _ => .mistake

/-- What a command line asks for. -/
def parse (args : List String) : Request :=
  match tokens? args with
  | some tokens => run false {} tokens
  | none => .mistake

/-- The explanation of the options. -/
def usage : String :=
  "usage: prettify-type-mcp [-h] [--transport TRANSPORT] [--host HOST] [--port PORT] " ++
    "[--config-name NAME] [--cache-size SIZE]"

end TypeLens.CommandLine
