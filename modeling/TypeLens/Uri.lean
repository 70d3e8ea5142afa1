import TypeLens.Text.Utf8
import TypeLens.Uri.Host

/-!
# File URIs

A file may be named by a `file://` URI instead of a path. The path of the URI is what follows its
authority, up to a query or fragment, with percent escapes decoded as UTF-8; tabs and line ends
anywhere in a URI do not count. Any other text is a path already.
-/

namespace TypeLens.Uri

open Text

/-- Why a URI is refused. -/
inductive AuthorityError where
  /-- Brackets that do not enclose the whole host. -/
  | brackets
  /-- A host in brackets that is no address. -/
  | host (reason : String)
  /-- A character that is equivalent to a delimiter. -/
  | confusable (authority : String)
deriving Repr, DecidableEq

/-- The text of a refusal. -/
def AuthorityError.message : AuthorityError → String
  | brackets => "Invalid IPv6 URL"
  | host reason => reason
  | confusable authority =>
    "netloc '" ++ authority ++ "' contains invalid characters under NFKC normalization"

/-- The characters beyond ASCII whose compatibility form contains a delimiter of URIs. -/
def confusables : List Nat :=
  [0x2047, 0x2048, 0x2049, 0x2100, 0x2101, 0x2105, 0x2106, 0x2A74, 0xFE13, 0xFE16, 0xFE55, 0xFE56,
    0xFE5F, 0xFE6B, 0xFF03, 0xFF0F, 0xFF1A, 0xFF1F, 0xFF20]

/-- The host and the port of an authority, which follow the name of a user. -/
def hostAndPort (authority : List Char) : List Char :=
  match cutLast? ['@'] authority with
  | some (_, rest) => rest
  | none => authority

/-- The host of an authority, which may stand in brackets. Nothing precedes the brackets, and only a
port follows them. -/
def host? (authority : List Char) : Option (List Char) :=
  let place := hostAndPort authority
  match cutFirst? ['['] place with
  | none => some (place.takeWhile (· != ':'))
  | some (before, rest) =>
    let port := (rest.dropWhile (· != ']')).drop 1
    if before.isEmpty && (port.isEmpty || port.head? == some ':') then
      some (rest.takeWhile (· != ']'))
    else none

/-- Why an authority with brackets is refused, if it is. -/
def bracketRefusal? (authority : List Char) : Option AuthorityError :=
  match host? authority with
  | none => some .brackets
  | some host => (addressRefusal? host).map .host

/-- Why an authority is refused, if it is. -/
def refusal? (authority : List Char) : Option AuthorityError :=
  if authority.contains '[' != authority.contains ']' then some .brackets
  else
    match if authority.contains '[' then bracketRefusal? authority else none with
    | some e => some e
    | none =>
      if authority.any fun c ↦ confusables.contains c.toNat then
        some (.confusable (.ofList authority))
      else none

/-- Whether a character ends the authority. -/
def endsAuthority (c : Char) : Bool :=
  c == '/' || c == '?' || c == '#'

/-- The path of a URI without its scheme, still escaped. -/
def pathPart (rest : List Char) : List Char :=
  (rest.dropWhile fun c ↦ !endsAuthority c).takeWhile fun c ↦ c != '#' && c != '?'

/-- The bytes of an escaped ASCII text; a percent sign without two hexadecimal digits behind it
stands for itself. -/
def unescape : List Char → List Nat
  | [] => []
  | '%' :: a :: b :: cs =>
    match Json.hexDigit? a, Json.hexDigit? b with
    | some x, some y => (16 * x + y) :: unescape cs
    | _, _ => 37 :: unescape (a :: b :: cs)
  | c :: cs => c.toNat :: unescape cs

/-- Whether a character is ASCII. -/
def isAscii (c : Char) : Bool :=
  c.toNat < 128

/-- Decodes the percent escapes of a text. The runs of ASCII characters are decoded one by one. The
first argument is the current run, last character first. -/
def decodeRuns : (run : List Char) → List Char → List Char
  | run, [] => decodeLossy (unescape run.reverse)
  | run, c :: cs =>
    if isAscii c then decodeRuns (c :: run) cs
    else decodeLossy (unescape run.reverse) ++ c :: decodeRuns [] cs

/-- Decodes the percent escapes of a text. -/
def percentDecode (cs : List Char) : List Char :=
  decodeRuns [] cs

/-- The scheme of file URIs with the slashes of the authority. -/
def fileScheme : List Char :=
  "file://".toList

/-- The path a URI or path names. -/
def toPath (value : String) : Except AuthorityError String :=
  match after? fileScheme value.toList with
  | none => .ok value
  | some rest =>
    let rest := rest.filter fun c ↦ c != '\t' && c != '\n' && c != '\r'
    match refusal? (rest.takeWhile fun c ↦ !endsAuthority c) with
    | some e => .error e
    | none => .ok (.ofList (percentDecode (pathPart rest)))

/-- The URI of an absolute path. -/
def ofPath (path : String) : String :=
  .ofList fileScheme ++ path

end TypeLens.Uri
