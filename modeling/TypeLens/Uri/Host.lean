import TypeLens.Json.Reader
import TypeLens.Text.Quoted
import TypeLens.Text.Scan

/-!
# Hosts in brackets

The authority of a URI may name its host in brackets. Such a host is an IPv6 address or an address
of a future version; an IPv4 address may not stand in brackets. `addressRefusal?` says what is wrong
with a host.
-/

namespace TypeLens.Uri

open Text

/-- Whether a text is a decimal number up to 255 without zeros in front. -/
def isOctet (cs : List Char) : Bool :=
  !cs.isEmpty && cs.all isLatinDigit && cs.length ≤ 3 && (cs == ['0'] || cs.head? != some '0') &&
    Json.natOfDigits cs ≤ 255

/-- Whether a text is an IPv4 address. -/
def isIPv4 (cs : List Char) : Bool :=
  let octets := splitAll '.' cs
  octets.length == 4 && octets.all isOctet

/-- Whether a text is a group of an IPv6 address. -/
def isGroup (cs : List Char) : Bool :=
  !cs.isEmpty && cs.length ≤ 4 && cs.all fun c ↦ (Json.hexDigit? c).isSome

/-- The groups of an IPv6 address, an IPv4 address at its end written as two groups. -/
def groups? (cs : List Char) : Option (List (List Char)) :=
  let parts := splitAll ':' cs
  if parts.length < 3 then none
  else
    match parts.getLast? with
    | some last =>
      if last.contains '.' then
        if isIPv4 last then some (parts.dropLast ++ [['0'], ['0']]) else none
      else some parts
    | none => none

/-- Whether the groups before or behind a gap are well-formed: the outermost may be empty only if it
stands alone. -/
def isSide (side : List (List Char)) : Bool :=
  side == [[]] || side.all isGroup

/-- Whether groups with at most one gap form an address. A gap is an empty group that is neither
first nor last. -/
def isGrouping (parts : List (List Char)) : Bool :=
  let inner := (parts.drop 1).dropLast
  match inner.findIdx? List.isEmpty with
  | none => parts.length == 8 && parts.all isGroup
  | some i =>
    let high := parts.take (i + 1)
    let low := parts.drop (i + 2)
    let count (side : List (List Char)) : Nat := if side == [[]] then 0 else side.length
    !(inner.drop (i + 1)).any List.isEmpty && isSide high && isSide low &&
      count high + count low < 8

/-- The address without its zone, unless the zone is malformed. -/
def withoutZone? (cs : List Char) : Option (List Char) :=
  match cutFirst? ['%'] cs with
  | none => some cs
  | some (address, zone) => if zone.isEmpty || zone.contains '%' then none else some address

/-- Whether a text is an IPv6 address. -/
def isIPv6 (cs : List Char) : Bool :=
  match (withoutZone? cs).bind groups? with
  | some parts => parts.length ≤ 9 && isGrouping parts
  | none => false

/-- Whether a text is an address of a future version: `v`, hexadecimal digits, a dot and more. -/
def isFutureAddress (cs : List Char) : Bool :=
  match cs with
  | 'v' :: rest =>
    let version := rest.takeWhile fun c ↦ (Json.hexDigit? c).isSome
    match rest.dropWhile fun c ↦ (Json.hexDigit? c).isSome with
    | '.' :: more => !version.isEmpty && !more.isEmpty && !more.contains '\n'
    | _ => false
  | _ => false

/-- Why a host in brackets is refused, if it is. -/
def addressRefusal? (host : List Char) : Option String :=
  if host.head? = some 'v' then
    if isFutureAddress host then none else some "IPvFuture address is invalid"
  else if isIPv4 host then some "An IPv4 address cannot be in brackets"
  else if isIPv6 host then none
  else some (quoted (.ofList host) ++ " does not appear to be an IPv4 or IPv6 address")

end TypeLens.Uri
