/-!
# A bounded cache

A cache holds at most `capacity` values. When a new key needs room the value that was used longest
ago is dropped, and a value is not handed out any more once its `lifetime` is over, however often it
was used. Storing a value and reading it are uses; asking whether there is one is not.

The time is an argument of the operations that depend on it. It may be of any type with a difference
and an order. A value whose lifetime is over stays in its slot until its key is read or needs room.
-/

namespace TypeLens

/-- A value held by a cache. -/
structure Cache.Slot (τ κ ν : Type) where
  /-- The key of the value. -/
  key : κ
  /-- The value. -/
  value : ν
  /-- When the value was stored. -/
  stored : τ
deriving Repr

/-- A bounded cache. -/
structure Cache (τ κ ν : Type) where
  /-- The greatest number of values. -/
  capacity : Nat
  /-- How long a value may be handed out, if there is a limit. -/
  lifetime : Option τ
  /-- The values, the one used longest ago first. -/
  slots : List (Cache.Slot τ κ ν)
deriving Repr

namespace Cache

/-- Why a cache cannot be set up. -/
inductive SetupError where
  /-- There is no room for a value. -/
  | capacity
  /-- Values would be over at once. -/
  | lifetime
deriving Repr, DecidableEq

/-- The text of a failure to set up a cache. -/
def SetupError.message : SetupError → String
  | capacity => "capacity must be a positive integer"
  | lifetime => "ttl_seconds must be positive"

section

variable {τ κ ν : Type}

/-- A cache without values. -/
def empty (capacity : Nat) (lifetime : Option τ) : Cache τ κ ν :=
  ⟨capacity, lifetime, []⟩

/-- Sets up a cache. -/
def setUp [OfNat τ 0] [LE τ] [DecidableLE τ] (capacity : Int) (lifetime : Option τ) :
    Except SetupError (Cache τ κ ν) :=
  if capacity ≤ 0 then .error .capacity
  else if lifetime.any fun t ↦ t ≤ 0 then .error .lifetime
  else .ok (empty capacity.toNat lifetime)

variable (c : Cache τ κ ν)

/-- The keys of the values, the one used longest ago first. -/
def keys : List κ :=
  c.slots.map Slot.key

/-- The number of values. -/
def size : Nat :=
  c.slots.length

/-- The cache without its values. -/
def clear : Cache τ κ ν :=
  { c with slots := [] }

@[simp]
theorem keys_clear : c.clear.keys = [] := rfl

/-- Changes the values where they stand. -/
def mapValues (f : κ → ν → ν) : Cache τ κ ν :=
  { c with slots := c.slots.map fun s ↦ { s with value := f s.key s.value } }

/-- Changing the values changes no key. -/
@[simp]
theorem keys_mapValues (f : κ → ν → ν) : (c.mapValues f).keys = c.keys := by
  simp [mapValues, keys, Function.comp_def]

/-- Whether the lifetime of a value is over. -/
def isOver [Sub τ] [LE τ] [DecidableLE τ] (now : τ) (s : Slot τ κ ν) : Bool :=
  c.lifetime.any fun t ↦ t ≤ now - s.stored

section

variable [DecidableEq κ]

/-- The slot of a key. -/
def slot? (key : κ) : Option (Slot τ κ ν) :=
  c.slots.find? fun s ↦ s.key = key

/-- The cache without a key. -/
def erase (key : κ) : Cache τ κ ν :=
  { c with slots := c.slots.filter fun s ↦ s.key ≠ key }

/-- The other keys keep their order. -/
@[simp]
theorem keys_erase (key : κ) : (c.erase key).keys = c.keys.filter (· ≠ key) := by
  simp [erase, keys, List.filter_map, Function.comp_def]

/-- A key that is held is found. -/
theorem isSome_slot? {key : κ} : (c.slot? key).isSome ↔ key ∈ c.keys := by
  simp [slot?, keys, List.find?_isSome]

/-- Takes a value out, whether its lifetime is over or not. -/
def pop (key : κ) : Option ν × Cache τ κ ν :=
  ((c.slot? key).map Slot.value, c.erase key)

/-- Stores a value as the one used last. A value under the same key is replaced, and otherwise the
value used longest ago makes room if there is none. -/
def put (now : τ) (key : κ) (value : ν) : Cache τ κ ν :=
  let kept :=
    if (c.slot? key).isSome then (c.erase key).slots
    else if c.capacity ≤ c.size then c.slots.drop 1
    else c.slots
  { c with slots := kept ++ [⟨key, value, now⟩] }

/-- The key of a value just stored is the last one. -/
theorem getLast?_keys_put (now : τ) (key : κ) (value : ν) :
    (c.put now key value).keys.getLast? = some key := by
  simp [put, keys]

variable [Sub τ] [LE τ] [DecidableLE τ]

/-- The slot of a key, which is dropped when the lifetime of its value is over. -/
def live (now : τ) (key : κ) : Option (Slot τ κ ν) × Cache τ κ ν :=
  match c.slot? key with
  | none => (none, c)
  | some s => if c.isOver now s then (none, c.erase key) else (some s, c)

/-- Reads a value, which is then the one used last. -/
def get (now : τ) (key : κ) : Option ν × Cache τ κ ν :=
  match c.live now key with
  | (some s, c) => (some s.value, { c with slots := (c.erase key).slots ++ [s] })
  | (none, c) => (none, c)

/-- Whether there is a value that may be handed out. -/
def has (now : τ) (key : κ) : Bool × Cache τ κ ν :=
  let (found, c) := c.live now key
  (found.isSome, c)

end

end

end Cache

end TypeLens
