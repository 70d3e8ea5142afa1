/-!
# Structured data

`Json` is the data exchanged with a client: snapshots, requests and results. Integers are unbounded
and kept apart from floating-point numbers, and the members of an object keep their order, because
both show in what is written.

An object is a list of members with distinct keys. `Fields.put` is the only way a member is added
or replaced: a key that is already there keeps its place.
-/

namespace TypeLens

/-- A value of structured data. -/
inductive Json where
  | null
  | bool (value : Bool)
  | int (value : Int)
  | float (value : Float)
  | str (value : String)
  | arr (items : List Json)
  | obj (fields : List (String × Json))
deriving Repr, Inhabited, BEq

/-- The members of an object, in order. -/
abbrev Fields := List (String × Json)

namespace Fields

/-- The value of a member. -/
def get? (fields : Fields) (key : String) : Option Json :=
  fields.lookup key

/-- Whether there is a member of this name. -/
def has (fields : Fields) (key : String) : Bool :=
  (fields.get? key).isSome

/-- Replaces a member where it stands, or adds it at the end. -/
def put (key : String) (value : Json) : Fields → Fields
  | [] => [(key, value)]
  | (k, v) :: rest => if k = key then (k, value) :: rest else (k, v) :: put key value rest

/-- Removes a member. -/
def erase (key : String) (fields : Fields) : Fields :=
  fields.filter fun (k, _) ↦ k != key

/-- The members of the first object, replaced and followed by those of the second. -/
def merge (fields others : Fields) : Fields :=
  others.foldl (fun acc (k, v) ↦ put k v acc) fields

/-- A member just put is found. -/
@[simp]
theorem get?_put_self (fields : Fields) (key : String) (value : Json) :
    (fields.put key value).get? key = some value := by
  induction fields with
  | nil => simp [put, get?]
  | cons field rest ih =>
    obtain ⟨k, v⟩ := field
    by_cases h : k = key
    · simp [put, get?, h]
    · simp only [put, if_neg h, get?, List.lookup_cons]
      have hk : (key == k) = false := by simpa using fun e : key = k ↦ h e.symm
      rw [hk]
      exact ih

/-- Putting a member leaves the others alone. -/
theorem get?_put_of_ne {fields : Fields} {key other : String} (value : Json) (h : other ≠ key) :
    (fields.put key value).get? other = fields.get? other := by
  have ho : (other == key) = false := by simpa using h
  induction fields with
  | nil => simp [put, get?, h]
  | cons field rest ih =>
    obtain ⟨k, v⟩ := field
    by_cases hk : k = key
    · subst hk
      simp [put, get?, List.lookup_cons, ho]
    · simp only [put, if_neg hk, get?, List.lookup_cons]
      cases other == k with
      | true => rfl
      | false => exact ih

end Fields

namespace Json

/-- The value of a member of an object. -/
def get? (key : String) : Json → Option Json
  | obj fields => Fields.get? fields key
  | _ => none

/-- The text of a string. -/
def str? : Json → Option String
  | str s => some s
  | _ => none

/-- The members of an object. -/
def obj? : Json → Option Fields
  | obj fields => some fields
  | _ => none

/-- The items of an array. -/
def arr? : Json → Option (List Json)
  | arr items => some items
  | _ => none

/-- A list of strings as an array. -/
def strings (texts : List String) : Json :=
  arr (texts.map str)

/-- An optional string; nothing is `null`. -/
def ofString? : Option String → Json
  | some s => str s
  | none => null

/-- A value counts as false when it is empty, zero, false or `null`. -/
def truthy : Json → Bool
  | null => false
  | bool b => b
  | int n => n != 0
  | float x => x != 0
  | str s => s != ""
  | arr items => !items.isEmpty
  | obj fields => !fields.isEmpty

/-- The integers below this bound, and not below its opposite, have 64 bits with a sign. -/
def signedBound : Int := 9223372036854775808

/-- The integers from zero up to this bound have 64 bits without a sign. -/
def unsignedBound : Int := 18446744073709551616

/-- Whether an integer has 64 bits, with or without a sign. -/
def isNarrow (n : Int) : Bool :=
  -signedBound ≤ n && n < unsignedBound

mutual

/-- The depth of nesting; a scalar has depth zero. -/
def depth : Json → Nat
  | arr items => depthItems items + 1
  | obj fields => depthFields fields + 1
  | _ => 0

/-- The greatest depth among the items. -/
def depthItems : List Json → Nat
  | [] => 0
  | item :: items => max item.depth (depthItems items)

/-- The greatest depth among the values of the members. -/
def depthFields : List (String × Json) → Nat
  | [] => 0
  | (_, value) :: fields => max value.depth (depthFields fields)

end

end Json

end TypeLens
