import TypeLens.Json.Basic

/-!
# Decoding with faults

Records arrive as structured data and are decoded into the library's own types. A decoder reports
every fault of its input, not only the first: `Decoded` is the applicative that collects faults,
in the order in which the decoders are combined. Each fault says where it is, by a path of keys
and positions, and why the value there was refused.

`Decoded.filter` is for conditions on a whole value: they are looked at only when the parts of the
value have no fault.
-/

namespace TypeLens

/-- A step into a value. -/
inductive Step where
  | key (name : String)
  | index (position : Nat)
deriving Repr, DecidableEq

/-- Why a value was refused. -/
inductive Cause where
  /-- A field that has no default is absent. -/
  | missing
  /-- A record has a field it may not have. -/
  | unknownField
  /-- Not a record. -/
  | notRecord
  /-- Not a node of a tree. -/
  | notNode
  /-- Inside too many nodes of a tree. -/
  | tooDeep
  /-- A node without a kind. -/
  | kindMissing
  /-- A node of an unknown kind. -/
  | kindUnknown
  /-- Not a map. -/
  | notMap
  /-- Not a list. -/
  | notList
  /-- Not a fixed sequence. -/
  | notSequence
  /-- Not a string. -/
  | notString
  /-- A string that may not be empty is. -/
  | tooShort
  /-- Not one of the words allowed. -/
  | notAllowed
  /-- Below the least value allowed. -/
  | tooSmall
  /-- Above the greatest value allowed. -/
  | tooLarge
  /-- Not an integer and not readable as one. -/
  | notInteger
  /-- A string that is no integer numeral. -/
  | integerSyntax
  /-- A number with a fractional part. -/
  | fractional
  /-- An integer that is too long to be read. -/
  | integerSize
  /-- Not a truth value and not readable as one. -/
  | notBoolean
  /-- A string or number that is no truth value. -/
  | booleanSyntax
  /-- Not a number and not readable as one. -/
  | notNumber
  /-- A string that is no numeral. -/
  | numberSyntax
  /-- A condition on the whole value fails, for the reason given. -/
  | rejected (reason : String)
deriving Repr, DecidableEq

/-- A refused value: where it is and why it was refused. -/
structure Fault where
  /-- The path from the value decoded to the value refused. -/
  path : List Step
  /-- The reason. -/
  cause : Cause
deriving Repr, DecidableEq

/-- The outcome of decoding: a value, or all faults found. -/
def Decoded (α : Type) : Type :=
  Except (List Fault) α

/-- How a type is decoded. -/
abbrev Decoder (α : Type) : Type :=
  Json → Decoded α

namespace Decoded

variable {α β : Type}

/-- A decoded value. -/
def ok (a : α) : Decoded α :=
  Except.ok a

/-- Decoding failed with these faults. -/
def faults (fs : List Fault) : Decoded α :=
  Except.error fs

/-- The value itself is refused. -/
def refuse (cause : Cause) : Decoded α :=
  faults [⟨[], cause⟩]

/-- Combines two outcomes; the faults of the first come first. -/
def both (f : Decoded (α → β)) (a : Decoded α) : Decoded β :=
  match f, a with
  | .ok f, .ok a => ok (f a)
  | .ok _, .error fs => faults fs
  | .error fs, .ok _ => faults fs
  | .error fs, .error gs => faults (fs ++ gs)

instance : Applicative Decoded where
  pure := ok
  seq f a := both f (a ())
  map f a := both (ok f) a

/-- Adds a step in front of the path of every fault. -/
def under (step : Step) : Decoded α → Decoded α
  | .ok a => ok a
  | .error fs => faults (fs.map fun f ↦ { f with path := step :: f.path })

/-- Continues with a decoded value. -/
def andThen (a : Decoded α) (f : α → Decoded β) : Decoded β :=
  match a with
  | .ok a => f a
  | .error fs => faults fs

/-- Refuses a decoded value for which `refusal` gives a cause. -/
def filter (refusal : α → Option Cause) (a : Decoded α) : Decoded α :=
  a.andThen fun a ↦
    match refusal a with
    | some cause => refuse cause
    | none => ok a

@[simp]
theorem both_ok (f : α → β) (a : α) : both (ok f) (ok a) = ok (f a) :=
  rfl

@[simp]
theorem under_ok (step : Step) (a : α) : under step (ok a) = ok a :=
  rfl

@[simp]
theorem andThen_ok (a : α) (f : α → Decoded β) : (ok a).andThen f = f a :=
  rfl

@[simp]
theorem seq_eq (f : Decoded (α → β)) (a : Decoded α) : (f <*> a) = both f a :=
  rfl

@[simp]
theorem map_eq (f : α → β) (a : Decoded α) : (f <$> a) = both (ok f) a :=
  rfl

/-- Both outcomes of a combination that succeeds succeeded. -/
theorem both_eq_ok_iff {f : Decoded (α → β)} {a : Decoded α} {b : β} :
    both f a = ok b ↔ ∃ g x, f = ok g ∧ a = ok x ∧ g x = b := by
  rcases f with fs | g <;> rcases a with gs | x
  · simp [both, ok, faults]
  · simp [both, ok, faults]
  · simp [both, ok, faults]
  · constructor
    · intro h
      exact ⟨g, x, rfl, rfl, Except.ok.inj h⟩
    · rintro ⟨g', x', hg, hx, rfl⟩
      obtain rfl := Except.ok.inj hg
      obtain rfl := Except.ok.inj hx
      rfl

end Decoded

end TypeLens
