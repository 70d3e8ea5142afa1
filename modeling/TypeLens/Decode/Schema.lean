import TypeLens.Decode.Fault

/-!
# Decoding records

A `Schema` describes the fields of a record: how they are decoded, and which keys of a given record
they account for. Schemas combine like decoders do, so a record type is decoded by applying its
constructor to the schemas of its fields in order.

A field may go by several names; the first name present is the one that counts, and only that one
is accounted for. A *closed* record refuses the keys no field accounts for, in the order of the
record, behind the faults of its fields; an *open* record ignores them.

Trees are decoded node by node, and only so many nodes may lie inside each other.
-/

namespace TypeLens

/-- How many nodes of a tree may lie inside each other. -/
def Decoder.maxNesting : Nat := 255

/-- The fields of a record. -/
structure Schema (α : Type) where
  /-- Decodes the fields. -/
  decode : Fields → Decoded α
  /-- The keys of a record that the fields account for. -/
  known : Fields → List String

namespace Schema

variable {α β : Type}

instance : Applicative Schema where
  pure a := ⟨fun _ ↦ .ok a, fun _ ↦ []⟩
  seq f a := ⟨fun r ↦ (f.decode r).both ((a ()).decode r), fun r ↦ f.known r ++ (a ()).known r⟩
  map f a := ⟨fun r ↦ (Decoded.ok f).both (a.decode r), a.known⟩

/-- The first of several names that is present, with its value. -/
def find? (names : List String) (fields : Fields) : Option (String × Json) :=
  names.findSome? fun name ↦ (fields.get? name).map (name, ·)

/-- The name present, as a list. -/
def found (names : List String) (fields : Fields) : List String :=
  match find? names fields with
  | some (name, _) => [name]
  | none => []

/-- A field without default. When it is absent, its first name is reported. -/
def required (names : List String) (d : Decoder α) : Schema α where
  decode fields :=
    match find? names fields with
    | some (name, v) => (d v).under (.key name)
    | none => .faults [⟨[.key (names.headD "")], .missing⟩]
  known := found names

/-- A field with a default. -/
def defaulting (names : List String) (default : α) (d : Decoder α) : Schema α where
  decode fields :=
    match find? names fields with
    | some (name, v) => (d v).under (.key name)
    | none => .ok default
  known := found names

/-- No fields: every record is refused. -/
def refusing (cause : Cause) : Schema α where
  decode _ := .refuse cause
  known _ := []

/-- Decodes the fields of a record that may have further fields. -/
def openRecord (s : Schema α) : Decoder α
  | .obj fields => s.decode fields
  | _ => .refuse .notRecord

/-- The faults of the keys that are not known. -/
def unknownFields (known : List String) (fields : Fields) : List Fault :=
  (fields.filter fun (k, _) ↦ !known.contains k).map fun (k, _) ↦ ⟨[.key k], .unknownField⟩

/-- Decodes the fields of a record and refuses further fields. -/
def closedFields (s : Schema α) (fields : Fields) : Decoded α :=
  match unknownFields (s.known fields) fields with
  | [] => s.decode fields
  | extra =>
    match s.decode fields with
    | .ok _ => .faults extra
    | .error fs => .faults (fs ++ extra)

/-- Decodes the fields of a record that has no further fields. -/
def closedRecord (s : Schema α) : Decoder α
  | .obj fields => s.closedFields fields
  | _ => .refuse .notRecord

@[simp]
theorem decode_seq (f : Schema (α → β)) (a : Schema α) (r : Fields) :
    (f <*> a).decode r = (f.decode r).both (a.decode r) :=
  rfl

@[simp]
theorem decode_map (f : α → β) (a : Schema α) (r : Fields) :
    (f <$> a).decode r = (Decoded.ok f).both (a.decode r) :=
  rfl

@[simp]
theorem decode_pure (a : α) (r : Fields) : (pure a : Schema α).decode r = .ok a :=
  rfl

end Schema

end TypeLens
