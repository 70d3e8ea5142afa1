import TypeLens.Decode.Scalar
import TypeLens.Decode.Schema

/-!
# Reading back what was written

`Schema.Reads s fields a` says that the fields are read as `a`, without a fault. A record is written
under the first name of each of its fields, so a field is found by that name alone, whatever other
names it goes by. The laws below follow the way schemas are put together: what is written field by
field is read field by field.

The other way round, `Decoder.Gives d a` and `Schema.Gives s a` say that something is read as the
value. A record is only given by fields that are, so the parts of what is read were read themselves.
-/

namespace TypeLens

variable {α β : Type}

namespace Decoder

/-! ### Scalars and sequences -/

theorem string_str (s : String) : string (.str s) = .ok s :=
  rfl

theorem boolean_bool (b : Bool) : boolean (.bool b) = .ok b :=
  rfl

theorem integer_int (n : Int) : integer (.int n) = .ok n :=
  rfl

theorem number_float (x : Float) : number (.float x) = .ok x :=
  rfl

/-- A natural number is read as itself. -/
theorem natural_int (n : Nat) : natural (.int n) = .ok n := by
  have hnonneg : ¬(n : Int) < 0 := by omega
  simp [natural, integerBetween, integer_int, Decoded.filter, hnonneg]

/-- What is read, and is not `null`, is read where it may be `null`. -/
theorem nullable_of_ne_null {d : Decoder α} {v : Json} {a : α} (hnull : v ≠ .null)
    (h : d v = .ok a) : nullable d v = .ok (some a) := by
  rw [nullable.eq_def]
  split
  · exact absurd rfl hnull
  · rw [h]
    rfl

/-- Items that are written one by one are read one by one. -/
theorem itemsFrom_map {d : Decoder α} {encode : α → Json} {as : List α}
    (h : ∀ a ∈ as, d (encode a) = .ok a) (position : Nat) :
    itemsFrom d position (as.map encode) = .ok as := by
  induction as generalizing position with
  | nil => rfl
  | cons a as ih =>
    have hrest := ih (fun b hb ↦ h b (List.mem_cons_of_mem a hb)) (position + 1)
    simp [itemsFrom, h a List.mem_cons_self, hrest]

theorem sequence_map {d : Decoder α} {encode : α → Json} {as : List α}
    (h : ∀ a ∈ as, d (encode a) = .ok a) : sequence d (.arr (as.map encode)) = .ok as :=
  itemsFrom_map h 0

theorem list_strings (texts : List String) : list string (.strings texts) = .ok texts :=
  itemsFrom_map (fun text _ ↦ string_str text) 0

end Decoder

namespace Schema

/-! ### Records -/

/-- Fields are read as a value. -/
def Reads (s : Schema α) (fields : Fields) (a : α) : Prop :=
  s.decode fields = .ok a

variable {fields : Fields}

theorem Reads.map {s : Schema α} {a : α} (h : s.Reads fields a) (f : α → β) :
    (f <$> s).Reads fields (f a) := by
  rw [Reads, decode_map, h, Decoded.both_ok]

theorem Reads.seq {s : Schema (α → β)} {t : Schema α} {f : α → β} {a : α} (hs : s.Reads fields f)
    (ht : t.Reads fields a) : (s <*> t).Reads fields (f a) := by
  rw [Reads, decode_seq, hs, ht, Decoded.both_ok]

/-- A field is found by its first name. -/
theorem find?_of_get? {name : String} {v : Json} (h : fields.get? name = some v)
    (names : List String) : find? (name :: names) fields = some (name, v) := by
  simp [find?, h]

variable {name : String} {names : List String} {d : Decoder α} {v : Json} {a : α}

/-- A field is read under the name by which it is found. -/
theorem reads_of_find? (h : find? names fields = some (name, v)) (hd : d v = .ok a) :
    (required names d).Reads fields a := by
  simp only [Reads, required, h, hd, Decoded.under_ok]

theorem reads_required (h : fields.get? name = some v) (hd : d v = .ok a) :
    (required (name :: names) d).Reads fields a :=
  reads_of_find? (find?_of_get? h names) hd

theorem reads_defaulting (h : fields.get? name = some v) (hd : d v = .ok a) (default : α) :
    (defaulting (name :: names) default d).Reads fields a := by
  simp only [Reads, defaulting, find?_of_get? h, hd, Decoded.under_ok]

/-- A field that is not there has its default. -/
theorem reads_default (h : ∀ name ∈ names, fields.get? name = none) (default : α) :
    (defaulting names default d).Reads fields default := by
  have hfind : find? names fields = none := by
    rw [find?, List.findSome?_eq_none_iff]
    intro name hname
    rw [h name hname, Option.map_none]
  simp only [Reads, defaulting, hfind]

/-- A closed record is read where its fields account for all its keys. -/
theorem Reads.closedFields {s : Schema α} (h : s.Reads fields a)
    (hknown : ∀ field ∈ fields, field.1 ∈ s.known fields) : s.closedFields fields = .ok a := by
  have hnone : unknownFields (s.known fields) fields = [] := by
    rw [unknownFields, List.map_eq_nil_iff, List.filter_eq_nil_iff]
    intro field hfield
    simpa using hknown field hfield
  rw [Schema.closedFields, hnone]
  exact h

end Schema

/-! ### What is read was read in parts -/

namespace Decoded

theorem of_under_eq_ok {step : Step} {x : Decoded α} {a : α} (h : x.under step = .ok a) :
    x = .ok a := by
  cases x with
  | ok b => exact congrArg Except.ok (Except.ok.inj h)
  | error faults => cases h

end Decoded

/-- A value is what a decoder reads something as. -/
def Decoder.Gives (d : Decoder α) (a : α) : Prop :=
  ∃ v, d v = .ok a

/-- A value is what a schema reads some fields as. -/
def Schema.Gives (s : Schema α) (a : α) : Prop :=
  ∃ fields, s.Reads fields a

namespace Schema.Gives

/-- What a mapped schema gives is made of what the schema gives. -/
theorem of_map {s : Schema α} {f : α → β} {b : β} (h : (f <$> s).Gives b) :
    ∃ a, s.Gives a ∧ f a = b := by
  obtain ⟨fields, hfields⟩ := h
  rw [Reads, decode_map] at hfields
  obtain ⟨g, a, hg, ha, rfl⟩ := Decoded.both_eq_ok_iff.1 hfields
  obtain rfl : f = g := Except.ok.inj hg
  exact ⟨a, ⟨fields, ha⟩, rfl⟩

/-- Two groups of fields give what both of them give. -/
theorem of_seq {s : Schema (α → β)} {t : Schema α} {b : β} (h : (s <*> t).Gives b) :
    ∃ f a, s.Gives f ∧ t.Gives a ∧ f a = b := by
  obtain ⟨fields, hfields⟩ := h
  rw [Reads, decode_seq] at hfields
  obtain ⟨f, a, hf, ha, rfl⟩ := Decoded.both_eq_ok_iff.1 hfields
  exact ⟨f, a, ⟨fields, hf⟩, ⟨fields, ha⟩, rfl⟩

variable {names : List String} {d : Decoder α} {a : α}

/-- A required field gives what its decoder gives. -/
theorem of_required (h : (required names d).Gives a) : d.Gives a := by
  obtain ⟨fields, hfields⟩ := h
  unfold Reads required at hfields
  dsimp only at hfields
  split at hfields
  · exact ⟨_, Decoded.of_under_eq_ok hfields⟩
  · cases hfields

/-- A field that may be missing is read, or it has its default. -/
theorem of_defaulting {default : α} (h : (defaulting names default d).Gives a) :
    a = default ∨ d.Gives a := by
  obtain ⟨fields, hfields⟩ := h
  unfold Reads defaulting at hfields
  dsimp only at hfields
  split at hfields
  · exact .inr ⟨_, Decoded.of_under_eq_ok hfields⟩
  · exact .inl (Except.ok.inj hfields).symm

end Schema.Gives

namespace Decoder.Gives

/-- A record gives what its fields give. -/
theorem of_openRecord {s : Schema α} {a : α} (h : Decoder.Gives s.openRecord a) : s.Gives a := by
  obtain ⟨v, hv⟩ := h
  unfold Schema.openRecord at hv
  split at hv
  · exact ⟨_, hv⟩
  · cases hv

/-- Every item of a sequence that is read was read. -/
theorem of_sequence {d : Decoder α} {as : List α} (h : Decoder.Gives (sequence d) as) :
    ∀ a ∈ as, d.Gives a := by
  have hitems : ∀ (vs : List Json) (position : Nat) (as : List α),
      itemsFrom d position vs = .ok as → ∀ a ∈ as, d.Gives a := by
    intro vs
    induction vs with
    | nil =>
      intro position as hvs a ha
      obtain rfl : [] = as := Except.ok.inj hvs
      cases ha
    | cons v vs ih =>
      intro position as hvs
      rw [itemsFrom, Decoded.seq_eq, Decoded.map_eq] at hvs
      obtain ⟨cons, rest, hfirst, hrest, rfl⟩ := Decoded.both_eq_ok_iff.1 hvs
      obtain ⟨g, first, hg, hv, rfl⟩ := Decoded.both_eq_ok_iff.1 hfirst
      obtain rfl : List.cons = g := Except.ok.inj hg
      exact List.forall_mem_cons.2 ⟨⟨v, Decoded.of_under_eq_ok hv⟩, ih (position + 1) rest hrest⟩
  obtain ⟨v, hv⟩ := h
  unfold sequence at hv
  split at hv
  · exact hitems _ 0 as hv
  · cases hv

end Decoder.Gives

end TypeLens
