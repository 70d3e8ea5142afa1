import TypeLens.Proofs.Decode.Reads
import TypeLens.Proofs.Tree.Shape
import TypeLens.Tree.Codec

/-!
# Trees are read back as they were written

Every node is written as the members of its label followed by members of its own (`Tree.ownFields`),
under names that no label uses. So the label and the rest are read independently of each other, and
a node is read back once the trees directly below it are (`Tree.decodeBy_written`). The other way
round, what is read as a node had something in it that was read as each of the trees below it
(`Tree.gives_branch`).

`Codec.Laws` is what is expected of a codec: it goes through a tree node by node, and gives up on a
node inside too many others. From these laws **a tree is written if it is not too high**
(`Codec.Laws.write?_eq`), **and is read back then, with or without display parts**
(`Codec.Laws.read_toJson`). Nothing is read as a tree that is too high (`Codec.Laws.height_le`). The
same goes for answers to look-ups.
-/

namespace TypeLens

/-! ### Labels -/

namespace Label

/-- The names that belong to the label of a node. -/
def names : List String := ["typeName", "type_name", "displayParts", "display_parts", "kind"]

variable {kind key : String} {rest : Fields} (l : Label)

/-- A member that belongs to no label is found behind the label. -/
theorem get?_fields_append (h : key ∉ names) :
    (l.fields kind ++ rest).get? key = Fields.get? rest key := by
  have hne : ∀ name ∈ names, (key == name) = false :=
    fun name hname ↦ beq_false_of_ne fun heq ↦ h (heq ▸ hname)
  have hname := hne "typeName" (by decide)
  have hparts := hne "displayParts" (by decide)
  have hkind := hne "kind" (by decide)
  obtain ⟨name, - | parts⟩ := l <;>
    simp [fields, Fields.get?, List.lookup_cons, hname, hparts, hkind]

theorem get?_kind : (l.fields kind ++ rest).get? "kind" = some (.str kind) := by
  obtain ⟨name, - | parts⟩ := l <;> simp [fields, Fields.get?, List.lookup_cons]

/-- A label is read back, whatever stands behind it. -/
theorem reads_fields (hrest : ∀ key ∈ names, Fields.get? rest key = none) :
    schema.Reads (l.fields kind ++ rest) l := by
  have hname : (l.fields kind ++ rest).get? "typeName" = some (.str l.name) := by
    simp [fields, Fields.get?]
  refine ((Schema.reads_required hname (Decoder.string_str l.name)).map mk).seq ?_
  -- Missing display parts are not written, so nothing behind the label may go by their name.
  obtain ⟨name, - | parts⟩ := l
  · refine Schema.reads_default (fun key hkey ↦ ?_) none
    have hbehind := hrest key (by simp only [names, List.mem_cons] at hkey ⊢; tauto)
    simp only [List.mem_cons, List.not_mem_nil, or_false] at hkey
    rcases hkey with rfl | rfl <;> simpa [fields, Fields.get?, List.lookup_cons] using hbehind
  · refine Schema.reads_defaulting (v := .arr (parts.map Part.toJson)) ?_ ?_ none
    · simp [fields, Fields.get?, List.lookup_cons]
    · exact Decoder.nullable_of_ne_null (by simp) (Decoder.sequence_map fun part _ ↦ rfl)

end Label

/-! ### Nodes -/

section

variable {α : Type} (below : α → Json)

/-- A property as an object, with its type written. -/
def Property.written (p : Property α) : Json :=
  .obj [("name", .str p.name), ("optional", .bool p.optional), ("readonly", .bool p.readonly),
    ("type", below p.type)]

/-- A parameter as an object, with its type written. -/
def Parameter.written (p : Parameter α) : Json :=
  .obj [("name", .str p.name), ("optional", .bool p.optional), ("isRestParameter", .bool p.rest),
    ("type", below p.type)]

/-- A signature as an object, with its types written. -/
def Signature.written (s : Signature α) : Json :=
  .obj [("returnType", below s.result),
    ("parameters", .arr (s.parameters.map (Parameter.written below)))]

variable {below}

theorem Signature.written_congr {below' : α → Json} {s : Signature α}
    (h : ∀ c ∈ s.types, below c = below' c) : s.written below = s.written below' := by
  obtain ⟨hresult, hparameters⟩ := List.forall_mem_cons.1 h
  rw [written, written, hresult]
  refine congrArg (fun ps ↦ Json.obj [_, ("parameters", .arr ps)]) (List.map_congr_left ?_)
  intro p hp
  rw [Parameter.written, Parameter.written, hparameters p.type (List.mem_map_of_mem hp)]

end

namespace Tree

theorem jsonList_eq_map (ts : List Tree) : jsonList ts = ts.map toJson := by
  induction ts with
  | nil => rfl
  | cons t ts ih => rw [jsonList, ih, List.map_cons]

theorem propertyJsons_eq_map (ps : List (Property Tree)) :
    propertyJsons ps = ps.map (Property.written toJson) := by
  induction ps with
  | nil => rfl
  | cons p ps ih =>
    rw [propertyJsons, ih, List.map_cons, propertyJson]
    rfl

theorem parameterJsons_eq_map (ps : List (Parameter Tree)) :
    parameterJsons ps = ps.map (Parameter.written toJson) := by
  induction ps with
  | nil => rfl
  | cons p ps ih =>
    rw [parameterJsons, ih, List.map_cons, parameterJson]
    rfl

theorem signatureJsons_eq_map (ss : List (Signature Tree)) :
    signatureJsons ss = ss.map (Signature.written toJson) := by
  induction ss with
  | nil => rfl
  | cons s ss ih =>
    rw [signatureJsons, ih, List.map_cons, signatureJson, parameterJsons_eq_map]
    rfl

/-- The members of a node that do not belong to its label, with the trees below it written. -/
def ownFields (below : Tree → Json) : Tree → Fields
  | primitive _ | basic _ | reference _ => []
  | union _ ms e => [("types", .arr (ms.map below)), ("excessMembers", .int e)]
  | intersection _ ms => [("types", .arr (ms.map below))]
  | object _ ps e =>
    [("properties", .arr (ps.map (Property.written below))), ("excessProperties", .int e)]
  | array _ r t => [("readonly", .bool r), ("elementType", below t)]
  | tuple _ r ts => [("readonly", .bool r), ("elementTypes", .arr (ts.map below))]
  | function _ ss e =>
    [("signatures", .arr (ss.map (Signature.written below))), ("excessSignatures", .int e)]
  | promise _ t => [("type", below t)]
  | enumMember _ m => [("member", .str m)]
  | generic _ ts => [("arguments", .arr (ts.map below))]

/-- A node as an object, with the trees below it written. -/
def written (below : Tree → Json) (t : Tree) : Json :=
  .obj (t.label.fields t.kind ++ t.ownFields below)

/-- A tree is written node by node. -/
theorem toJson_eq (t : Tree) : t.toJson = t.written toJson := by
  cases t <;> simp only [toJson, jsonList_eq_map, propertyJsons_eq_map, signatureJsons_eq_map,
    written, label, kind, ownFields, List.append_nil]

section

variable {below : Tree → Json}

/-- How a node is written depends on how the trees directly below it are. -/
theorem written_congr {below' : Tree → Json} {t : Tree}
    (h : ∀ b ∈ t.branches, below b = below' b) : t.written below = t.written below' := by
  have hown : t.ownFields below = t.ownFields below' := by
    cases t with
    | primitive | basic | reference | enumMember => rfl
    | union _ ts _ | intersection _ ts | tuple _ _ ts | generic _ ts =>
      have htrees : ts.map below = ts.map below' := List.map_congr_left h
      simp only [ownFields, htrees]
    | array _ _ t | promise _ t => simp only [ownFields, h t (List.mem_singleton_self t)]
    | object _ ps _ =>
      have hproperties : ps.map (Property.written below) = ps.map (Property.written below') := by
        refine List.map_congr_left fun p hp ↦ ?_
        rw [Property.written, Property.written, h p.type (List.mem_map_of_mem hp)]
      simp only [ownFields, hproperties]
    | function _ ss _ =>
      have hsignatures : ss.map (Signature.written below) = ss.map (Signature.written below') :=
        List.map_congr_left fun s hs ↦
          Signature.written_congr fun c hc ↦ h c (List.mem_flatMap_of_mem hs hc)
      simp only [ownFields, hsignatures]
  rw [written, written, hown]

theorem get?_ownFields (t : Tree) {key : String} (h : key ∈ Label.names) :
    Fields.get? (t.ownFields below) key = none := by
  simp only [Label.names, List.mem_cons, List.not_mem_nil, or_false] at h
  rcases h with rfl | rfl | rfl | rfl | rfl <;> cases t <;> rfl

/-- The label of a node is read back, whatever the trees below it are written as. -/
theorem reads_label (below : Tree → Json) (t : Tree) :
    Label.schema.Reads (t.label.fields t.kind ++ t.ownFields below) t.label :=
  t.label.reads_fields fun _ h ↦ t.get?_ownFields h

variable {d : Decoder Tree}

/-- A property is read back if its type is. -/
theorem decode_property {p : Property Tree} (h : d (below p.type) = .ok p.type) :
    (Property.schema d).openRecord (p.written below) = .ok p := by
  obtain ⟨name, optional, readonly, type⟩ := p
  exact ((((Schema.reads_required rfl (Decoder.string_str name)).map Property.mk).seq
    (Schema.reads_defaulting rfl (Decoder.boolean_bool optional) false)).seq
    (Schema.reads_defaulting rfl (Decoder.boolean_bool readonly) false)).seq
    (Schema.reads_required rfl h)

/-- A parameter is read back if its type is. -/
theorem decode_parameter {p : Parameter Tree} (h : d (below p.type) = .ok p.type) :
    (Parameter.schema d).openRecord (p.written below) = .ok p := by
  obtain ⟨name, optional, rest, type⟩ := p
  exact ((((Schema.reads_required rfl (Decoder.string_str name)).map Parameter.mk).seq
    (Schema.reads_defaulting rfl (Decoder.boolean_bool optional) false)).seq
    (Schema.reads_defaulting rfl (Decoder.boolean_bool rest) false)).seq
    (Schema.reads_required rfl h)

/-- A signature is read back if the types it is made of are. -/
theorem decode_signature {s : Signature Tree} (h : ∀ c ∈ s.types, d (below c) = .ok c) :
    (Signature.schema d).openRecord (s.written below) = .ok s := by
  obtain ⟨result, parameters⟩ := s
  have hparameters : Decoder.sequence (Parameter.schema d).openRecord
      (.arr (parameters.map (Parameter.written below))) = .ok parameters := by
    refine Decoder.sequence_map fun p hp ↦ decode_parameter (h p.type ?_)
    exact List.mem_cons_of_mem _ (List.mem_map_of_mem hp)
  exact ((Schema.reads_required rfl (h result List.mem_cons_self)).map Signature.mk).seq
    (Schema.reads_defaulting rfl hparameters [])

/-- A node is read back by the schema of its kind, if the trees directly below it are. -/
theorem exists_schema? (t : Tree) (h : ∀ c ∈ t.branches, d (below c) = .ok c) :
    ∃ s, schema? d t.kind = some s ∧ s.Reads (t.label.fields t.kind ++ t.ownFields below) t := by
  have hlabel := t.reads_label below
  have hget : ∀ {key : String} {v : Json}, key ∉ Label.names →
      Fields.get? (t.ownFields below) key = some v →
      (t.label.fields t.kind ++ t.ownFields below).get? key = some v :=
    fun hkey hv ↦ (t.label.get?_fields_append hkey).trans hv
  -- The schema of a kind asks for the fields the kind is written with, each under its first name.
  cases t with
  | primitive l => exact ⟨_, rfl, hlabel.map primitive⟩
  | basic l => exact ⟨_, rfl, hlabel.map basic⟩
  | reference l => exact ⟨_, rfl, hlabel.map reference⟩
  | union l ms e =>
    exact ⟨_, rfl, ((hlabel.map union).seq
      (Schema.reads_defaulting (hget (by decide) rfl) (Decoder.sequence_map h) [])).seq
      (Schema.reads_defaulting (hget (by decide) rfl) (Decoder.integer_int e) 0)⟩
  | intersection l ms =>
    exact ⟨_, rfl, (hlabel.map intersection).seq
      (Schema.reads_defaulting (hget (by decide) rfl) (Decoder.sequence_map h) [])⟩
  | object l ps e =>
    have hproperties := Decoder.sequence_map fun p hp ↦
      decode_property (h p.type (List.mem_map_of_mem hp))
    exact ⟨_, rfl, ((hlabel.map object).seq
      (Schema.reads_defaulting (hget (by decide) rfl) hproperties [])).seq
      (Schema.reads_defaulting (hget (by decide) rfl) (Decoder.integer_int e) 0)⟩
  | array l r t =>
    exact ⟨_, rfl, ((hlabel.map array).seq
      (Schema.reads_defaulting (hget (by decide) rfl) (Decoder.boolean_bool r) false)).seq
      (Schema.reads_required (hget (by decide) rfl) (h t (List.mem_singleton_self t)))⟩
  | tuple l r ts =>
    exact ⟨_, rfl, ((hlabel.map tuple).seq
      (Schema.reads_defaulting (hget (by decide) rfl) (Decoder.boolean_bool r) false)).seq
      (Schema.reads_defaulting (hget (by decide) rfl) (Decoder.sequence_map h) [])⟩
  | function l ss e =>
    have hsignatures := Decoder.sequence_map fun s hs ↦
      decode_signature fun c hc ↦ h c (List.mem_flatMap_of_mem hs hc)
    exact ⟨_, rfl, ((hlabel.map function).seq
      (Schema.reads_defaulting (hget (by decide) rfl) hsignatures [])).seq
      (Schema.reads_defaulting (hget (by decide) rfl) (Decoder.integer_int e) 0)⟩
  | promise l t =>
    exact ⟨_, rfl, (hlabel.map promise).seq
      (Schema.reads_required (hget (by decide) rfl) (h t (List.mem_singleton_self t)))⟩
  | enumMember l m =>
    exact ⟨_, rfl, (hlabel.map enumMember).seq
      (Schema.reads_required (hget (by decide) rfl) (Decoder.string_str m))⟩
  | generic l ts =>
    exact ⟨_, rfl, (hlabel.map generic).seq
      (Schema.reads_defaulting (hget (by decide) rfl) (Decoder.sequence_map h) [])⟩

/-- **A node is read back**, if the trees directly below it are. -/
theorem decodeBy_written (t : Tree) (h : ∀ c ∈ t.branches, d (below c) = .ok c) :
    decodeBy (schema? d) (t.written below) = .ok t := by
  obtain ⟨s, hs, hreads⟩ := t.exists_schema? h
  rw [Schema.Reads] at hreads
  simp only [written, decodeBy, Label.get?_kind, hs, hreads, Decoded.under_ok]

end

/-! ### What a node is read from -/

section

variable {d : Decoder Tree}

/-- What is read as a node was read by the schema of some kind. -/
theorem exists_gives {schemas? : String → Option (Schema Tree)} {v : Json} {t : Tree}
    (h : decodeBy schemas? v = .ok t) : ∃ kind s, schemas? kind = some s ∧ s.Gives t := by
  unfold decodeBy at h
  split at h
  · split at h
    · cases h
    · split at h
      · next hs => exact ⟨_, _, hs, _, Decoded.of_under_eq_ok h⟩
      · cases h
    · cases h
  · cases h

theorem gives_children {names : List String} {ts : List Tree} (h : (children names d).Gives ts) :
    ∀ t ∈ ts, d.Gives t := by
  rcases h.of_defaulting with rfl | h
  · simp
  · exact h.of_sequence

theorem gives_property {p : Property Tree} (h : (Property.schema d).Gives p) : d.Gives p.type := by
  obtain ⟨f, type, hf, htype, rfl⟩ := h.of_seq
  obtain ⟨g, readonly, hg, -, rfl⟩ := hf.of_seq
  obtain ⟨e, optional, he, -, rfl⟩ := hg.of_seq
  obtain ⟨name, -, rfl⟩ := he.of_map
  exact htype.of_required

theorem gives_parameter {p : Parameter Tree} (h : (Parameter.schema d).Gives p) :
    d.Gives p.type := by
  obtain ⟨f, type, hf, htype, rfl⟩ := h.of_seq
  obtain ⟨g, rest, hg, -, rfl⟩ := hf.of_seq
  obtain ⟨e, optional, he, -, rfl⟩ := hg.of_seq
  obtain ⟨name, -, rfl⟩ := he.of_map
  exact htype.of_required

/-- What is given as a signature had each of its types given. -/
theorem gives_signature {s : Signature Tree} (h : (Signature.schema d).Gives s) :
    ∀ c ∈ s.types, d.Gives c := by
  obtain ⟨f, parameters, hf, hparameters, rfl⟩ := h.of_seq
  obtain ⟨result, hresult, rfl⟩ := hf.of_map
  refine List.forall_mem_cons.2 ⟨hresult.of_required, fun c hc ↦ ?_⟩
  obtain ⟨p, hp, rfl⟩ := List.mem_map.1 hc
  rcases hparameters.of_defaulting with rfl | hread
  · cases hp
  · exact gives_parameter (hread.of_sequence p hp).of_openRecord

/-- **The trees below a node that is read were read.** -/
theorem gives_branch {kind : String} {s : Schema Tree} {t : Tree} (hs : schema? d kind = some s)
    (h : s.Gives t) : ∀ c ∈ t.branches, d.Gives c := by
  unfold schema? at hs
  split at hs
  all_goals cases hs
  -- The cases are the kinds of nodes, in the order of the constructors.
  · obtain ⟨l, -, rfl⟩ := h.of_map
    simp [branches]
  · obtain ⟨l, -, rfl⟩ := h.of_map
    simp [branches]
  · obtain ⟨l, -, rfl⟩ := h.of_map
    simp [branches]
  · obtain ⟨f, excess, hf, -, rfl⟩ := h.of_seq
    obtain ⟨g, members, hg, hmembers, rfl⟩ := hf.of_seq
    obtain ⟨l, -, rfl⟩ := hg.of_map
    exact gives_children hmembers
  · obtain ⟨f, members, hf, hmembers, rfl⟩ := h.of_seq
    obtain ⟨l, -, rfl⟩ := hf.of_map
    exact gives_children hmembers
  · obtain ⟨f, excess, hf, -, rfl⟩ := h.of_seq
    obtain ⟨g, properties, hg, hproperties, rfl⟩ := hf.of_seq
    obtain ⟨l, -, rfl⟩ := hg.of_map
    intro c hc
    obtain ⟨p, hp, rfl⟩ := List.mem_map.1 hc
    rcases hproperties.of_defaulting with rfl | hread
    · cases hp
    · exact gives_property (hread.of_sequence p hp).of_openRecord
  · obtain ⟨f, element, hf, helement, rfl⟩ := h.of_seq
    obtain ⟨g, readonly, hg, -, rfl⟩ := hf.of_seq
    obtain ⟨l, -, rfl⟩ := hg.of_map
    exact List.forall_mem_singleton.2 helement.of_required
  · obtain ⟨f, elements, hf, helements, rfl⟩ := h.of_seq
    obtain ⟨g, readonly, hg, -, rfl⟩ := hf.of_seq
    obtain ⟨l, -, rfl⟩ := hg.of_map
    exact gives_children helements
  · obtain ⟨f, excess, hf, -, rfl⟩ := h.of_seq
    obtain ⟨g, signatures, hg, hsignatures, rfl⟩ := hf.of_seq
    obtain ⟨l, -, rfl⟩ := hg.of_map
    intro c hc
    obtain ⟨signature, hsignature, hc⟩ := List.mem_flatMap.1 hc
    rcases hsignatures.of_defaulting with rfl | hread
    · cases hsignature
    · exact gives_signature (hread.of_sequence signature hsignature).of_openRecord c hc
  · obtain ⟨f, value, hf, hvalue, rfl⟩ := h.of_seq
    obtain ⟨l, -, rfl⟩ := hf.of_map
    exact List.forall_mem_singleton.2 hvalue.of_required
  · obtain ⟨f, member, hf, -, rfl⟩ := h.of_seq
    obtain ⟨l, -, rfl⟩ := hf.of_map
    simp [branches]
  · obtain ⟨f, arguments, hf, harguments, rfl⟩ := h.of_seq
    obtain ⟨l, -, rfl⟩ := hf.of_map
    exact gives_children harguments

end

end Tree

/-! ### Codecs -/

/-- **What is expected of a codec.** It goes through a tree node by node, with the members of
`Tree.written` and the fields of `Tree.schema?`, and gives up on a node inside too many others. -/
structure Codec.Laws (c : Codec) : Prop where
  /-- A node is written as an object, with the trees below it written in their places. -/
  write_node : ∀ {above : Nat} {t : Tree} {below : Tree → Json}, above < c.levels →
    (∀ b ∈ t.branches, c.write? (above + 1) b = some (below b)) →
      c.write? above t = some (t.written below)
  /-- A node is not written where a tree below it is not. -/
  write_branch : ∀ {above : Nat} {t b : Tree}, b ∈ t.branches → c.write? (above + 1) b = none →
    c.write? above t = none
  /-- A node inside too many others is not written. -/
  write_deep : ∀ {above : Nat} (t : Tree), c.levels ≤ above → c.write? above t = none
  /-- A node is read by the schema of its kind, and the trees below it likewise. -/
  read_node : ∀ {above : Nat}, above < c.levels →
    c.read above = Tree.decodeBy (Tree.schema? (c.read (above + 1)))
  /-- A node inside too many others is not read. -/
  read_deep : ∀ {above : Nat} (t : Tree), c.levels ≤ above → ¬(c.read above).Gives t
  /-- The answer to a look-up is written with its tree. -/
  writeInfo : ∀ info, c.writeInfo? info = (c.write? 0 info.tree).map info.written
  /-- The answer to a look-up is read by its schema. -/
  readInfo : c.readInfo = (TypeInfo.schema (c.read 0)).openRecord

namespace Codec

theorem write?_standard (above : Nat) (t : Tree) : standard.write? above t =
    if above + t.height ≤ Decoder.maxNesting then some t.toJson else none :=
  rfl

/-- The standard codec is as expected. -/
theorem laws_standard : standard.Laws where
  write_node {above t below} habove hbelow := by
    have hwritten : ∀ b ∈ t.branches,
        above + 1 + b.height ≤ Decoder.maxNesting ∧ b.toJson = below b := by
      intro b hb
      simpa [write?_standard] using hbelow b hb
    have hheight : above + t.height ≤ Decoder.maxNesting :=
      Tree.height_le_of_branches habove fun b hb ↦ (hwritten b hb).1
    rw [write?_standard, if_pos hheight, Tree.toJson_eq,
      Tree.written_congr fun b hb ↦ (hwritten b hb).2]
  write_branch {above t b} hb h := by
    have hlt := Tree.height_lt_of_mem_branches hb
    rw [write?_standard] at h ⊢
    split at h
    · cases h
    · rw [if_neg (by omega)]
  write_deep {above} t h := by
    have hpos := t.height_pos
    have hlevels : Decoder.maxNesting ≤ above := h
    rw [write?_standard, if_neg (by omega)]
  read_node {above} h := by
    have hlevels : above < Decoder.maxNesting := h
    obtain ⟨n, hn⟩ : ∃ n, Decoder.maxNesting - above = n + 1 :=
      ⟨Decoder.maxNesting - above - 1, by omega⟩
    have hrest : Decoder.maxNesting - (above + 1) = n := by omega
    simp only [standard, hn, hrest, Tree.decodeWithin]
  read_deep {above} t h := by
    have hlevels : Decoder.maxNesting - above = 0 := Nat.sub_eq_zero_of_le h
    rintro ⟨v, hv⟩
    -- Without a level left, the schema of every kind refuses its fields.
    simp only [standard, hlevels, Tree.decodeWithin] at hv
    obtain ⟨kind, s, hs, fields, hfields⟩ := Tree.exists_gives hv
    obtain ⟨_, -, rfl⟩ := Option.map_eq_some_iff.1 hs
    cases hfields
  writeInfo info := by
    rw [write?_standard, Nat.zero_add]
    show (if info.tree.height ≤ Decoder.maxNesting then _ else none) = _
    split <;> rfl
  readInfo := rfl

namespace Laws

variable {c : Codec} (hc : c.Laws)
include hc

/-- **A tree is written if it is not too high.** -/
theorem write?_eq (above : Nat) (t : Tree) :
    c.write? above t = if above + t.height ≤ c.levels then some t.toJson else none := by
  induction t using Tree.branch_induction generalizing above with
  | node t ih =>
    split
    next hle =>
      have hbelow : ∀ b ∈ t.branches, c.write? (above + 1) b = some b.toJson := by
        intro b hb
        have hlt := Tree.height_lt_of_mem_branches hb
        rw [ih b hb, if_pos (by omega)]
      have hpos := t.height_pos
      rw [hc.write_node (by omega) hbelow, Tree.toJson_eq t]
    next hle =>
      -- Either the node itself is inside too many others, or a tree below it is too high.
      rcases Nat.lt_or_ge above c.levels with habove | hdeep
      · obtain ⟨b, hb, hheight⟩ : ∃ b ∈ t.branches, ¬above + 1 + b.height ≤ c.levels := by
          by_contra hall
          exact hle (Tree.height_le_of_branches habove fun b hb ↦
            not_not.1 fun hb' ↦ hall ⟨b, hb, hb'⟩)
        exact hc.write_branch hb (by rw [ih b hb, if_neg hheight])
      · exact hc.write_deep t hdeep

/-- **A tree that is not too high is read back.** -/
theorem read_toJson {above : Nat} {t : Tree} (h : above + t.height ≤ c.levels) :
    c.read above t.toJson = .ok t := by
  induction t using Tree.branch_induction generalizing above with
  | node t ih =>
    have hpos := t.height_pos
    rw [hc.read_node (by omega), Tree.toJson_eq]
    refine t.decodeBy_written fun b hb ↦ ih b hb ?_
    have hlt := Tree.height_lt_of_mem_branches hb
    omega

/-- **Nothing is read as a tree that is too high.** -/
theorem height_le {above : Nat} {t : Tree} (h : (c.read above).Gives t) :
    above + t.height ≤ c.levels := by
  induction t using Tree.branch_induction generalizing above with
  | node t ih =>
    rcases Nat.lt_or_ge above c.levels with habove | hdeep
    · obtain ⟨v, hv⟩ := h
      rw [hc.read_node habove] at hv
      obtain ⟨kind, s, hs, hgives⟩ := Tree.exists_gives hv
      exact Tree.height_le_of_branches habove fun b hb ↦ ih b hb (Tree.gives_branch hs hgives b hb)
    · exact absurd h (hc.read_deep t hdeep)

/-- The answer to a look-up is written if its tree is not too high. -/
theorem writeInfo?_eq (info : TypeInfo) : c.writeInfo? info =
    if info.tree.height ≤ c.levels then some (info.written info.tree.toJson) else none := by
  rw [hc.writeInfo, hc.write?_eq, Nat.zero_add]
  split <;> rfl

/-- **The answer to a look-up is read back**, if its tree is not too high. -/
theorem readInfo_written {info : TypeInfo} (h : info.tree.height ≤ c.levels) :
    c.readInfo (info.written info.tree.toJson) = .ok info := by
  obtain ⟨tree, declaration, name, kind⟩ := info
  have htree : c.read 0 tree.toJson = .ok tree := hc.read_toJson (by simpa using h)
  rw [hc.readInfo]
  cases kind with
  | none =>
    exact ((((Schema.reads_required rfl htree).map TypeInfo.mk).seq
      (Schema.reads_required rfl (Decoder.string_str declaration))).seq
      (Schema.reads_required rfl (Decoder.string_str name))).seq
      (Schema.reads_default (by simp [Fields.get?, List.lookup_cons]) none)
  | some kind =>
    exact ((((Schema.reads_required rfl htree).map TypeInfo.mk).seq
      (Schema.reads_required rfl (Decoder.string_str declaration))).seq
      (Schema.reads_required rfl (Decoder.string_str name))).seq
      (Schema.reads_defaulting rfl
        (Decoder.nullable_of_ne_null (v := .str kind) (by simp) (Decoder.string_str kind)) none)

/-- Nothing is read as an answer whose tree is too high. -/
theorem height_le_of_readInfo {info : TypeInfo} (h : c.readInfo.Gives info) :
    info.tree.height ≤ c.levels := by
  rw [hc.readInfo] at h
  obtain ⟨f, kind, hf, -, rfl⟩ := h.of_openRecord.of_seq
  obtain ⟨g, name, hg, -, rfl⟩ := hf.of_seq
  obtain ⟨e, declaration, he, -, rfl⟩ := hg.of_seq
  obtain ⟨tree, htree, rfl⟩ := he.of_map
  have hle := hc.height_le htree.of_required
  rwa [Nat.zero_add] at hle

end Laws

end Codec

end TypeLens
