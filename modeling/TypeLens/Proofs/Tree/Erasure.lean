import TypeLens.Proofs.Tree.Spelling

/-!
# Trees without their display parts

A node may store the display parts it is shown with, and the parts of a tree are made from those
stored below. Stored parts are a cache: `Tree.erase` drops them all, and a node is *fresh* when what
it stores is what would be made for it after that (`Tree.Fresh`).

* Nothing but the parts of a tree looks at what is stored: erasing leaves the shape, the text and
  everything else alone.
* In a tree of fresh nodes the parts do not depend on what is stored either (`partsIn_erase`). This
  is where optional slots matter. The union shown there is not the one that stores the parts, and
  its parts are made anew from its members.
-/

namespace TypeLens

/-- The label without display parts. -/
def Label.bare (l : Label) : Label :=
  ⟨l.name, none⟩

theorem Label.bare_of_parts_eq_none {l : Label} (h : l.parts = none) : l.bare = l := by
  rw [bare, ← h]

section

variable {α β : Type} (f : α → β)

/-- A property with another type. -/
def Property.map (p : Property α) : Property β :=
  ⟨p.name, p.optional, p.readonly, f p.type⟩

/-- A parameter with another type. -/
def Parameter.map (p : Parameter α) : Parameter β :=
  ⟨p.name, p.optional, p.rest, f p.type⟩

/-- A signature with other types. -/
def Signature.map (s : Signature α) : Signature β :=
  ⟨f s.result, s.parameters.map (Parameter.map f)⟩

theorem Signature.types_map (s : Signature α) : (s.map f).types = s.types.map f := by
  simp [types, map, Parameter.map, Function.comp_def]

end

namespace Tree

/-! ### Erasing -/

mutual

/-- The tree without the display parts stored in it. -/
def erase : Tree → Tree
  | primitive l => primitive l.bare
  | basic l => basic l.bare
  | reference l => reference l.bare
  | union l ms e => union l.bare (eraseAll ms) e
  | intersection l ms => intersection l.bare (eraseAll ms)
  | object l ps e => object l.bare (eraseProperties ps) e
  | array l r t => array l.bare r t.erase
  | tuple l r ts => tuple l.bare r (eraseAll ts)
  | function l ss e => function l.bare (eraseSignatures ss) e
  | promise l t => promise l.bare t.erase
  | enumMember l m => enumMember l.bare m
  | generic l ts => generic l.bare (eraseAll ts)

/-- Several trees without their parts. -/
def eraseAll : List Tree → List Tree
  | [] => []
  | t :: ts => t.erase :: eraseAll ts

/-- The properties of an object without their parts. -/
def eraseProperties : List (Property Tree) → List (Property Tree)
  | [] => []
  | ⟨name, optional, readonly, type⟩ :: ps =>
    ⟨name, optional, readonly, type.erase⟩ :: eraseProperties ps

/-- The signatures of a function without their parts. -/
def eraseSignatures : List (Signature Tree) → List (Signature Tree)
  | [] => []
  | ⟨result, parameters⟩ :: ss => ⟨result.erase, eraseParameters parameters⟩ :: eraseSignatures ss

/-- The parameters of a signature without their parts. -/
def eraseParameters : List (Parameter Tree) → List (Parameter Tree)
  | [] => []
  | ⟨name, optional, rest, type⟩ :: ps => ⟨name, optional, rest, type.erase⟩ :: eraseParameters ps

end

theorem eraseAll_eq_map (ts : List Tree) : eraseAll ts = ts.map erase := by
  induction ts with
  | nil => rw [eraseAll, List.map_nil]
  | cons t ts ih => rw [eraseAll, ih, List.map_cons]

theorem eraseProperties_eq_map (ps : List (Property Tree)) :
    eraseProperties ps = ps.map (Property.map erase) := by
  induction ps with
  | nil => rw [eraseProperties, List.map_nil]
  | cons p ps ih => rw [eraseProperties, ih, List.map_cons, Property.map]

theorem eraseParameters_eq_map (ps : List (Parameter Tree)) :
    eraseParameters ps = ps.map (Parameter.map erase) := by
  induction ps with
  | nil => rw [eraseParameters, List.map_nil]
  | cons p ps ih => rw [eraseParameters, ih, List.map_cons, Parameter.map]

theorem eraseSignatures_eq_map (ss : List (Signature Tree)) :
    eraseSignatures ss = ss.map (Signature.map erase) := by
  induction ss with
  | nil => rw [eraseSignatures, List.map_nil]
  | cons s ss ih =>
    rw [eraseSignatures, ih, eraseParameters_eq_map, List.map_cons, Signature.map]

/-! ### What erasing leaves alone -/

@[simp]
theorem label_erase (t : Tree) : t.erase.label = t.label.bare := by
  cases t <;> rfl

@[simp]
theorem name_erase (t : Tree) : t.erase.name = t.name := by
  rw [name, label_erase]
  rfl

@[simp]
theorem isLeaf_erase (t : Tree) : t.erase.isLeaf = t.isLeaf := by
  cases t <;> rfl

@[simp]
theorem bindsLoosely_erase (t : Tree) : t.erase.bindsLoosely = t.bindsLoosely := by
  cases t <;> rfl

@[simp]
theorem isArrow_erase (t : Tree) : t.erase.isArrow = t.isArrow := by
  cases t with
  | function l ss e =>
    match ss with
    | [] | [_] | _ :: _ :: _ => rfl
  | _ => rfl

/-- A leaf that stores no display parts is erased already. -/
theorem erase_of_isLeaf {t : Tree} (ht : t.isLeaf = true) (h : t.label.parts = none) :
    t.erase = t := by
  cases t with
  | primitive l => exact congrArg primitive (Label.bare_of_parts_eq_none h)
  | basic l => exact congrArg basic (Label.bare_of_parts_eq_none h)
  | reference l => exact congrArg reference (Label.bare_of_parts_eq_none h)
  | _ => cases ht

@[simp]
theorem erase_setLabel (l : Label) (t : Tree) : (t.setLabel l).erase = t.erase.setLabel l.bare := by
  cases t <;> rfl

/-- Whatever parts are stored, they are erased. -/
@[simp]
theorem erase_setParts (parts : Option (List Part)) (t : Tree) :
    (t.setParts parts).erase = t.erase := by
  have hlabel : Label.bare ⟨t.name, parts⟩ = t.erase.label := by
    rw [label_erase]
    rfl
  rw [setParts, erase_setLabel, hlabel, setLabel_label]

/-- Erasing a node erases the nodes below it. -/
@[simp]
theorem branches_erase (t : Tree) : t.erase.branches = t.branches.map erase := by
  cases t with
  | primitive | basic | reference | enumMember | array | promise => rfl
  | union | intersection | tuple | generic => simp [erase, branches, eraseAll_eq_map]
  | object => simp [erase, branches, eraseProperties_eq_map, Property.map, Function.comp_def]
  | function =>
    simp [erase, branches, eraseSignatures_eq_map, List.flatMap_map, List.map_flatMap,
      Signature.types_map]

/-- A property of the erased nodes, node by node. -/
theorem everywhere_erase {P : Tree → Prop} (t : Tree) :
    t.erase.Everywhere P ↔ t.Everywhere fun u ↦ P u.erase := by
  induction t using branch_induction with
  | node t ih =>
    rw [everywhere_iff, everywhere_iff (t := t), branches_erase, List.forall_mem_map]
    exact and_congr_right fun _ ↦ forall₂_congr ih

/-- Nothing is stored in an erased tree. -/
theorem everywhere_parts_erase (t : Tree) : t.erase.Everywhere (·.label.parts = none) := by
  rw [everywhere_erase]
  intro above u _
  rw [label_erase]
  rfl

/-- Erasing leaves the number of entries. -/
theorem entries_erase (t : Tree) : t.erase.entries = t.entries := by
  induction t using branch_induction with
  | node t ih =>
    have hown : t.erase.ownEntries = t.ownEntries := by
      cases t with
      | object => simp [erase, ownEntries, eraseProperties_eq_map]
      | _ => rfl
    rw [entries_eq, entries_eq t, hown, branches_erase, List.map_map]
    exact congrArg (fun entries : List Nat ↦ t.ownEntries + entries.sum) (List.map_congr_left ih)

/-! ### The text of an erased tree

Text is made of names, flags and the texts of the pieces, level by level as erasing is. -/

mutual

/-- **Erasing leaves the text**, in every slot. -/
theorem textIn_erase (optional : Bool) : ∀ t : Tree, t.erase.textIn optional = t.textIn optional
  | primitive _ | basic _ | reference _ | enumMember .. => rfl
  | union _ ms _ => by rw [erase, textIn, textIn, operands_eraseAll ms]
  | intersection _ ms => by rw [erase, textIn, textIn, segments_eraseAll ms]
  | object _ ps _ => by rw [erase, textIn, textIn, propertyTexts_eraseProperties ps]
  | array _ _ t => by rw [erase, textIn, textIn, bindsLoosely_erase, textIn_erase false t]
  | tuple _ _ ts => by rw [erase, textIn, textIn, texts_eraseAll ts]
  | function _ ss _ => by rw [erase, textIn, textIn, signatureTexts_eraseSignatures ss]; rfl
  | promise _ t => by rw [erase, textIn, textIn, textIn_erase false t]
  | generic _ ts => by rw [erase, textIn, textIn, texts_eraseAll ts]; rfl

theorem texts_eraseAll : ∀ ts : List Tree, texts (eraseAll ts) = texts ts
  | [] => rfl
  | t :: ts => by rw [eraseAll, texts, texts, textIn_erase false t, texts_eraseAll ts]

theorem operands_eraseAll : ∀ ts : List Tree, operands (eraseAll ts) = operands ts
  | [] => rfl
  | t :: ts => by
    rw [eraseAll, operands, operands, textIn_erase false t, operands_eraseAll ts, name_erase,
      isArrow_erase]

theorem segments_eraseAll : ∀ ts : List Tree, segments (eraseAll ts) = segments ts
  | [] => rfl
  | t :: ts => by
    have hts := segments_eraseAll ts
    have ht := textIn_erase false t
    have hname := name_erase t
    have harrow := isArrow_erase t
    cases t with
    | object _ ps _ =>
      rw [eraseAll, erase, segments, segments, propertyTexts_eraseProperties ps, hts]
    | _ =>
      rw [erase] at ht hname harrow
      simp only [eraseAll, erase, segments, ht, hname, harrow, hts]

theorem propertyTexts_eraseProperties :
    ∀ ps : List (Property Tree), propertyTexts (eraseProperties ps) = propertyTexts ps
  | [] => rfl
  | ⟨_, optional, _, type⟩ :: ps => by
    rw [eraseProperties, propertyTexts, propertyTexts, propertyTextOf, propertyTextOf,
      textIn_erase optional type, propertyTexts_eraseProperties ps]

theorem signatureTexts_eraseSignatures :
    ∀ ss : List (Signature Tree), signatureTexts (eraseSignatures ss) = signatureTexts ss
  | [] => rfl
  | ⟨result, parameters⟩ :: ss => by
    rw [eraseSignatures, signatureTexts, signatureTexts, signatureTextOf, signatureTextOf,
      textIn_erase false result, parameterTexts_eraseParameters parameters,
      signatureTexts_eraseSignatures ss]

theorem parameterTexts_eraseParameters :
    ∀ ps : List (Parameter Tree), parameterTexts (eraseParameters ps) = parameterTexts ps
  | [] => rfl
  | ⟨_, optional, _, type⟩ :: ps => by
    rw [eraseParameters, parameterTexts, parameterTexts, parameterTextOf, parameterTextOf,
      textIn_erase optional type, parameterTexts_eraseParameters ps]

end

@[simp]
theorem text_erase (t : Tree) : t.erase.text = t.text :=
  textIn_erase false t

/-! ### The parts of an erased tree -/

/-- What a node stores is what is made for it when nothing is stored in the tree. -/
def Fresh (t : Tree) : Prop :=
  ∀ parts, t.label.parts = some parts → parts = t.erase.builtParts

/-- The parts of a tree do not depend on what is stored in it, in a slot of either kind and as a
member of an intersection. -/
structure Uncached (t : Tree) : Prop where
  slot : ∀ optional, t.erase.partsIn optional = t.partsIn optional
  segment : t.erase.segmentPart = t.segmentPart

theorem builtParts_erase (t : Tree) : t.erase.builtParts = t.erase.partsIn false :=
  builtParts_of_parts_eq_none (everywhere_parts_erase t).root

/-- A fresh node shows what is made for it. -/
theorem Fresh.shown {t : Tree} (h : t.Fresh) {built : List Part}
    (hbuilt : t.erase.partsIn false = built) : t.label.shown built = built := by
  unfold Label.shown
  split
  · next p ps hstored => rw [h _ hstored, builtParts_erase, hbuilt]
  · rfl

/-- A tree that is no object is a member of an intersection as it is one of a union. -/
theorem Uncached.of_slot {t : Tree} (ht : t.isObject = false)
    (h : ∀ optional, t.erase.partsIn optional = t.partsIn optional) : t.Uncached := by
  refine ⟨h, ?_⟩
  have hoperand : t.erase.operandPart = t.operandPart := by
    rw [operandPart, operandPart, name_erase, isLeaf_erase, isArrow_erase, h]
  cases t with
  | object => cases ht
  | _ => exact congrArg (fun o : OperandParts ↦ SegmentParts.parts o.closed) hoperand

/-! Pieces whose trees show what is made for them. -/

/-- The operands of a union or an intersection have the same parts when they are erased, if theirs
are not cached. -/
theorem operandParts_eraseAll {ts : List Tree} (h : ∀ c ∈ ts, c.Uncached) :
    operandParts (eraseAll ts) = operandParts ts := by
  rw [eraseAll_eq_map, operandParts_eq_map, operandParts_eq_map, List.map_map]
  refine List.map_congr_left fun c hc ↦ ?_
  rw [Function.comp_apply, operandPart, operandPart, name_erase, isLeaf_erase, isArrow_erase,
    (h c hc).slot]

theorem segmentParts_eraseAll {ts : List Tree} (h : ∀ c ∈ ts, c.Uncached) :
    segmentParts (eraseAll ts) = segmentParts ts := by
  rw [eraseAll_eq_map, segmentParts_eq_map, segmentParts_eq_map, List.map_map]
  exact List.map_congr_left fun c hc ↦ (h c hc).segment

theorem partLists_eraseAll {ts : List Tree} (h : ∀ c ∈ ts, c.Uncached) :
    partLists (eraseAll ts) = partLists ts := by
  rw [eraseAll_eq_map, partLists_eq_map, partLists_eq_map, List.map_map]
  exact List.map_congr_left fun c hc ↦ (h c hc).slot false

theorem propertyEntries_eraseProperties {ps : List (Property Tree)}
    (h : ∀ p ∈ ps, p.type.Uncached) :
    propertyEntries (eraseProperties ps) = propertyEntries ps := by
  rw [eraseProperties_eq_map, propertyEntries_eq_map, propertyEntries_eq_map, List.map_map]
  refine List.map_congr_left fun p hp ↦ ?_
  rw [Function.comp_apply, propertyEntry, propertyEntry, Property.map, (h p hp).slot]

/-- Signatures have the same parts when they are erased, if those of their types are not cached. -/
theorem signatureParts_eraseSignatures {ss : List (Signature Tree)}
    (h : ∀ s ∈ ss, ∀ c ∈ s.types, c.Uncached) :
    signatureParts (eraseSignatures ss) = signatureParts ss := by
  rw [eraseSignatures_eq_map, signatureParts_eq_map, signatureParts_eq_map, List.map_map]
  refine List.map_congr_left fun s hs ↦ ?_
  have hparameters : parameterEntries (s.parameters.map (Parameter.map erase)) =
      parameterEntries s.parameters := by
    rw [parameterEntries_eq_map, parameterEntries_eq_map, List.map_map]
    refine List.map_congr_left fun p hp ↦ ?_
    have htype := h s hs p.type (List.mem_cons_of_mem _ (List.mem_map_of_mem hp))
    rw [Function.comp_apply, parameterEntry, parameterEntry, Parameter.map, htype.slot]
  rw [Function.comp_apply, signatureEntry, signatureEntry, Signature.map, hparameters,
    (h s hs s.result List.mem_cons_self).slot]

/-- Only where a union keeps its members does it matter what is stored with it. -/
theorem slotUnionParts_congr {l l' : Label} {os : List OperandParts} {excess : Int}
    (h : l.shown (unionParts os excess) = l'.shown (unionParts os excess)) (optional : Bool) :
    slotUnionParts optional l os excess = slotUnionParts optional l' os excess := by
  simp only [slotUnionParts, h]

/-- **The step.** A fresh node shows what is made for it, when the trees directly below do. -/
theorem Uncached.of_branches {t : Tree} (hfresh : t.Fresh) (h : ∀ c ∈ t.branches, c.Uncached) :
    t.Uncached := by
  have hshown : ∀ l built, t.label = l → t.erase.partsIn false = built →
      l.bare.shown built = l.shown built := by
    rintro l built rfl hbuilt
    rw [hfresh.shown hbuilt]
    rfl
  -- In each case the pieces have the same parts once erased, so both labels are shown the same.
  cases t with
  | primitive l | basic l | reference l | enumMember l m =>
    exact .of_slot rfl fun optional ↦ hshown l _ rfl rfl
  | union l ms e =>
    refine .of_slot rfl fun optional ↦ ?_
    have hmembers : operandParts (eraseAll ms) = operandParts ms := operandParts_eraseAll h
    rw [erase, partsIn, partsIn, ← hmembers]
    exact slotUnionParts_congr (hshown l _ rfl rfl) optional
  | intersection l ms =>
    refine .of_slot rfl fun optional ↦ ?_
    have hmembers : segmentParts (eraseAll ms) = segmentParts ms := segmentParts_eraseAll h
    rw [erase, partsIn, partsIn, ← hmembers]
    exact hshown l _ rfl rfl
  | object l ps e =>
    have hentries : propertyEntries (eraseProperties ps) = propertyEntries ps :=
      propertyEntries_eraseProperties fun p hp ↦ h p.type (List.mem_map_of_mem hp)
    refine ⟨fun optional ↦ ?_, by rw [erase, segmentPart, segmentPart, hentries]⟩
    rw [erase, partsIn, partsIn, ← hentries]
    exact hshown l _ rfl rfl
  | array l r c =>
    refine .of_slot rfl fun optional ↦ ?_
    rw [erase, partsIn, partsIn, ← (h c List.mem_cons_self).slot, ← bindsLoosely_erase c]
    exact hshown l _ rfl rfl
  | tuple l r ts | generic l ts =>
    refine .of_slot rfl fun optional ↦ ?_
    have hpieces : partLists (eraseAll ts) = partLists ts := partLists_eraseAll h
    rw [erase, partsIn, partsIn, ← hpieces]
    exact hshown l _ rfl rfl
  | function l ss e =>
    refine .of_slot rfl fun optional ↦ ?_
    have hsignatures : signatureParts (eraseSignatures ss) = signatureParts ss :=
      signatureParts_eraseSignatures fun s hs c hc ↦ h c (List.mem_flatMap.2 ⟨s, hs, hc⟩)
    rw [erase, partsIn, partsIn, ← hsignatures]
    exact hshown l _ rfl rfl
  | promise l c =>
    refine .of_slot rfl fun optional ↦ ?_
    rw [erase, partsIn, partsIn, ← (h c List.mem_cons_self).slot]
    exact hshown l _ rfl rfl

/-- **The run.** In a tree of fresh nodes the parts do not depend on what is stored. -/
theorem uncached_of_everywhere (t : Tree) (h : t.Everywhere Fresh) : t.Uncached := by
  induction t using branch_induction with
  | node t ih => exact .of_branches h.root fun c hc ↦ ih c hc (h.branch hc)

end Tree

end TypeLens
