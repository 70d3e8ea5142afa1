import Mathlib.Data.List.Forall2
import TypeLens.Proofs.Tree.Shape
import TypeLens.Tree.Parts
import TypeLens.Tree.Text

/-!
# Display parts spell the text

A tree is rendered twice, as plain text and as display parts, by two families of functions that
share nothing but the order in which they visit the tree. Here they are joined: put together, the
texts of the parts are the text (`textOf_builtParts`).

The join is made form by form. For each function that writes a form on the pieces of a node there is
one lemma which says that it spells what its counterpart writes, given pieces that do; the induction
over the tree only collects them. Three forms are not written alike.

* Plain text folds `true | false` by what the members of a union read; parts fold it by what the
  members are. They agree when only a leaf reads as a truth value.
* An entry of an object ends with a space in parts, while in plain text spaces stand between
  entries. An intersection takes the entries of its objects, so what is carried through the
  induction is about entries as well as about whole trees (`Tree.Spelled`).
* An optional slot shows a union without some members, and then neither folds over the others.
-/

namespace TypeLens

/-! ### The text of parts -/

namespace Part

@[simp]
theorem textOf_nil : textOf [] = "" := by
  simp [textOf]

@[simp]
theorem textOf_cons (p : Part) (ps : List Part) : textOf (p :: ps) = p.text ++ textOf ps := by
  simp [textOf]

@[simp]
theorem textOf_append (ps qs : List Part) : textOf (ps ++ qs) = textOf ps ++ textOf qs := by
  simp [textOf]

/-- Groups of parts spell the texts of the groups in a row. -/
theorem textOf_flatten (groups : List (List Part)) :
    textOf groups.flatten = "".intercalate (groups.map textOf) := by
  induction groups with
  | nil => simp
  | cons group groups ih =>
    cases groups with
    | nil => simp
    | cons group' groups =>
      rw [List.flatten_cons, textOf_append, ih]
      simp

@[simp]
theorem text_punctuation (s : String) : (punctuation s).text = s := rfl

@[simp]
theorem text_keyword (s : String) : (keyword s).text = s := rfl

@[simp]
theorem text_operator (s : String) : (operator s).text = s := rfl

@[simp]
theorem text_plain (s : String) : (plain s).text = s := rfl

@[simp]
theorem text_space : space.text = " " := rfl

end Part

open TypeLens.Part

/-- Groups with a separator spell their texts with the separator's between them. -/
@[simp]
theorem textOf_interleave (separator : List Part) (groups : List (List Part)) :
    textOf (interleave separator groups) = (textOf separator).intercalate (groups.map textOf) := by
  induction groups with
  | nil => simp [interleave]
  | cons group groups ih =>
    cases groups with
    | nil => simp [interleave]
    | cons group' groups => simp [interleave, ih, String.append_assoc]

/-- Ending each text and joining them is joining them by the end and ending the whole. -/
theorem intercalate_map_append (separator stop : String) {texts : List String} (h : texts ≠ []) :
    separator.intercalate (texts.map (· ++ stop)) =
      (stop ++ separator).intercalate texts ++ stop := by
  induction texts with
  | nil => exact absurd rfl h
  | cons text texts ih =>
    cases texts with
    | nil => simp
    | cons text' texts =>
      have hrest := ih (List.cons_ne_nil _ _)
      simp only [List.map_cons] at hrest
      simp [hrest, String.append_assoc]

/-! ### Words -/

@[simp]
theorem textOf_commaParts : textOf commaParts = ", " := by
  simp [commaParts]

@[simp]
theorem textOf_colonParts : textOf colonParts = ": " := by
  simp [colonParts]

@[simp]
theorem textOf_moreParts (count : Int) : textOf (moreParts count) = moreText count := by
  simp [moreParts, moreText, ← String.append_assoc]

@[simp]
theorem textOf_readonlyParts (readonly : Bool) :
    textOf (readonlyParts readonly) = readonlyText readonly := by
  cases readonly <;> simp [readonlyParts, readonlyText]

@[simp]
theorem textOf_optionalParts (optional : Bool) :
    textOf (optionalParts optional) = optionalText optional := by
  cases optional <;> simp [optionalParts, optionalText]

/-! ### Unions -/

/-- The operand that the parts of an operand spell. -/
def OperandParts.spelled (o : OperandParts) : Operand :=
  ⟨o.name, o.arrow, textOf o.parts⟩

@[simp]
theorem textOf_closed (o : OperandParts) : textOf o.closed = o.spelled.closed := by
  unfold OperandParts.closed Operand.closed
  cases h : o.arrow <;> simp [OperandParts.spelled, h, String.append_assoc]

/-- An operand reads as a truth value only if it is that literal. -/
def OperandParts.ReadsAsIs (o : OperandParts) : Prop :=
  ∀ word, word = "true" ∨ word = "false" → (o.isLiteral word = true ↔ o.spelled.closed = word)

/-- Cutting a list by two conditions that agree on it. -/
private theorem span_congr {α : Type} {p q : α → Bool} {xs : List α} (h : ∀ x ∈ xs, p x = q x) :
    xs.takeWhile p = xs.takeWhile q ∧ xs.dropWhile p = xs.dropWhile q := by
  induction xs with
  | nil => exact ⟨rfl, rfl⟩
  | cons x xs ih =>
    obtain ⟨htake, hdrop⟩ := ih fun y hy ↦ h y (List.mem_cons_of_mem x hy)
    have hx := h x List.mem_cons_self
    simp only [List.takeWhile_cons, List.dropWhile_cons, hx, htake, hdrop, and_self]

/-- **Folding truth values.** Where operands read as they are, folding them by what they are spells
what is folded by what they read. -/
theorem map_textOf_foldTruths {os : List OperandParts} (h : ∀ o ∈ os, o.ReadsAsIs) :
    (foldTruths os).map textOf = foldBooleans (os.map fun o ↦ o.spelled.closed) := by
  have hany : ∀ word, word = "true" ∨ word = "false" →
      (os.any (·.isLiteral word) = true ↔ word ∈ os.map fun o ↦ o.spelled.closed) := by
    intro word hword
    rw [List.any_eq_true, List.mem_map]
    exact exists_congr fun o ↦ and_congr_right fun ho ↦ h o ho word hword
  have hother : ∀ o ∈ os, (!o.isTruth) =
      (o.spelled.closed != "true" && o.spelled.closed != "false") := by
    intro o ho
    have htrue := h o ho "true" (.inl rfl)
    have hfalse := h o ho "false" (.inr rfl)
    rw [Bool.eq_iff_iff]
    simp [OperandParts.isTruth, ← Bool.not_eq_true, htrue, hfalse]
  obtain ⟨htake, hdrop⟩ := span_congr hother
  have hfilter : ∀ o ∈ os.dropWhile fun o ↦ !o.isTruth, (!o.isTruth) =
      (o.spelled.closed != "true" && o.spelled.closed != "false") := fun o ho ↦
    hother o ((List.dropWhile_sublist _).subset ho)
  unfold foldTruths foldBooleans
  simp only [Bool.and_eq_true, hany "true" (.inl rfl), hany "false" (.inr rfl)]
  split
  · rw [List.filter_congr hfilter, htake, hdrop, List.takeWhile_map, List.dropWhile_map,
      List.filter_map]
    simp [Function.comp_def]
  · simp [Function.comp_def]

/-- The parts of a union spell the union, if the operands read as they are. -/
theorem textOf_unionParts {os : List OperandParts} (h : ∀ o ∈ os, o.ReadsAsIs) (excess : Int) :
    textOf (unionParts os excess) = unionText (os.map fun o ↦ o.spelled.closed) excess := by
  have hmore : (if 0 < excess then [moreParts excess] else []).map textOf =
      if 0 < excess then [moreText excess] else [] := by
    split <;> simp
  rw [unionParts, unionText, textOf_interleave, List.map_append, map_textOf_foldTruths h, hmore]
  simp

/-- Parts that are made when a node stores none. -/
theorem Label.shown_of_parts_eq_none {l : Label} (h : l.parts = none) (built : List Part) :
    l.shown built = built := by
  simp [shown, h]

/-- A union in a slot of either kind. -/
theorem textOf_slotUnionParts {l : Label} (hl : l.parts = none) {os : List OperandParts}
    (h : ∀ o ∈ os, o.ReadsAsIs) (optional : Bool) (excess : Int) :
    textOf (slotUnionParts optional l os excess) =
      slotUnionText optional (os.map OperandParts.spelled) excess := by
  have hkept : (os.map OperandParts.spelled).filter (fun o ↦ o.name != "undefined") =
      (os.filter fun o ↦ o.name != "undefined").map OperandParts.spelled := by
    rw [List.filter_map]
    rfl
  have hsub : ∀ o ∈ os.filter (fun o ↦ o.name != "undefined"), o.ReadsAsIs := fun o ho ↦
    h o (List.mem_filter.1 ho).1
  unfold slotUnionParts slotUnionText
  simp only [hkept, List.length_map, List.isEmpty_map, Label.shown_of_parts_eq_none hl]
  generalize os.filter (fun o ↦ o.name != "undefined") = kept at hsub ⊢
  split
  · rw [textOf_unionParts h, List.map_map]
    rfl
  · -- Some members are left out. A single one that is left stands for itself.
    match kept, hsub with
    | [], _ => simp [textOf_unionParts]
    | [o], hsub =>
      simp only [List.map_cons, List.map_nil]
      split
      · rfl
      · rw [textOf_unionParts hsub]
        rfl
    | o :: o' :: kept, hsub =>
      simp only [List.map_cons]
      rw [textOf_unionParts hsub]
      simp [Function.comp_def]

/-! ### Objects and intersections -/

/-- The entries of an object spell lines: each line, and a space behind it. -/
def SpellLines (entries : List (List Part)) (lines : List String) : Prop :=
  entries.map textOf = lines.map (· ++ " ")

theorem textOf_propertyParts (name : String) (optional readonly : Bool) (type : List Part) :
    textOf (propertyParts name optional readonly type) =
      propertyText name optional readonly (textOf type) ++ " " := by
  simp [propertyParts, propertyText, propertyName, String.append_assoc]

/-- Lines between braces. -/
theorem textOf_flatten_of_spellLines {entries : List (List Part)} {lines : List String}
    (h : SpellLines entries lines) (hne : lines ≠ []) :
    textOf entries.flatten = " ".intercalate lines ++ " " := by
  rw [textOf_flatten, h, intercalate_map_append "" " " hne, String.append_empty]

/-- An object that does not leave out a negative number of entries. -/
theorem textOf_objectParts {entries : List (List Part)} {lines : List String}
    (h : SpellLines entries lines) {excess : Int} (hexcess : 0 ≤ excess) :
    textOf (objectParts entries excess) = objectText lines excess := by
  have hempty : entries = [] ↔ lines = [] := by
    rw [← List.map_eq_nil_iff (f := textOf), h, List.map_eq_nil_iff]
  by_cases hnone : lines = [] ∧ excess = 0
  · obtain ⟨rfl, rfl⟩ := hnone
    simp [objectParts, objectText, hempty.2 rfl]
  · -- What is left out counts as one more line.
    set rest : List (List Part) :=
      if 0 < excess then [moreParts excess ++ [.punctuation ";", .space]] else [] with hrest
    set restLines : List String :=
      if 0 < excess then [moreText excess ++ ";"] else [] with hrestLines
    have hall : SpellLines (entries ++ rest) (lines ++ restLines) := by
      have hspell : SpellLines rest restLines := by
        simp only [hrest, hrestLines, SpellLines]
        split <;> simp [String.append_assoc]
      rw [SpellLines, List.map_append, List.map_append, h, hspell]
    have hne : lines ++ restLines ≠ [] := by
      intro hnil
      obtain ⟨hlines, hno⟩ := List.append_eq_nil_iff.1 hnil
      have hpos : 0 < excess := by
        have : excess ≠ 0 := fun hzero ↦ hnone ⟨hlines, hzero⟩
        omega
      simp [hrestLines, hpos] at hno
    have hflat : (if 0 < excess then moreParts excess ++ [.punctuation ";", .space] else []) =
        rest.flatten := by
      simp only [hrest]
      split <;> simp
    have hparts : objectParts entries excess =
        .punctuation "\x7b" :: .space :: (entries ++ rest).flatten ++ [.punctuation "\x7d"] := by
      rw [objectParts, if_neg (by simpa [hempty] using hnone), hflat]
      simp
    have htext : objectText lines excess =
        "\x7b " ++ " ".intercalate (lines ++ restLines) ++ " \x7d" := by
      rw [objectText, ← hrestLines]
      split
      · next hnil => exact absurd hnil hne
      · rfl
    rw [hparts, htext, List.cons_append, List.cons_append, textOf_cons, textOf_cons, textOf_append,
      textOf_flatten_of_spellLines hall hne]
    simp [← String.toList_inj]

/-- The parts of a segment spell a segment of text. -/
inductive SegmentParts.Spells : SegmentParts → Segment → Prop
  | entries {es : List (List Part)} {lines : List String} (h : SpellLines es lines) {excess : Int}
    (hexcess : 0 ≤ excess) : Spells (.entries es excess) (.entries lines excess)
  | parts (ps : List Part) : Spells (.parts ps) (.text (textOf ps))

section

variable {ps : List SegmentParts} {ss : List Segment}

/-- The objects of an intersection spell the lines of the merged one. -/
theorem spellLines_flatMap_lines (h : List.Forall₂ SegmentParts.Spells ps ss) :
    SpellLines (ps.flatMap SegmentParts.lines) (ss.flatMap Segment.lines) := by
  induction h with
  | nil => rfl
  | cons hhead _ ih =>
    rw [SpellLines, List.flatMap_cons, List.flatMap_cons, List.map_append, List.map_append, ih]
    cases hhead with
    | entries hes => rw [SegmentParts.lines, Segment.lines, hes]
    | parts => rfl

/-- What the objects of an intersection leave out adds up. -/
theorem hidden_eq_and_nonneg (h : List.Forall₂ SegmentParts.Spells ps ss) :
    ps.foldr (fun s n ↦ s.hidden + n) 0 = ss.foldr (fun s n ↦ s.hidden + n) 0 ∧
      0 ≤ ps.foldr (fun s n ↦ s.hidden + n) 0 := by
  induction h with
  | nil => exact ⟨rfl, Int.le_refl 0⟩
  | cons hhead _ ih =>
    obtain ⟨heq, hnonneg⟩ := ih
    rw [List.foldr_cons, List.foldr_cons, heq]
    cases hhead with
    | entries _ hexcess =>
      exact ⟨rfl, by simp only [SegmentParts.hidden]; omega⟩
    | parts => exact ⟨rfl, by simp only [SegmentParts.hidden]; omega⟩

/-- The other members of an intersection spell their texts. -/
theorem map_textOf_filterMap_parts? (h : List.Forall₂ SegmentParts.Spells ps ss) :
    (ps.filterMap SegmentParts.parts?).map textOf = ss.filterMap Segment.text? := by
  induction h with
  | nil => rfl
  | cons hhead _ ih =>
    cases hhead with
    | entries => exact ih
    | parts => simp [SegmentParts.parts?, Segment.text?, ih]

/-- The merged object takes the same place in the parts as in the text. -/
theorem map_textOf_placeMergedParts (merged : List Part)
    (h : List.Forall₂ SegmentParts.Spells ps ss) :
    (placeMergedParts merged ps).map textOf = placeMerged (textOf merged) ss := by
  induction h with
  | nil => rfl
  | cons hhead htail ih =>
    cases hhead with
    | entries => simp [placeMergedParts, placeMerged, map_textOf_filterMap_parts? htail]
    | parts => simp [placeMergedParts, placeMerged, ih]

/-- An intersection: its objects are merged alike. -/
theorem textOf_intersectionParts (h : List.Forall₂ SegmentParts.Spells ps ss) :
    textOf (intersectionParts ps) = intersectionText ss := by
  obtain ⟨hhidden, hnonneg⟩ := hidden_eq_and_nonneg h
  rw [intersectionParts, intersectionText, textOf_interleave, map_textOf_placeMergedParts _ h,
    textOf_objectParts (spellLines_flatMap_lines h) hnonneg, hhidden]
  simp

end

/-! ### Functions and the other forms -/

/-- The signature that the parts of a signature spell. -/
def SignatureParts.spelled (s : SignatureParts) : SignatureText :=
  ⟨", ".intercalate (s.parameters.map textOf), textOf s.result⟩

theorem textOf_parameterParts (name : String) (optional rest : Bool) (type : List Part) :
    textOf (parameterParts name optional rest type) =
      parameterText name optional rest (textOf type) := by
  cases rest <;> simp [parameterParts, parameterText, parameterName, String.append_assoc]

theorem textOf_shown (arrow : Bool) (s : SignatureParts) :
    textOf (s.shown arrow) = if arrow then s.spelled.arrow else s.spelled.colon := by
  cases arrow <;>
    simp [SignatureParts.shown, SignatureParts.spelled, SignatureText.arrow, SignatureText.colon,
      ← String.toList_inj]

/-- A function: one signature with an arrow, or several in braces. -/
theorem textOf_functionParts (name : String) (ss : List SignatureParts) (excess : Int) :
    textOf (functionParts name ss excess) =
      functionText true name (ss.map SignatureParts.spelled) excess := by
  have hseveral : ss ≠ [] → textOf (.punctuation "\x7b" ::
        interleave [.space] (ss.map fun s ↦ s.shown false ++ [.punctuation ";"]) ++
        (if 0 < excess then .space :: moreParts excess ++ [.punctuation ";"] else []) ++
        [.punctuation "\x7d"]) =
      "\x7b" ++ "; ".intercalate ((ss.map SignatureParts.spelled).map SignatureText.colon) ++ ";" ++
        (if 0 < excess then " " ++ moreText excess ++ ";" else "") ++ "\x7d" := by
    intro hne
    -- Each signature ends with a semicolon; in plain text the semicolons separate them.
    have hbody : textOf (interleave [.space] (ss.map fun s ↦ s.shown false ++ [.punctuation ";"])) =
        "; ".intercalate ((ss.map SignatureParts.spelled).map SignatureText.colon) ++ ";" := by
      have htexts : (ss.map SignatureParts.spelled).map SignatureText.colon ≠ [] := by
        simpa using hne
      have hjoin := intercalate_map_append " " ";" htexts
      rw [textOf_interleave]
      simpa [textOf_shown, Function.comp_def] using hjoin
    have hmore : textOf (if 0 < excess then .space :: moreParts excess ++ [.punctuation ";"]
        else []) = if 0 < excess then " " ++ moreText excess ++ ";" else "" := by
      split <;> simp [String.append_assoc]
    rw [textOf_append, textOf_append, textOf_cons, hbody, hmore]
    simp [String.append_assoc]
  match ss, hseveral with
  | [], _ => simp [functionParts, functionText]
  | [s], hseveral =>
    simp only [functionParts, functionText, List.map_cons, List.map_nil]
    split
    · simp [textOf_shown]
    · exact hseveral (List.cons_ne_nil _ _)
  | s :: s' :: ss, hseveral =>
    simp only [functionParts, functionText, List.map_cons]
    exact hseveral (List.cons_ne_nil _ _)

theorem textOf_arrayParts (readonly loose : Bool) (element : List Part) :
    textOf (arrayParts readonly loose element) = arrayText readonly loose (textOf element) := by
  cases loose <;> simp [arrayParts, arrayText, String.append_assoc]

/-- The parts of a reference spell its name and its arguments. -/
theorem textOf_referenceParts (name : String) {arguments : List (List Part)} (h : arguments ≠ []) :
    textOf (referenceParts name arguments) =
      name ++ "<" ++ ", ".intercalate (arguments.map textOf) ++ ">" := by
  have hname : (if isKeyword name then keyword name else plain name).text = name := by
    split <;> rfl
  simp [referenceParts, h, hname, String.append_assoc]

/-- An enum member whose text is not a dot and a name without a dot. -/
theorem textOf_enumMemberParts {member : String}
    (h : ¬∃ own : String, member = "." ++ own ∧ '.' ∉ own.toList) :
    textOf (enumMemberParts member) = member := by
  unfold enumMemberParts
  split
  · simp [Part.enumMember]
  · next own hcut =>
    obtain ⟨hmember, hown⟩ := Text.of_cutLast?_singleton hcut
    exact absurd ⟨.ofList own, by simp [← String.toList_inj, hmember], by simpa using hown⟩ h
  · next enum own _ hcut =>
    obtain ⟨hmember, -⟩ := Text.of_cutLast?_singleton hcut
    simp [Part.enumMember, Part.enumName, ← String.toList_inj, hmember]

/-! ### The whole tree -/

namespace Tree

/-- A node whose parts can spell its text: a generic type shows an argument, an object leaves out no
negative number of entries, an enum member is not a dot and a name without a dot, and a member of a
union reads as a truth value only if it is a leaf. -/
def Legible : Tree → Prop
  | union _ ms _ => ∀ m ∈ ms, m.isLeaf = false → m.text ≠ "true" ∧ m.text ≠ "false"
  | object _ _ e => 0 ≤ e
  | enumMember _ m => ¬∃ own : String, m = "." ++ own ∧ '.' ∉ own.toList
  | generic _ ts => ts ≠ []
  | _ => True

/-- The parts of a tree spell its text, in a slot of either kind and as a member of an
intersection. -/
structure Spelled (t : Tree) : Prop where
  slot : ∀ optional, textOf (t.partsIn optional) = t.textIn optional
  segment : t.segmentPart.Spells t.segment

theorem Spelled.operand {t : Tree} (h : t.Spelled) : t.operandPart.spelled = t.operand := by
  rw [OperandParts.spelled, operandPart, h.slot, Tree.operand]

/-- A tree that is no object is a member of an intersection as it is one of a union. -/
theorem Spelled.of_slot {t : Tree} (ht : t.isObject = false)
    (h : ∀ optional, textOf (t.partsIn optional) = t.textIn optional) : t.Spelled := by
  refine ⟨h, ?_⟩
  have hclosed : textOf t.operandPart.closed = t.operand.closed := by
    rw [textOf_closed, OperandParts.spelled, operandPart, h, Tree.operand]
  have hparts := SegmentParts.Spells.parts t.operandPart.closed
  rw [hclosed] at hparts
  cases t with
  | object => cases ht
  | _ => exact hparts

/-- A leaf is written by its name. -/
theorem textIn_of_isLeaf {t : Tree} (h : t.isLeaf = true) (optional : Bool) :
    t.textIn optional = t.name := by
  cases t with
  | primitive | basic | reference => rfl
  | _ => cases h

theorem isArrow_of_isLeaf {t : Tree} (h : t.isLeaf = true) : t.isArrow = false := by
  cases t with
  | primitive | basic | reference => rfl
  | _ => cases h

/-- A member of a union reads as it is, if only leaves read as truth values. -/
theorem readsAsIs_operandPart {t : Tree} (h : t.Spelled)
    (ht : t.isLeaf = false → t.text ≠ "true" ∧ t.text ≠ "false") : t.operandPart.ReadsAsIs := by
  intro word hword
  rw [h.operand]
  rcases hleaf : t.isLeaf with - | -
  · -- Neither the text nor the text in parentheses is a truth value.
    have htext : t.text ≠ word := by
      rcases hword with rfl | rfl
      · exact (ht hleaf).1
      · exact (ht hleaf).2
    have hclosed : t.operand.closed ≠ word := by
      unfold Operand.closed Tree.operand
      split
      · rcases hword with rfl | rfl <;> simp [← String.toList_inj]
      · exact htext
    simp [OperandParts.isLiteral, operandPart, hleaf, hclosed]
  · have hclosed : t.operand.closed = t.name := by
      simp [Operand.closed, Tree.operand, isArrow_of_isLeaf hleaf, textIn_of_isLeaf hleaf]
    simp [OperandParts.isLiteral, operandPart, hleaf, hclosed]

/-! Pieces whose trees are spelled. -/

theorem map_textOf_partLists {ts : List Tree} (h : ∀ c ∈ ts, c.Spelled) :
    (partLists ts).map textOf = texts ts := by
  rw [partLists_eq_map, texts_eq_map, List.map_map]
  exact List.map_congr_left fun c hc ↦ (h c hc).slot false

theorem textOf_propertyEntry {p : Property Tree} (h : p.type.Spelled) :
    textOf (propertyEntry p) = propertyTextOf p ++ " " := by
  rw [propertyEntry, textOf_propertyParts, h.slot, propertyTextOf]

theorem textOf_parameterEntry {p : Parameter Tree} (h : p.type.Spelled) :
    textOf (parameterEntry p) = parameterTextOf p := by
  rw [parameterEntry, textOf_parameterParts, h.slot, parameterTextOf]

/-- A signature spells its text if all its types do. -/
theorem spelled_signatureEntry {s : Signature Tree} (h : ∀ c ∈ s.types, c.Spelled) :
    (signatureEntry s).spelled = signatureTextOf s := by
  have hparameters : (parameterEntries s.parameters).map textOf = parameterTexts s.parameters := by
    rw [parameterEntries_eq_map, parameterTexts_eq_map, List.map_map]
    exact List.map_congr_left fun p hp ↦
      textOf_parameterEntry (h p.type (List.mem_cons_of_mem _ (List.mem_map_of_mem hp)))
  rw [signatureEntry, signatureTextOf, SignatureParts.spelled, hparameters,
    (h s.result List.mem_cons_self).slot]

/-- **The step.** When the parts of the trees directly below a node spell their texts, so do those
of the node, if the node stores none and is legible. -/
theorem Spelled.of_branches {t : Tree} (hparts : t.label.parts = none) (ht : t.Legible)
    (h : ∀ c ∈ t.branches, c.Spelled) : t.Spelled := by
  have hshown : ∀ l, t.label = l → ∀ built, l.shown built = built := by
    rintro l rfl
    exact Label.shown_of_parts_eq_none hparts
  -- Both renderings go by the kind of the node. Each case unfolds them and ends with the lemma for
  -- the kind, which the trees below it satisfy.
  cases t with
  | primitive l | basic l | reference l =>
    refine .of_slot rfl fun optional ↦ ?_
    rw [partsIn, hshown l rfl, textIn]
    simp
  | union l ms e =>
    refine .of_slot rfl fun optional ↦ ?_
    have hl : l.parts = none := hparts
    have hmembers : (ms.map operandPart).map OperandParts.spelled = ms.map Tree.operand := by
      rw [List.map_map]
      exact List.map_congr_left fun m hm ↦ (h m hm).operand
    have hreads : ∀ o ∈ ms.map operandPart, o.ReadsAsIs := by
      intro o ho
      obtain ⟨m, hm, rfl⟩ := List.mem_map.1 ho
      exact readsAsIs_operandPart (h m hm) (ht m hm)
    rw [partsIn, textIn, operandParts_eq_map, operands_eq_map, textOf_slotUnionParts hl hreads,
      hmembers]
  | intersection l ms =>
    refine .of_slot rfl fun optional ↦ ?_
    have hsegments :
        List.Forall₂ SegmentParts.Spells (ms.map segmentPart) (ms.map Tree.segment) := by
      rw [List.forall₂_map_left_iff, List.forall₂_map_right_iff, List.forall₂_same]
      exact fun m hm ↦ (h m hm).segment
    rw [partsIn, hshown l rfl, textIn, segmentParts_eq_map, segments_eq_map,
      textOf_intersectionParts hsegments]
  | object l ps e =>
    have hlines : SpellLines (propertyEntries ps) (propertyTexts ps) := by
      rw [SpellLines, propertyEntries_eq_map, propertyTexts_eq_map, List.map_map, List.map_map]
      exact List.map_congr_left fun p hp ↦ textOf_propertyEntry (h p.type (List.mem_map_of_mem hp))
    refine ⟨fun optional ↦ ?_, .entries hlines ht⟩
    rw [partsIn, hshown l rfl, textIn, textOf_objectParts hlines ht]
  | array l r c =>
    refine .of_slot rfl fun optional ↦ ?_
    rw [partsIn, hshown l rfl, textIn, textOf_arrayParts, (h c List.mem_cons_self).slot]
  | tuple l r ts =>
    refine .of_slot rfl fun optional ↦ ?_
    have htexts : (partLists ts).map textOf = texts ts := map_textOf_partLists h
    rw [partsIn, hshown l rfl, textIn]
    simp [htexts, String.append_assoc]
  | function l ss e =>
    refine .of_slot rfl fun optional ↦ ?_
    have hsignatures : (signatureParts ss).map SignatureParts.spelled = signatureTexts ss := by
      rw [signatureParts_eq_map, signatureTexts_eq_map, List.map_map]
      exact List.map_congr_left fun s hs ↦
        spelled_signatureEntry fun c hc ↦ h c (List.mem_flatMap.2 ⟨s, hs, hc⟩)
    rw [partsIn, hshown l rfl, textIn, textOf_functionParts, hsignatures]
  | promise l c =>
    refine .of_slot rfl fun optional ↦ ?_
    rw [partsIn, hshown l rfl, textIn, textOf_referenceParts _ (List.cons_ne_nil _ _)]
    simp [(h c List.mem_cons_self).slot]
  | enumMember l m =>
    refine .of_slot rfl fun optional ↦ ?_
    rw [partsIn, hshown l rfl, textIn, textOf_enumMemberParts ht]
  | generic l ts =>
    refine .of_slot rfl fun optional ↦ ?_
    have harguments : partLists ts ≠ [] := by
      rw [partLists_eq_map, Ne, List.map_eq_nil_iff]
      exact ht
    have htexts : (partLists ts).map textOf = texts ts := map_textOf_partLists h
    rw [partsIn, hshown l rfl, textIn, textOf_referenceParts _ harguments, htexts]

/-- **The run.** The parts of a tree that stores none spell its text, if every node is legible. -/
theorem spelled_of_everywhere (t : Tree) (hparts : t.Everywhere (·.label.parts = none))
    (h : t.Everywhere Legible) : t.Spelled := by
  induction t using branch_induction with
  | node t ih =>
    exact .of_branches hparts.root h.root fun c hc ↦ ih c hc (hparts.branch hc) (h.branch hc)

theorem setParts_of_parts_eq {t : Tree} {parts : Option (List Part)} (h : t.label.parts = parts) :
    t.setParts parts = t := by
  rw [setParts, name, ← h, setLabel_label]

theorem builtParts_of_parts_eq_none {t : Tree} (h : t.label.parts = none) :
    t.builtParts = t.partsIn false := by
  rw [builtParts, setParts_of_parts_eq h]

/-- **Display parts spell the text.** For a tree that stores no display parts, and in which every
generic type shows an argument, no object leaves out a negative number of entries, no enum member is
a dot followed by a text without a dot, and no member of a union reads as a truth value unless it is
a leaf: the texts of its parts, put together, are its text. -/
theorem textOf_builtParts (t : Tree) (hparts : t.Everywhere (·.label.parts = none))
    (hgeneric : t.Everywhere fun u ↦ ∀ l ts, u = .generic l ts → ts ≠ [])
    (hexcess : t.Everywhere fun u ↦ ∀ l ps e, u = .object l ps e → 0 ≤ e)
    (henum : t.Everywhere fun u ↦ ∀ l m, u = .enumMember l m →
      ¬∃ own : String, m = "." ++ own ∧ '.' ∉ own.toList)
    (hunion : t.Everywhere fun u ↦ ∀ l ms e, u = .union l ms e →
      ∀ m ∈ ms, m.isLeaf = false → m.text ≠ "true" ∧ m.text ≠ "false") :
    textOf t.builtParts = t.text := by
  have hlegible : t.Everywhere Legible := by
    intro above u hu
    cases u with
    | union => exact hunion above _ hu _ _ _ rfl
    | object => exact hexcess above _ hu _ _ _ rfl
    | enumMember => exact henum above _ hu _ _ rfl
    | generic => exact hgeneric above _ hu _ _ rfl
    | _ => trivial
  rw [builtParts_of_parts_eq_none hparts.root]
  exact (spelled_of_everywhere t hparts hlegible).slot false

/-! ### A sample

A switch that may be on or off or neither, with its level, its users and two properties left out. -/

/-- The state of the sample. -/
def sampleState : Tree :=
  .union ⟨"boolean | undefined", none⟩
    [.primitive ⟨"true", none⟩, .primitive ⟨"undefined", none⟩, .primitive ⟨"false", none⟩] 0

/-- The users of the sample. -/
def sampleUsers : Tree :=
  .generic ⟨"Set", none⟩ [.primitive ⟨"string", none⟩]

/-- The sample. -/
def sample : Tree :=
  .object ⟨"Switch", none⟩
    [⟨"on", true, false, sampleState⟩,
      ⟨"level", false, true, .enumMember ⟨"Level.High", none⟩ "Level.High"⟩,
      ⟨"users", false, false, sampleUsers⟩] 2

/-- What holds everywhere in the sample. -/
theorem everywhere_sample {P : Tree → Prop} (hroot : P sample) (hstate : P sampleState)
    (husers : P sampleUsers) (hlevel : P (.enumMember ⟨"Level.High", none⟩ "Level.High"))
    (hprimitive : ∀ name, P (.primitive ⟨name, none⟩)) : sample.Everywhere P := by
  have hleaf : ∀ name, (primitive ⟨name, none⟩).Everywhere P := fun name ↦
    everywhere_of_isLeaf rfl (hprimitive name)
  have hstates : sampleState.Everywhere P := by
    refine everywhere_iff.2 ⟨hstate, ?_⟩
    simp only [sampleState, branches, List.forall_mem_cons, hleaf, List.not_mem_nil,
      false_imp_iff, implies_true, and_self]
  have huser : sampleUsers.Everywhere P := by
    refine everywhere_iff.2 ⟨husers, ?_⟩
    simp only [sampleUsers, branches, List.forall_mem_cons, hleaf, List.not_mem_nil,
      false_imp_iff, implies_true, and_self]
  refine everywhere_iff.2 ⟨hroot, ?_⟩
  simp only [sample, branches, List.map_cons, List.map_nil, List.forall_mem_cons, hstates, huser,
    List.not_mem_nil, false_imp_iff, implies_true, and_true, true_and]
  exact everywhere_iff.2 ⟨hlevel, by simp [branches]⟩

/-- The parts of the sample: the truth values are folded around the value that the optional slot
leaves out. -/
theorem textOf_builtParts_sample : textOf sample.builtParts = sample.text ∧
    sample.text =
      "\x7b on?: boolean; readonly level: Level.High; users: Set<string>; ... 2 more; \x7d" := by
  refine ⟨textOf_builtParts sample ?_ ?_ ?_ ?_ ?_, by decide +kernel⟩
  · exact everywhere_sample rfl rfl rfl rfl fun _ ↦ rfl
  · exact everywhere_sample nofun nofun (by simp [sampleUsers]) nofun nofun
  · exact everywhere_sample (by simp [sample]) nofun nofun nofun nofun
  · refine everywhere_sample nofun nofun nofun ?_ nofun
    rintro _ _ h ⟨own, hdot, -⟩
    obtain ⟨-, rfl⟩ := enumMember.inj h
    simpa using congrArg String.toList hdot
  · refine everywhere_sample nofun ?_ nofun nofun nofun
    simp [sampleState, isLeaf]

end Tree

end TypeLens
