import TypeLens.Proofs.Tree.Shape
import TypeLens.Tree.Text

/-!
# Properties in the text of a tree

A property that a tree *shows* (`Tree.Shows`) is one of its own properties or one of a tree below
it, where an optional slot shows its type without `undefined`. The text of the tree then holds the
text of the property, behind the brace that opens its object or behind the semicolon of the property
before it (`Tree.Shows.holdsEntry`).

The proof goes down one level at a time. An intersection writes its objects as one, so what is
carried along for an object is about its lines as well as about its text (`Tree.Holds`).
-/

namespace TypeLens

/-! ### Texts with an entry -/

/-- A text with an entry of an object in it, at a place where an entry may start. -/
def HoldsEntry (entry text : String) : Prop :=
  ∃ before mark behind, (mark = "\x7b " ∨ mark = "; ") ∧ text = before ++ mark ++ entry ++ behind

namespace HoldsEntry

variable {entry text : String}

theorem append_left (h : HoldsEntry entry text) (front : String) :
    HoldsEntry entry (front ++ text) := by
  obtain ⟨before, mark, behind, hmark, rfl⟩ := h
  exact ⟨front ++ before, mark, behind, hmark, by simp [String.append_assoc]⟩

theorem append_right (h : HoldsEntry entry text) (back : String) :
    HoldsEntry entry (text ++ back) := by
  obtain ⟨before, mark, behind, hmark, rfl⟩ := h
  exact ⟨before, mark, behind ++ back, hmark, by simp [String.append_assoc]⟩

/-- An entry of one text is an entry of the joined texts. -/
theorem intercalate (h : HoldsEntry entry text) {texts : List String} (hmem : text ∈ texts)
    (separator : String) : HoldsEntry entry (separator.intercalate texts) := by
  induction texts with
  | nil => simp at hmem
  | cons first rest ih =>
    rcases eq_or_ne rest [] with rfl | hrest
    · rw [String.intercalate_singleton, ← List.mem_singleton.1 hmem]
      exact h
    · rw [String.intercalate_cons_of_ne_nil hrest]
      rcases List.mem_cons.1 hmem with rfl | hmem
      · exact (h.append_right _).append_right _
      · exact (ih hmem).append_left _

/-- A text with an entry is no single word. -/
theorem ne_of_not_mem (h : HoldsEntry entry text) {word : String} (hword : ' ' ∉ word.toList) :
    text ≠ word := by
  obtain ⟨before, mark, behind, hmark, rfl⟩ := h
  rintro rfl
  rcases hmark with rfl | rfl
  all_goals simp at hword

end HoldsEntry

/-- The text of an entry, or a text with the entry in it. -/
def LiesIn (entry text : String) : Prop :=
  text = entry ∨ HoldsEntry entry text

/-- The entries of an object stand behind its brace and behind each other's semicolons. -/
theorem holdsEntry_objectText {entry line : String} {lines : List String}
    (h : LiesIn entry line) (hline : line ∈ lines)
    (hends : ∀ line ∈ lines, ∃ front, line = front ++ ";") (excess : Int) :
    HoldsEntry entry (objectText lines excess) := by
  obtain ⟨before, after, rfl⟩ := List.append_of_mem hline
  obtain ⟨more, hmore⟩ : ∃ more, (if 0 < excess then [moreText excess ++ ";"] else []) = more :=
    ⟨_, rfl⟩
  have htext : objectText (before ++ line :: after) excess =
      "\x7b " ++ " ".intercalate (before ++ line :: (after ++ more)) ++ " \x7d" := by
    rw [objectText, hmore, List.append_assoc, List.cons_append]
    split
    · next hnil => simp at hnil
    · rfl
  rw [htext]
  rcases h with rfl | h
  · have hrest : ∃ behind, " ".intercalate (line :: (after ++ more)) = line ++ behind := by
      rcases after ++ more with - | ⟨next, rest⟩
      · exact ⟨"", by simp⟩
      · exact ⟨_, by rw [String.intercalate_cons_cons, String.append_assoc]⟩
    obtain ⟨behind, hbehind⟩ := hrest
    rcases List.eq_nil_or_concat before with rfl | ⟨start, last, rfl⟩
    · rw [List.nil_append, hbehind]
      exact ⟨"", "\x7b ", behind ++ " \x7d", .inl rfl, by simp [String.append_assoc]⟩
    · -- What stands before the blank is the semicolon of the last entry.
      obtain ⟨front, rfl⟩ := hends last (by simp)
      have hstart : ∃ above, " ".intercalate (start ++ [front ++ ";"]) = above ++ ";" := by
        rcases eq_or_ne start [] with rfl | hne
        · exact ⟨front, by simp⟩
        · refine ⟨" ".intercalate start ++ " " ++ front, ?_⟩
          rw [String.intercalate_append_of_ne_nil hne (by simp), String.intercalate_singleton,
            String.append_assoc, String.append_assoc, String.append_assoc]
      obtain ⟨above, habove⟩ := hstart
      rw [List.concat_eq_append, String.intercalate_append_of_ne_nil (by simp) (by simp), hbehind,
        habove]
      refine ⟨"\x7b " ++ above, "; ", behind ++ " \x7d", .inr rfl, ?_⟩
      rw [← String.toList_inj]
      simp
  · exact ((h.intercalate (by simp) " ").append_left _).append_right _

/-- Only truth values are folded. -/
theorem mem_foldBooleans {text : String} {members : List String} (h : text ∈ members)
    (htrue : text ≠ "true") (hfalse : text ≠ "false") : text ∈ foldBooleans members := by
  unfold foldBooleans
  split
  · have hother : (text != "true" && text != "false") = true := by simp [htrue, hfalse]
    rw [← List.takeWhile_append_dropWhile (p := fun m ↦ m != "true" && m != "false")
      (l := members), List.mem_append] at h
    rcases h with h | h
    · exact List.mem_append_left _ h
    · exact List.mem_append_right _ (List.mem_cons_of_mem _ (List.mem_filter.2 ⟨h, hother⟩))
  · exact h

/-- The objects of an intersection are written where the first of them stands. -/
theorem merged_mem_placeMerged {merged : String} {segments : List Segment} {texts : List String}
    {excess : Int} (h : .entries texts excess ∈ segments) :
    merged ∈ placeMerged merged segments := by
  induction segments with
  | nil => simp at h
  | cons s segments ih =>
    cases s with
    | entries => exact List.mem_cons_self
    | text => exact List.mem_cons_of_mem _ (ih (by simpa using h))

/-- The texts of an intersection stay beside the merged object. -/
theorem text_mem_placeMerged {merged text : String} {segments : List Segment}
    (h : .text text ∈ segments) : text ∈ placeMerged merged segments := by
  induction segments with
  | nil => simp at h
  | cons s segments ih =>
    cases s with
    | entries =>
      exact List.mem_cons_of_mem _ (List.mem_filterMap.2 ⟨_, by simpa using h, rfl⟩)
    | text s =>
      rcases List.mem_cons.1 h with heq | h
      · obtain rfl := Segment.text.inj heq
        exact List.mem_cons_self
      · exact List.mem_cons_of_mem _ (ih h)

namespace HoldsEntry

variable {entry text : String}

theorem closed {o : Operand} (h : HoldsEntry entry o.text) : HoldsEntry entry o.closed := by
  unfold Operand.closed
  split
  · exact (h.append_left _).append_right _
  · exact h

theorem unionText (h : HoldsEntry entry text) {members : List String} (hmem : text ∈ members)
    (excess : Int) : HoldsEntry entry (unionText members excess) := by
  refine h.intercalate (List.mem_append_left _ (mem_foldBooleans hmem ?_ ?_)) " | "
  · exact h.ne_of_not_mem (by decide)
  · exact h.ne_of_not_mem (by decide)

/-- A signature shows its parameters and its result, with an arrow or with a colon. -/
theorem signature {s : SignatureText}
    (h : HoldsEntry entry s.parameters ∨ HoldsEntry entry s.result) :
    HoldsEntry entry s.arrow ∧ HoldsEntry entry s.colon := by
  rw [SignatureText.arrow, SignatureText.colon]
  rcases h with h | h
  · exact ⟨((h.append_left _).append_right _).append_right _,
      ((h.append_left _).append_right _).append_right _⟩
  · exact ⟨h.append_left _, h.append_left _⟩

/-- An entry of a signature is an entry of the function, in either form. -/
theorem functionText {signatures : List SignatureText} {s : SignatureText}
    (h : HoldsEntry entry s.arrow ∧ HoldsEntry entry s.colon) (hmem : s ∈ signatures)
    (name : String) (excess : Int) :
    HoldsEntry entry (functionText true name signatures excess) := by
  have hseveral : HoldsEntry entry
      ("\x7b" ++ "; ".intercalate (signatures.map SignatureText.colon) ++ ";" ++
        (if 0 < excess then " " ++ moreText excess ++ ";" else "") ++ "\x7d") := by
    have hcolons := h.2.intercalate (List.mem_map_of_mem hmem) "; "
    exact (((hcolons.append_left _).append_right _).append_right _).append_right _
  match signatures, hmem with
  | [s'], hmem =>
    obtain rfl := List.mem_singleton.1 hmem
    rw [TypeLens.functionText]
    split
    · exact h.1
    · exact hseveral
  | s₁ :: s₂ :: rest, _ => exact hseveral

end HoldsEntry

/-! ### What a tree shows -/

/-- The type that a property shows. -/
def Property.shownType (p : Property Tree) : Tree :=
  if p.optional then p.type.stripUndefined else p.type

/-- The type that a parameter shows. -/
def Parameter.shownType (p : Parameter Tree) : Tree :=
  if p.optional then p.type.stripUndefined else p.type

/-- The types that a signature shows. -/
def Signature.shownTypes (s : Signature Tree) : List Tree :=
  s.result :: s.parameters.map Parameter.shownType

namespace Tree

/-- The trees that are shown directly below a node. -/
def shown : Tree → List Tree
  | object _ ps _ => ps.map Property.shownType
  | function _ ss _ => ss.flatMap Signature.shownTypes
  | t => t.branches

/-- A property that a tree shows, at whatever depth. -/
inductive Shows : Tree → Property Tree → Prop
  | own {l : Label} {ps : List (Property Tree)} {e : Int} {p : Property Tree} (hp : p ∈ ps) :
    Shows (object l ps e) p
  | deeper {t c : Tree} {p : Property Tree} (hc : c ∈ t.shown) (hp : Shows c p) : Shows t p

/-- Only a union is written differently in an optional slot. -/
theorem textIn_stripUndefined (t : Tree) : t.stripUndefined.textIn false = t.textIn true := by
  cases t with
  | union l ms e =>
    have hkept : (ms.map operand).filter (fun o ↦ o.name != "undefined") =
        (ms.filter fun m ↦ m.name != "undefined").map operand := by
      rw [List.filter_map]
      rfl
    have hunion : ∀ l ms, (union l ms e).textIn false =
        unionText ((ms.map operand).map Operand.closed) e := by
      intro l ms
      rw [textIn, operands_eq_map, slotUnionText, if_pos (by simp)]
    rw [stripUndefined, textIn, operands_eq_map, slotUnionText]
    simp only [hkept, List.length_map, List.isEmpty_map]
    generalize ms.filter (fun m ↦ m.name != "undefined") = kept
    split
    · next hall => rw [hunion, if_pos (.inr hall)]
    · next hsome =>
      rw [if_neg (by simpa using hsome)]
      -- A single member that is left stands for itself, unless something was left out besides.
      match kept with
      | [] => rw [hunion]; rfl
      | [m] =>
        dsimp only [List.map_cons, List.map_nil]
        split
        · rfl
        · rw [hunion]; rfl
      | m :: m' :: kept => rw [hunion]; rfl
  | _ => simp only [stripUndefined, textIn]

/-- In an optional slot a type is shown as it is in that slot. -/
theorem textIn_shownType (p : Property Tree) :
    p.shownType.textIn false = p.type.textIn p.optional := by
  unfold Property.shownType
  cases p.optional
  · rfl
  · exact textIn_stripUndefined p.type

theorem textIn_parameter_shownType (p : Parameter Tree) :
    p.shownType.textIn false = p.type.textIn p.optional := by
  unfold Parameter.shownType
  cases p.optional
  · rfl
  · exact textIn_stripUndefined p.type

theorem propertyTextOf_eq (p : Property Tree) :
    propertyTextOf p = propertyText p.name p.optional p.readonly (p.type.textIn p.optional) := by
  cases p
  rw [propertyTextOf]

theorem parameterTextOf_eq (p : Parameter Tree) :
    parameterTextOf p = parameterText p.name p.optional p.rest (p.type.textIn p.optional) := by
  cases p
  rw [parameterTextOf]

theorem signatureTextOf_eq (s : Signature Tree) :
    signatureTextOf s =
      ⟨", ".intercalate (parameterTexts s.parameters), s.result.textIn false⟩ := by
  cases s
  rw [signatureTextOf]

theorem exists_propertyTextOf (p : Property Tree) : ∃ front, propertyTextOf p = front ++ ";" :=
  ⟨_, propertyTextOf_eq p⟩

/-- A tree with an entry in its text and, if it is an object, in one of its lines. -/
structure Holds (entry : String) (t : Tree) : Prop where
  text : HoldsEntry entry (t.textIn false)
  line : ∀ {l ps e}, t = object l ps e → ∃ line ∈ propertyTexts ps, LiesIn entry line

namespace Holds

variable {entry : String} {c : Tree}

/-- A node that is no object holds what its text holds. -/
theorem of_text {t : Tree} (ht : t.isObject = false) (h : HoldsEntry entry (t.textIn false)) :
    Holds entry t where
  text := h
  line := by
    rintro l ps e rfl
    cases ht

/-- An object holds the entries that lie in one of its lines. -/
theorem of_line {l : Label} {ps : List (Property Tree)} {e : Int} {line : String}
    (hline : line ∈ propertyTexts ps) (h : LiesIn entry line) : Holds entry (object l ps e) where
  text := by
    rw [textIn]
    refine holdsEntry_objectText h hline (fun line hmem ↦ ?_) e
    rw [propertyTexts_eq_map] at hmem
    obtain ⟨p, -, rfl⟩ := List.mem_map.1 hmem
    exact exists_propertyTextOf p
  line := by
    rintro l ps e ⟨⟩
    exact ⟨line, hline, h⟩

/-- An intersection shows the lines of its objects and the texts of its other members. -/
theorem intersectionText (h : Holds entry c) {ms : List Tree} (hc : c ∈ ms) :
    HoldsEntry entry (intersectionText (segments ms)) := by
  have hmember : c.segment ∈ ms.map segment := List.mem_map_of_mem hc
  have hends : ∀ line ∈ (ms.map segment).flatMap Segment.lines, ∃ front, line = front ++ ";" := by
    intro line hline
    obtain ⟨s, hs, hline⟩ := List.mem_flatMap.1 hline
    obtain ⟨m, -, rfl⟩ := List.mem_map.1 hs
    cases m with
    | object l ps e =>
      rw [segment, Segment.lines, propertyTexts_eq_map] at hline
      obtain ⟨p, -, rfl⟩ := List.mem_map.1 hline
      exact exists_propertyTextOf p
    | _ => simp [segment, Segment.lines] at hline
  rw [segments_eq_map]
  -- An object is merged with the other ones, so its lines are shown; any other member shows its
  -- text.
  cases hobject : c.isObject with
  | true =>
    cases c with
    | object l ps e =>
      obtain ⟨line, hline, hlies⟩ := h.line rfl
      have hlines : line ∈ (ms.map segment).flatMap Segment.lines :=
        List.mem_flatMap.2 ⟨_, hmember, hline⟩
      exact (holdsEntry_objectText hlies hlines hends _).intercalate
        (merged_mem_placeMerged hmember) _
    | _ => cases hobject
  | false =>
    have hsegment : c.segment = .text c.operand.closed := by
      cases c with
      | object => cases hobject
      | _ => rfl
    rw [hsegment] at hmember
    have hclosed : HoldsEntry entry c.operand.closed := HoldsEntry.closed h.text
    exact hclosed.intercalate (text_mem_placeMerged hmember) _

/-- **One level down.** What holds an entry directly below a node is held by the node. -/
theorem of_shown {t : Tree} (h : Holds entry c) (hc : c ∈ t.shown) : Holds entry t := by
  have htexts : ∀ {ts}, c ∈ ts → c.textIn false ∈ texts ts := by
    intro ts hmem
    rw [texts_eq_map]
    exact List.mem_map_of_mem hmem
  cases t with
  | primitive | basic | reference | enumMember => simp [shown, branches] at hc
  | union l ms e =>
    refine of_text rfl ?_
    have hclosed : HoldsEntry entry c.operand.closed := HoldsEntry.closed h.text
    rw [textIn, operands_eq_map, slotUnionText, if_pos (by simp)]
    exact hclosed.unionText (List.mem_map_of_mem (List.mem_map_of_mem hc)) e
  | intersection l ms =>
    refine of_text rfl ?_
    rw [textIn]
    exact h.intersectionText hc
  | object l ps e =>
    -- An object keeps its entries line by line, for an intersection may merge them.
    obtain ⟨p, hp, rfl⟩ := List.mem_map.1 (show c ∈ ps.map Property.shownType from hc)
    have hline : propertyTextOf p ∈ propertyTexts ps := by
      rw [propertyTexts_eq_map]
      exact List.mem_map_of_mem hp
    refine of_line hline (.inr ?_)
    have htype := h.text
    rw [textIn_shownType] at htype
    rw [propertyTextOf_eq]
    exact (htype.append_left _).append_right _
  | array l r t =>
    obtain rfl : c = t := by simpa [shown, branches] using hc
    refine of_text rfl ?_
    rw [textIn, arrayText]
    split
    · exact (((h.text.append_left _).append_right _).append_left _).append_right _
    · exact (h.text.append_left _).append_right _
  | tuple l r ts =>
    refine of_text rfl ?_
    rw [textIn]
    exact ((h.text.intercalate (htexts hc) _).append_left _).append_right _
  | function l ss e =>
    obtain ⟨s, hs, hc⟩ := List.mem_flatMap.1 (show c ∈ ss.flatMap Signature.shownTypes from hc)
    refine of_text rfl ?_
    -- The tree is the result of a signature, or the type of one of its parameters.
    have hsignature : HoldsEntry entry (signatureTextOf s).parameters ∨
        HoldsEntry entry (signatureTextOf s).result := by
      rw [signatureTextOf_eq]
      rcases List.mem_cons.1 hc with rfl | hc
      · exact .inr h.text
      · obtain ⟨p, hp, rfl⟩ := List.mem_map.1 hc
        have htype := h.text
        rw [textIn_parameter_shownType] at htype
        have hparameter : HoldsEntry entry (parameterTextOf p) := by
          rw [parameterTextOf_eq]
          exact htype.append_left _
        have hmem : parameterTextOf p ∈ parameterTexts s.parameters := by
          rw [parameterTexts_eq_map]
          exact List.mem_map_of_mem hp
        exact .inl (hparameter.intercalate hmem _)
    rw [textIn, signatureTexts_eq_map]
    exact HoldsEntry.functionText (HoldsEntry.signature hsignature) (List.mem_map_of_mem hs)
      l.name e
  | promise l t =>
    obtain rfl : c = t := by simpa [shown, branches] using hc
    refine of_text rfl ?_
    rw [textIn]
    exact (h.text.append_left _).append_right _
  | generic l ts =>
    refine of_text rfl ?_
    rw [textIn]
    exact ((h.text.intercalate (htexts hc) _).append_left _).append_right _

end Holds

/-- **The text of a tree holds the text of every property it shows.** -/
theorem Shows.holdsEntry {t : Tree} {p : Property Tree} (h : t.Shows p) :
    HoldsEntry (propertyTextOf p) t.text := by
  suffices hholds : Holds (propertyTextOf p) t from hholds.text
  induction h with
  | own hp =>
    refine .of_line ?_ (.inl rfl)
    rw [propertyTexts_eq_map]
    exact List.mem_map_of_mem hp
  | deeper hc _ ih => exact ih.of_shown hc

end Tree

end TypeLens
