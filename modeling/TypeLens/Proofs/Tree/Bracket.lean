import TypeLens.Proofs.Text.Bracket
import TypeLens.Proofs.Tree.Entry
import TypeLens.Proofs.Tree.Shape
import TypeLens.Tree.Text

/-!
# Brackets in the text of a tree

A tree writes names of its own: the names of its types, keys, parameters and enum members
(`Tree.writtenNames`). What it adds to them is balanced, so that **the text of a tree is balanced if
its names are** (`Tree.textAs_bracketed`). In particular no part at the start of the text closes
more braces than it opens, which is what the depth of a line in the layout rests on.

Each form of a tree is written from the texts of its pieces, and has a lemma of its own here:
balanced pieces make a balanced text. The tree is then a matter of one step up from its branches.
-/

namespace TypeLens

/-- A text whose round, square and curly brackets are balanced. -/
def Bracketed (text : String) : Prop :=
  Text.Balanced text.toList

instance : DecidablePred Bracketed := fun text ↦
  inferInstanceAs (Decidable (Text.Balanced text.toList))

namespace Bracketed

variable {text text' : String}

theorem append (h : Bracketed text) (h' : Bracketed text') : Bracketed (text ++ text') := by
  rw [Bracketed, String.toList_append]
  exact Text.Balanced.append h h'

/-- A balanced text between two texts that are balanced together. -/
theorem between {opening closing : String} (hpair : Bracketed (opening ++ closing))
    (h : Bracketed text) : Bracketed (opening ++ text ++ closing) := by
  rw [Bracketed, String.toList_append] at hpair
  rw [Bracketed, String.toList_append, String.toList_append]
  exact hpair.insert h

/-- Bracketed texts are bracketed with bracketed separators between them. -/
theorem intercalate {separator : String} (hseparator : Bracketed separator)
    {texts : List String} (h : ∀ text ∈ texts, Bracketed text) :
    Bracketed (separator.intercalate texts) := by
  induction texts with
  | nil => exact .nil
  | cons first rest ih =>
    obtain ⟨hfirst, hrest⟩ := List.forall_mem_cons.1 h
    cases rest with
    | nil => rwa [String.intercalate_singleton]
    | cons second rest =>
      rw [String.intercalate_cons_cons]
      exact (hfirst.append hseparator).append (ih hrest)

theorem ite {P : Prop} [Decidable P] (h : Bracketed text) (h' : Bracketed text') :
    Bracketed (if P then text else text') := by
  split
  · exact h
  · exact h'

end Bracketed

/-! ### Numbers and keys -/

theorem Text.isUnbracketed_of_isDigit {c : Char} (h : c.isDigit = true) :
    Text.isUnbracketed c = true := by
  have hne : ∀ b : Char, b.isDigit = false → c ≠ b := by
    rintro b hb rfl
    simp [hb] at h
  unfold isUnbracketed closing? isClosing
  split
  · exact absurd rfl (hne '(' rfl)
  · exact absurd rfl (hne '[' rfl)
  · exact absurd rfl (hne '{' rfl)
  · simp [hne ')' rfl, hne ']' rfl, hne '}' rfl]

theorem bracketed_repr (n : Nat) : Bracketed n.repr := by
  rw [Bracketed, Nat.toList_repr]
  exact Text.balanced_of_forall fun c hc ↦
    Text.isUnbracketed_of_isDigit (Nat.isDigit_of_mem_toDigits (by decide) (by decide) hc)

/-- The note of what was left out has no brackets. -/
theorem bracketed_moreText (count : Int) : Bracketed (moreText count) := by
  have hcount : Bracketed (toString count) := by
    cases count with
    | ofNat n => exact bracketed_repr n
    | negSucc n => exact .append (by decide) (bracketed_repr (n + 1))
  exact (Bracketed.append (by decide) hcount).append (by decide)

/-- Escaping leaves the brackets of a key alone. -/
theorem Key.balanced_escape {cs : List Char} (h : Text.Balanced cs) :
    Text.Balanced (escape cs) := by
  have hescape : ∀ cs ds, escape (cs ++ ds) = escape cs ++ escape ds :=
    fun _ _ ↦ List.flatMap_append
  have hplain : ∀ c, Text.isUnbracketed c = true → Text.Balanced (escape [c]) := by
    intro c hc
    refine Text.balanced_of_forall fun d hd ↦ ?_
    simp only [escape, List.flatMap_cons, List.flatMap_nil, List.append_nil] at hd
    split at hd
    · rcases List.mem_cons.1 hd with rfl | hd
      · decide
      · rwa [List.mem_singleton.1 hd]
    · rwa [List.mem_singleton.1 hd]
  have hbracket : ∀ c, Text.isUnbracketed c = false → escape [c] = [c] := by
    intro c hc
    have hspecial : ¬(c = '\\' ∨ c = '"') := by
      rintro (rfl | rfl)
      all_goals exact absurd hc (by decide)
    simp [escape, hspecial]
  -- No bracket is escaped, so the escaped text has the same groups.
  induction h with
  | nil => exact .nil
  | @plain c cs hc _ ih =>
    rw [← List.singleton_append, hescape]
    exact (hplain c hc).append ih
  | @group o c inner rest hpair _ _ ihinner ihrest =>
    have hopen : Text.isUnbracketed o = false := by simp [Text.isUnbracketed, hpair]
    have hclose : Text.isUnbracketed c = false := by
      simp [Text.isUnbracketed, Text.of_closing?_eq_some hpair]
    have hwhole : escape (o :: inner ++ c :: rest) = o :: escape inner ++ c :: escape rest := by
      change escape ([o] ++ inner ++ ([c] ++ rest)) = _
      rw [hescape, hescape, hescape, hbracket o hopen, hbracket c hclose]
      rfl
    rw [hwhole]
    exact .group hpair ihinner ihrest

theorem Key.bracketed_quote {name : String} (h : Bracketed name) : Bracketed (quote name) := by
  rw [Bracketed, quote, String.toList_ofList, quoteChars]
  split
  · exact h
  · exact (Text.Balanced.plain (by decide) (balanced_escape h)).append (by decide)

/-! ### The forms of a tree -/

theorem Operand.bracketed_closed {o : Operand} (h : Bracketed o.text) : Bracketed o.closed :=
  .ite (.between (by decide) h) h

/-- Folding truth values writes no other word than `boolean`. -/
theorem of_mem_foldBooleans {text : String} {members : List String}
    (h : text ∈ foldBooleans members) : text ∈ members ∨ text = "boolean" := by
  unfold foldBooleans at h
  split at h
  · rcases List.mem_append.1 h with h | h
    · exact .inl ((List.takeWhile_sublist _).mem h)
    · rcases List.mem_cons.1 h with rfl | h
      · exact .inr rfl
      · exact .inl ((List.dropWhile_sublist _).mem (List.mem_of_mem_filter h))
  · exact .inl h

/-- A union is bracketed if its members are. -/
theorem bracketed_unionText {members : List String} (h : ∀ text ∈ members, Bracketed text)
    (excess : Int) : Bracketed (unionText members excess) := by
  refine .intercalate (by decide) fun text htext ↦ ?_
  rcases List.mem_append.1 htext with htext | htext
  · rcases of_mem_foldBooleans htext with htext | rfl
    · exact h text htext
    · decide
  · split at htext
    · rw [List.mem_singleton.1 htext]
      exact bracketed_moreText excess
    · simp at htext

/-- A union in a slot is bracketed if its members are, whether some of them are left out or not. -/
theorem bracketed_slotUnionText {operands : List Operand}
    (h : ∀ o ∈ operands, Bracketed o.text) (optional : Bool) (excess : Int) :
    Bracketed (slotUnionText optional operands excess) := by
  have hunion : ∀ kept ⊆ operands, Bracketed (unionText (kept.map Operand.closed) excess) := by
    intro kept hkept
    refine bracketed_unionText (List.forall_mem_map.2 fun o ho ↦ ?_) excess
    exact Operand.bracketed_closed (h o (hkept ho))
  have hkept : operands.filter (fun o ↦ o.name != "undefined") ⊆ operands :=
    List.filter_sublist.subset
  unfold slotUnionText
  dsimp only
  split
  · exact hunion operands (List.Subset.refl operands)
  · split
    · next o heq =>
      rw [heq] at hkept
      exact .ite (h o (hkept (List.mem_singleton_self o))) (hunion [o] hkept)
    · exact hunion _ hkept

/-- An object is bracketed if its entries are. -/
theorem bracketed_objectText {entries : List String} (h : ∀ entry ∈ entries, Bracketed entry)
    (excess : Int) : Bracketed (objectText entries excess) := by
  have hall : ∀ entry ∈ entries ++ if 0 < excess then [moreText excess ++ ";"] else [],
      Bracketed entry := by
    intro entry hentry
    rcases List.mem_append.1 hentry with hentry | hentry
    · exact h entry hentry
    · split at hentry
      · rw [List.mem_singleton.1 hentry]
        exact (bracketed_moreText excess).append (by decide)
      · simp at hentry
  unfold objectText
  split
  · decide
  · exact .between (by decide) (.intercalate (by decide) hall)

/-- A segment of balanced texts. -/
def Segment.Bracketed (s : Segment) : Prop :=
  (∀ line ∈ s.lines, TypeLens.Bracketed line) ∧ ∀ text ∈ s.text?, TypeLens.Bracketed text

/-- What is placed is the merged object or a segment of its own. -/
theorem of_mem_placeMerged {merged text : String} {segments : List Segment}
    (h : text ∈ placeMerged merged segments) :
    text = merged ∨ ∃ s ∈ segments, s.text? = some text := by
  induction segments with
  | nil => simp [placeMerged] at h
  | cons s segments ih =>
    cases s with
    | text own =>
      rcases List.mem_cons.1 h with rfl | h
      · exact .inr ⟨_, List.mem_cons_self, rfl⟩
      · exact (ih h).imp_right fun ⟨s, hs, htext⟩ ↦ ⟨s, List.mem_cons_of_mem _ hs, htext⟩
    | entries =>
      rcases List.mem_cons.1 h with rfl | h
      · exact .inl rfl
      · obtain ⟨s, hs, htext⟩ := List.mem_filterMap.1 h
        exact .inr ⟨s, List.mem_cons_of_mem _ hs, htext⟩

/-- An intersection is bracketed if the lines of its objects and its other members are. -/
theorem bracketed_intersectionText {segments : List Segment}
    (h : ∀ s ∈ segments, s.Bracketed) : Bracketed (intersectionText segments) := by
  refine .intercalate (by decide) fun text htext ↦ ?_
  rcases of_mem_placeMerged htext with rfl | ⟨s, hs, htext⟩
  · refine bracketed_objectText (fun line hline ↦ ?_) _
    obtain ⟨s, hs, hline⟩ := List.mem_flatMap.1 hline
    exact (h s hs).1 line hline
  · exact (h s hs).2 text htext

theorem bracketed_readonlyText (readonly : Bool) : Bracketed (readonlyText readonly) :=
  .ite (by decide) (by decide)

theorem bracketed_optionalText (optional : Bool) : Bracketed (optionalText optional) :=
  .ite (by decide) (by decide)

theorem bracketed_propertyText {name type : String} (hname : Bracketed name)
    (htype : Bracketed type) (optional readonly : Bool) :
    Bracketed (propertyText name optional readonly type) := by
  have hkey := (bracketed_readonlyText readonly).append (Key.bracketed_quote hname)
  have hcolon : Bracketed ": " := by decide
  exact (((hkey.append (bracketed_optionalText optional)).append hcolon).append htype).append
    (by decide)

theorem bracketed_parameterText {name type : String} (hname : Bracketed name)
    (htype : Bracketed type) (optional rest : Bool) :
    Bracketed (parameterText name optional rest type) := by
  have hmark : Bracketed (if rest then "..." else "") := .ite (by decide) (by decide)
  have hcolon : Bracketed ": " := by decide
  exact (((hmark.append hname).append (bracketed_optionalText optional)).append hcolon).append htype

/-- A signature of balanced pieces. -/
def SignatureText.Bracketed (s : SignatureText) : Prop :=
  TypeLens.Bracketed s.parameters ∧ TypeLens.Bracketed s.result

/-- The brackets of a signature stand around its parameters, whatever comes before the result. -/
theorem SignatureText.Bracketed.arrow {s : SignatureText} (h : s.Bracketed) :
    TypeLens.Bracketed s.arrow :=
  (TypeLens.Bracketed.between (by decide) h.1).append h.2

theorem SignatureText.Bracketed.colon {s : SignatureText} (h : s.Bracketed) :
    TypeLens.Bracketed s.colon :=
  (TypeLens.Bracketed.between (by decide) h.1).append h.2

/-- A function is bracketed if its signatures are, as an arrow or as an object. -/
theorem bracketed_functionText {name : String} {signatures : List SignatureText}
    (hname : Bracketed name) (h : ∀ s ∈ signatures, s.Bracketed) (anonymous : Bool)
    (excess : Int) : Bracketed (functionText anonymous name signatures excess) := by
  have hcolons : Bracketed ("; ".intercalate (signatures.map SignatureText.colon)) :=
    .intercalate (by decide) (List.forall_mem_map.2 fun s hs ↦ (h s hs).colon)
  have hmore : Bracketed (if 0 < excess then " " ++ moreText excess ++ ";" else "") :=
    .ite (.between (by decide) (bracketed_moreText excess)) (by decide)
  have hseveral : Bracketed
      ("\x7b" ++ "; ".intercalate (signatures.map SignatureText.colon) ++ ";" ++
        (if 0 < excess then " " ++ moreText excess ++ ";" else "") ++ "\x7d") := by
    have hsemicolon : Bracketed ";" := by decide
    have hpair : Bracketed ("\x7b" ++ "\x7d") := by decide
    have hwhole := hpair.between ((hcolons.append hsemicolon).append hmore)
    rwa [← String.append_assoc, ← String.append_assoc] at hwhole
  match signatures, h with
  | [], _ => exact hname
  | [s], h =>
    have hs := h s (List.mem_singleton_self s)
    exact .ite (.ite hs.arrow hs.colon) hseveral
  | _ :: _ :: _, _ => exact hseveral

theorem bracketed_arrayText {element : String} (h : Bracketed element) (readonly loose : Bool) :
    Bracketed (arrayText readonly loose element) :=
  ((bracketed_readonlyText readonly).append (.ite (.between (by decide) h) h)).append (by decide)

/-! ### Trees -/

namespace Tree

/-- The names in a node: of its type, its member, its properties and its parameters. -/
def writtenNames : Tree → List String
  | enumMember l member => [l.name, member]
  | object l ps _ => l.name :: ps.map Property.name
  | function l ss _ => l.name :: ss.flatMap fun s ↦ s.parameters.map Parameter.name
  | t => [t.name]

/-- A node whose names are balanced. -/
def NamesBracketed (t : Tree) : Prop :=
  ∀ name ∈ t.writtenNames, Bracketed name

instance : DecidablePred NamesBracketed := fun t ↦
  inferInstanceAs (Decidable (∀ name ∈ t.writtenNames, Bracketed name))

theorem name_mem_writtenNames (t : Tree) : t.name ∈ t.writtenNames := by
  cases t <;> exact List.mem_cons_self

/-- A tree with a balanced text in either kind of slot, and with balanced lines if it is an object.
An intersection writes its objects as one, so it takes their lines and not their texts. -/
structure Written (t : Tree) : Prop where
  text : ∀ optional, Bracketed (t.textIn optional)
  segment : t.segment.Bracketed

/-- A node that is no object has only its text to be written. -/
theorem Written.of_text {t : Tree} (ht : t.isObject = false)
    (h : ∀ optional, Bracketed (t.textIn optional)) : t.Written where
  text := h
  segment := by
    have hclosed : Bracketed t.operand.closed := Operand.bracketed_closed (h false)
    cases t with
    | object => cases ht
    | _ =>
      refine ⟨by simp [Tree.segment, Segment.lines], ?_⟩
      simpa [Tree.segment, Segment.text?] using hclosed

/-- An object is written if each of its lines is bracketed. -/
theorem Written.of_lines {l : Label} {ps : List (Property Tree)} {e : Int}
    (h : ∀ line ∈ propertyTexts ps, Bracketed line) : (object l ps e).Written where
  text optional := by
    rw [textIn]
    exact bracketed_objectText h e
  segment := ⟨h, by simp [Tree.segment, Segment.text?]⟩

/-- The lines of an object are bracketed if the names are and the types are written. -/
theorem bracketed_propertyTexts {ps : List (Property Tree)}
    (hnames : ∀ p ∈ ps, Bracketed p.name) (htypes : ∀ p ∈ ps, p.type.Written) :
    ∀ line ∈ propertyTexts ps, Bracketed line := by
  rw [propertyTexts_eq_map]
  refine List.forall_mem_map.2 fun p hp ↦ ?_
  rw [propertyTextOf_eq]
  exact bracketed_propertyText (hnames p hp) ((htypes p hp).text _) _ _

/-- Signatures are bracketed if the names are and the types are written. -/
theorem bracketed_signatureTexts {ss : List (Signature Tree)}
    (hnames : ∀ s ∈ ss, ∀ p ∈ s.parameters, Bracketed p.name)
    (htypes : ∀ s ∈ ss, ∀ c ∈ s.types, c.Written) : ∀ s ∈ signatureTexts ss, s.Bracketed := by
  rw [signatureTexts_eq_map]
  refine List.forall_mem_map.2 fun s hs ↦ ?_
  rw [signatureTextOf_eq]
  refine ⟨.intercalate (by decide) ?_, (htypes s hs _ List.mem_cons_self).text _⟩
  rw [parameterTexts_eq_map]
  refine List.forall_mem_map.2 fun p hp ↦ ?_
  have hmember : p.type ∈ s.types := List.mem_cons_of_mem _ (List.mem_map_of_mem hp)
  rw [parameterTextOf_eq]
  exact bracketed_parameterText (hnames s hs p hp) ((htypes s hs _ hmember).text _) _ _

/-- A function node is bracketed if the types below it are written. -/
theorem bracketed_function {l : Label} {ss : List (Signature Tree)} {e : Int}
    (hown : (function l ss e).NamesBracketed)
    (hbelow : ∀ c ∈ (function l ss e).branches, c.Written) (anonymous : Bool) :
    Bracketed (functionText anonymous l.name (signatureTexts ss) e) := by
  refine bracketed_functionText (hown _ (name_mem_writtenNames _)) ?_ anonymous e
  refine bracketed_signatureTexts (fun s hs p hp ↦ ?_) fun s hs c hc ↦ ?_
  · exact hown _ (List.mem_cons_of_mem _ (List.mem_flatMap.2 ⟨s, hs, List.mem_map_of_mem hp⟩))
  · exact hbelow c (List.mem_flatMap.2 ⟨s, hs, hc⟩)

/-- **One level up.** A node with balanced names above written trees is written. -/
theorem Written.of_branches {t : Tree} (hown : t.NamesBracketed)
    (hbelow : ∀ c ∈ t.branches, c.Written) : t.Written := by
  have hname := hown _ t.name_mem_writtenNames
  have htexts : ∀ {ts}, ts = t.branches → Bracketed (", ".intercalate (texts ts)) := by
    rintro ts rfl
    rw [texts_eq_map]
    exact .intercalate (by decide) (List.forall_mem_map.2 fun c hc ↦ (hbelow c hc).text false)
  -- Whatever a kind writes around its names and the trees below, it closes the brackets it opens.
  cases t with
  | primitive | basic | reference =>
    refine .of_text rfl fun optional ↦ ?_
    rw [textIn]
    exact hname
  | union l ms e =>
    refine .of_text rfl fun optional ↦ ?_
    rw [textIn, operands_eq_map]
    exact bracketed_slotUnionText (List.forall_mem_map.2 fun m hm ↦ (hbelow m hm).text false) _ _
  | intersection l ms =>
    refine .of_text rfl fun optional ↦ ?_
    rw [textIn, segments_eq_map]
    exact bracketed_intersectionText (List.forall_mem_map.2 fun m hm ↦ (hbelow m hm).segment)
  | object l ps e =>
    refine .of_lines (bracketed_propertyTexts (fun p hp ↦ ?_) fun p hp ↦ ?_)
    · exact hown _ (List.mem_cons_of_mem _ (List.mem_map_of_mem hp))
    · exact hbelow _ (List.mem_map_of_mem hp)
  | array l r t =>
    refine .of_text rfl fun optional ↦ ?_
    rw [textIn]
    exact bracketed_arrayText ((hbelow t (List.mem_singleton_self t)).text false) _ _
  | tuple l r ts =>
    refine .of_text rfl fun optional ↦ ?_
    have hpair : Bracketed (readonlyText r ++ "[" ++ "]") := by cases r <;> decide
    rw [textIn]
    exact hpair.between (htexts rfl)
  | function l ss e =>
    refine .of_text rfl fun optional ↦ ?_
    rw [textIn]
    exact bracketed_function hown hbelow true
  | promise l t =>
    refine .of_text rfl fun optional ↦ ?_
    rw [textIn]
    exact .between (by decide) ((hbelow t (List.mem_singleton_self t)).text false)
  | enumMember l member =>
    refine .of_text rfl fun optional ↦ ?_
    rw [textIn]
    exact hown member (by simp [writtenNames])
  | generic l ts =>
    refine .of_text rfl fun optional ↦ ?_
    rw [textIn]
    exact ((Bracketed.append hname (by decide)).append (htexts rfl)).append (by decide)

/-- A tree whose names are bracketed everywhere is written, by going through it. -/
theorem Everywhere.written {t : Tree} (h : t.Everywhere NamesBracketed) : t.Written := by
  induction t using branch_induction with
  | node t ih => exact .of_branches h.root fun c hc ↦ ih c hc (h.branch hc)

/-- **The text of a tree with balanced names is balanced**, whichever form its declaration asks for,
and no part at its start closes more braces than it opens. -/
theorem textAs_bracketed {t : Tree} (h : t.Everywhere NamesBracketed) (anonymous : Bool) :
    Bracketed (t.textAs anonymous) ∧ ∀ front, front <+: (t.textAs anonymous).toList →
      front.count '}' ≤ front.count '{' := by
  have htext : Bracketed (t.textAs anonymous) := by
    have hanonymous : Bracketed t.text := h.written.text false
    rw [textAs]
    refine .ite hanonymous ?_
    cases t with
    | function l ss e => exact bracketed_function h.root (fun c hc ↦ (h.branch hc).written) false
    | _ => exact hanonymous
  exact ⟨htext, fun front hfront ↦ htext.count_le rfl hfront⟩

/-- A word as a tree. -/
def sampleWord (name : String) : Tree :=
  primitive ⟨name, none⟩

/-- A call that may be missing. -/
def sampleCall : Tree :=
  union ⟨"C", none⟩ [sampleWord "undefined", function ⟨"F", none⟩ [⟨sampleWord "void", []⟩] 0] 0

/-- An array of truth values and objects. -/
def sampleFlags : Tree :=
  array ⟨"A", none⟩ false
    (union ⟨"U", none⟩ [sampleWord "true", sampleWord "\x7b\x7d", sampleWord "false"] 2)

/-- Two objects, with an index signature and with a key that needs quotes, and a function that has
more signatures than are shown and takes its parameter apart. -/
def sampleHandler : Tree :=
  intersection ⟨"I", none⟩
    [object ⟨"O", none⟩ [⟨"[key: string]", true, true, sampleCall⟩] 0,
      function ⟨"G", none⟩ [⟨tuple ⟨"P", none⟩ true [sampleWord "a(b)"],
        [⟨"\x7b a, b \x7d", true, false, sampleFlags⟩]⟩] 3,
      object ⟨"Q", none⟩ [⟨"say \"[hi]\"", false, false, sampleWord "Map<string>"⟩] 1]

theorem everywhere_sampleHandler : sampleHandler.Everywhere NamesBracketed := by
  have hword : ∀ name, Bracketed name → (sampleWord name).Everywhere NamesBracketed :=
    fun name h ↦ everywhere_of_isLeaf rfl (List.forall_mem_singleton.2 h)
  have hnode : ∀ {t : Tree}, t.NamesBracketed → (∀ c ∈ t.branches, c.Everywhere NamesBracketed) →
      t.Everywhere NamesBracketed := fun hown hbelow ↦ everywhere_iff.2 ⟨hown, hbelow⟩
  have hcall : sampleCall.Everywhere NamesBracketed := by
    refine hnode (by decide) (List.forall_mem_cons.2 ⟨hword _ (by decide), ?_⟩)
    refine List.forall_mem_singleton.2 (hnode (by decide) ?_)
    exact List.forall_mem_singleton.2 (hword _ (by decide))
  have hflags : sampleFlags.Everywhere NamesBracketed := by
    refine hnode (by decide) (List.forall_mem_singleton.2 (hnode (by decide) ?_))
    refine List.forall_mem_cons.2 ⟨hword _ (by decide), List.forall_mem_cons.2 ⟨?_, ?_⟩⟩
    · exact hword _ (by decide)
    · exact List.forall_mem_singleton.2 (hword _ (by decide))
  refine hnode (by decide) (List.forall_mem_cons.2 ⟨?_, List.forall_mem_cons.2 ⟨?_, ?_⟩⟩)
  · exact hnode (by decide) (List.forall_mem_singleton.2 hcall)
  · refine hnode (by decide) (List.forall_mem_cons.2 ⟨hnode (by decide) ?_, ?_⟩)
    · exact List.forall_mem_singleton.2 (hword _ (by decide))
    · exact List.forall_mem_singleton.2 hflags
  · refine List.forall_mem_singleton.2 (hnode (by decide) ?_)
    exact List.forall_mem_singleton.2 (hword _ (by decide))

/-- The quoted brackets of the sample are matched, like all others. -/
theorem textAs_bracketed_sample :
    sampleHandler.textAs true = "\x7b readonly [key: string]?: () => void; " ++
        "\"say \\\"[hi]\\\"\": Map<string>; ... 1 more; \x7d & " ++
        "\x7b(\x7b a, b \x7d?: (boolean | \x7b\x7d | ... 2 more)[]): readonly [a(b)]; " ++
        "... 3 more;\x7d" ∧
      Bracketed (sampleHandler.textAs true) :=
  ⟨by decide +kernel, (textAs_bracketed everywhere_sampleHandler true).1⟩

/-- A bracket that a name leaves open stays open. -/
example : ¬Bracketed (array ⟨"A", none⟩ false (primitive ⟨"Pick<(", none⟩)).text := by
  decide

end Tree

end TypeLens
