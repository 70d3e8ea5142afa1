import TypeLens.Proofs.Build.Annotation
import TypeLens.Proofs.Lookup.Total
import TypeLens.Proofs.Tree.Display

/-!
# The two renderings of an answer

The tree that a look-up answers is rendered as plain text and, when display parts are made, by the
parts that its root stores. The parts are made so that they spell the text; and they are stored with
the tree of every type that is expanded. The tree of a constructor is put together by the look-up
itself, which stores nothing with it. So a class that is named in a `new` expression is displayed by
its name alone, while its text is that of a function (`inFile_spelling`).

That the root of an expansion has parts at all rests on the forms: a union or an intersection is
made of at least one type (`proper_expansion`).
-/

namespace TypeLens

namespace Build

open TypeLens.Graph TypeLens.Part TypeLens.Tree

/-! ### Expansions -/

/-- The node of a form that fits is proper, whatever its children are. -/
theorem Form.proper_tree {child : TypeId → Int → Tree} {s : Snapshot} {opts : Options}
    {r : TypeRecord} {depth : Int} {F : Form} (hF : F.fits opts r = true) :
    (F.tree child s opts r depth).Proper := by
  cases F with
  | union =>
    have hmembers : r.members ≠ [] := by simpa using (Bool.and_eq_true_iff.1 hF).2
    have hlength := List.length_pos_iff.2 hmembers
    rcases Nat.eq_zero_or_pos opts.maxUnionMembers with hzero | hpos
    · exact .inr (by omega)
    · refine .inl (List.length_pos_iff.1 ?_)
      rw [List.length_map, length_sortByRank, List.length_take]
      omega
  | intersection =>
    have hmembers : r.members ≠ [] := by simpa using (Bool.and_eq_true_iff.1 hF).2
    simpa [Form.tree, Proper] using hmembers
  | generic =>
    have harguments : r.typeArguments ≠ [] := by
      have hinstance := (Bool.and_eq_true_iff.1 hF).1
      simpa using (Bool.and_eq_true_iff.1 hinstance).2
    simpa [Form.tree, Proper] using harguments
  | object => exact Int.natCast_nonneg _
  | _ => trivial

/-- **Every node of an expansion has something to show.** -/
theorem proper_expansion (s : Snapshot) (opts : Options) (t : TypeId) (depth : Int)
    (way : List TypeId) : (expansion s opts t depth way).Everywhere Proper := by
  refine everywhere_expansion s opts ?_ ?_ t depth way
  · intro T hT
    cases T with
    | primitive | basic | reference => trivial
    | _ => cases hT
  · intro t r depth way l _
    rw [proper_setLabel]
    exact Form.proper_tree (Form.fits_ofRecord opts r)

/-- **An expansion is displayed as its text.** Above the greatest depth it stores the parts that
spell it; from there on it is a leaf, which is displayed by its name. -/
theorem textOf_displayParts_expansion {s : Snapshot} {opts : Options}
    (hopts : opts.displayParts = true) {t : TypeId} (ht : (s.type? t).isSome) {depth : Int}
    {way : List TypeId} (hlegible : (expansion s opts t depth way).Everywhere Legible) :
    textOf (expansion s opts t depth way).displayParts = (expansion s opts t depth way).text := by
  rcases lt_or_ge depth (opts.maxDepth : Int) with hdepth | hdepth
  · exact textOf_displayParts_of_stored (parts_label_expansion opts hopts ht hdepth way)
      (proper_expansion s opts t depth way) hlegible
  · rw [expansion_of_maxDepth_le hdepth,
      textOf_displayParts_of_parts_eq_none (parts_label_stub s t)]
    exact (textIn_of_isLeaf (isLeaf_stub s t) false).symm

end Build

namespace Lookup

open TypeLens.Graph TypeLens.Part TypeLens.Build TypeLens.Tree

/-! ### Constructors -/

section

variable (opts : Options) (s : Snapshot) (name : String) (c : Callable)

/-- What holds everywhere in the tree of a constructor: whatever holds of the root, of leaves, and
everywhere in expansions. -/
theorem everywhere_constructorTree {P : Tree → Prop} (hroot : P (constructorTree opts s name c))
    (hresult : P (.reference (named name)))
    (hparameters : ∀ t, (expansion s opts t 0 []).Everywhere P) :
    (constructorTree opts s name c).Everywhere P := by
  refine everywhere_iff.2 ⟨hroot, fun u hu ↦ ?_⟩
  obtain rfl | ⟨a, -, rfl⟩ : u = .reference (named name) ∨
      ∃ a ∈ c.parameters, expansion s opts a.type 0 [] = u := by
    simpa [constructorTree, branches, Signature.types, parameterTree] using hu
  · exact everywhere_of_isLeaf rfl hresult
  · exact hparameters a.type

/-- The text of a constructor is longer than the name of the class, which is its result. -/
theorem text_constructorTree_ne : (constructorTree opts s name c).text ≠ name := by
  intro h
  have hlength := congrArg String.length h
  simp [constructorTree, Tree.text, textIn, functionText, signatureTexts, signatureTextOf,
    SignatureText.arrow, named] at hlength

end

/-! ### Answers -/

/-- What a look-up at a position of a file finds: the node at the position, the record of its
symbol, or of what that is an alias of, and the record of the symbol's type. -/
inductive Finds (o : Oracle) (file : String) (position : Int) :
    Located → SymbolRecord → TypeRecord → Prop
  | found {key : String} {d : Document} {symbol target : SymbolId} {r : SymbolRecord}
    {type : TypeRecord} (hkey : o.findDocument file = some key)
    (hd : o.snapshot.document? key = some d)
    (hsymbol : (d.root.resolve Node.endOfFileKinds (.between position position)).node.symbol =
      some symbol)
    (htarget : Oracle.aliasFrom o.snapshot o.snapshot.symbols.length [symbol] symbol = .ok target)
    (hr : o.snapshot.symbol? target = some r) (htype : o.snapshot.type? r.type = some type) :
    Finds o file position (d.root.resolve Node.endOfFileKinds (.between position position)) r type

/-- At a position of a file a `new` expression names a class that has construct signatures. -/
def ConstructsAt (o : Oracle) (file : String) (position : Int) : Prop :=
  ∃ n r type, Finds o file position n r type ∧ r.declarationKind = some "ClassDeclaration" ∧
    n.parentKind = some "NewExpression" ∧ type.constructSignatures ≠ []

section

variable {o : Oracle} {opts : Options} {file : String} {position : Int} {n n' : Located}
  {r r' : SymbolRecord} {type type' : TypeRecord}

/-- A look-up finds one thing. -/
theorem Finds.unique (h : Finds o file position n r type) (h' : Finds o file position n' r' type') :
    n = n' ∧ r = r' ∧ type = type' := by
  cases h with
  | found hkey hd hsymbol htarget hr htype =>
    cases h' with
    | found hkey' hd' hsymbol' htarget' hr' htype' =>
      obtain rfl := Option.some.inj (hkey.symm.trans hkey')
      obtain rfl := Option.some.inj (hd.symm.trans hd')
      obtain rfl := Option.some.inj (hsymbol.symm.trans hsymbol')
      obtain rfl := Except.ok.inj (htarget.symm.trans htarget')
      obtain rfl := Option.some.inj (hr.symm.trans hr')
      exact ⟨rfl, rfl, Option.some.inj (htype.symm.trans htype')⟩

theorem shownKind_eq_class_iff (declared : Option String) :
    shownKind declared = "ClassDeclaration" ↔ declared = some "ClassDeclaration" := by
  unfold shownKind
  split <;> simp_all

/-- Construct signatures are looked at only where a class is constructed. -/
theorem signaturesAt_ne_nil_iff (h : Finds o file position n r type) :
    signaturesAt n (shownKind r.declarationKind) type ≠ [] ↔ ConstructsAt o file position := by
  constructor
  · intro hne
    unfold signaturesAt at hne
    split at hne
    · next hclass =>
      exact ⟨n, r, type, h, (shownKind_eq_class_iff _).1 hclass.1, hclass.2, hne⟩
    · exact absurd rfl hne
  · rintro ⟨n', r', type', h', hclass, hparent, hne⟩
    obtain ⟨rfl, rfl, rfl⟩ := h.unique h'
    rw [signaturesAt, if_pos ⟨(shownKind_eq_class_iff _).2 hclass, hparent⟩]
    exact hne

/-- A type that is found under toleration is found without it. -/
theorem run_of_tolerating {α : Type} {m : Asked (Option α)} {a : α} {k : Nat}
    (h : ((tolerating m).run.run k).1 = .ok (some a)) : (m.run.run k).1 = .ok (some a) := by
  rw [tolerating, Oracle.run_tryCatch] at h
  rcases hm : m.run.run k with ⟨stop | answer, k'⟩
  · rw [hm] at h
    cases stop <;> cases h
  · rw [hm] at h
    exact h

/-- **What is answered is the answer for what is found.** -/
theorem exists_finds_of_inFile (hb : o.broken = none) (hclosed : o.snapshot.Closed) {k : Nat}
    {info : TypeInfo} (h : ((inFile o opts file position).run.run k).1 = .ok (some info)) :
    ∃ n r type, Finds o file position n r type ∧ info = answerFor opts o.snapshot n r type := by
  rcases hkey : o.findDocument file with - | key
  · simp only [inFile, Oracle.documentKey, Oracle.answer_eq hb, pure_bind, hkey] at h
    cases h
  · obtain ⟨d, hd⟩ := Option.isSome_iff_exists.1 (Oracle.isSome_document?_of_findDocument hkey)
    simp only [inFile, Oracle.documentKey, Oracle.answer_eq hb, pure_bind, hkey,
      Oracle.syntaxRoot, Oracle.ofDocument_eq hb hd, atPosition] at h
    -- The guard turns failures into nothing, so an answer comes from the look-up behind it.
    have hstrict := run_of_tolerating h
    have hnode :=
      Node.node_resolve_mem_walk Node.endOfFileKinds d.root (.between position position)
    unfold strictlyAt at hstrict
    simp only [Oracle.symbolAt, Oracle.answer_eq hb, pure_bind] at hstrict
    split at hstrict
    · cases hstrict
    · rcases hsymbol : (d.root.resolve Node.endOfFileKinds
          (.between position position)).node.symbol with - | symbol
      · rw [hsymbol] at hstrict
        cases hstrict
      · rw [hsymbol] at hstrict
        obtain ⟨target, r, type, htarget, hr, htype, hafter⟩ := ofSymbol_eq_after opts hb hclosed
          (d.root.resolve Node.endOfFileKinds (.between position position))
          (hclosed.nodes hd _ hnode symbol hsymbol)
        refine ⟨_, r, type, .found hkey hd hsymbol htarget hr htype, ?_⟩
        simp only [hafter, bind_pure_comp, Oracle.map_after] at hstrict
        exact Option.some.inj (Oracle.eq_of_run_after hb (Prod.ext hstrict rfl))

/-- Everything that is stored in an answer is what would be made for it. -/
theorem fresh_answerFor (s : Snapshot) (n : Located) (r : SymbolRecord) (type : TypeRecord) :
    (answerFor opts s n r type).tree.Everywhere Fresh := by
  unfold answerFor
  dsimp only
  split
  · exact fresh_expansion s opts _ 0 []
  · refine everywhere_constructorTree opts s _ _ ?_ ?_ fun t ↦ fresh_expansion s opts t 0 [] <;>
      exact fun parts hparts ↦ by cases hparts

/-- Every node of an answer has something to show. -/
theorem proper_answerFor (s : Snapshot) (n : Located) (r : SymbolRecord) (type : TypeRecord) :
    (answerFor opts s n r type).tree.Everywhere Proper := by
  unfold answerFor
  dsimp only
  split
  · exact proper_expansion s opts _ 0 []
  · exact everywhere_constructorTree opts s _ _ trivial trivial fun t ↦
      proper_expansion s opts t 0 []

/-- Above the greatest depth a constructor is told by what is stored with it, which is nothing. -/
theorem constructsAt_iff_parts_eq_none (hb : o.broken = none) (hclosed : o.snapshot.Closed)
    (hopts : opts.displayParts = true) (hdepth : 0 < opts.maxDepth) {k : Nat} {info : TypeInfo}
    (h : ((inFile o opts file position).run.run k).1 = .ok (some info)) :
    ConstructsAt o file position ↔ info.tree.label.parts = none := by
  obtain ⟨n, r, type, hfinds, rfl⟩ := exists_finds_of_inFile hb hclosed h
  rw [← signaturesAt_ne_nil_iff hfinds]
  rcases hsignatures : signaturesAt n (shownKind r.declarationKind) type with - | ⟨c, rest⟩
  · cases hfinds with
    | found hkey hd hsymbol htarget hr htype =>
      have hstored := parts_label_expansion opts hopts (shownType_eq hb hclosed hr).2
        (Int.natCast_pos.2 hdepth) []
      simp [answerFor, hsignatures, hstored]
  · simp [answerFor, hsignatures, constructorTree, label, named]

end

/-- **Where the two renderings of an answer agree.** For a snapshot that was read, when display
parts are made and a look-up answers, under any schedule of cancellation: where a `new` expression
names a class that can be constructed, the answer is displayed by its name alone, which is not its
text. Everywhere else the texts of the displayed parts, put together, are the text, if no enum
member is a dot followed by a text without a dot and no member of a union reads as a truth value
unless it is a leaf. Under the same condition the parts that are made for the answer spell its text
everywhere. -/
theorem inFile_spelling {bytes : ByteArray} {o : Oracle}
    (hparse : Snapshot.parse bytes = .ok o.snapshot) (hb : o.broken = none) {opts : Options}
    (hopts : opts.displayParts = true) {file : String} {position : Int} {k : Nat}
    {info : TypeInfo}
    (hanswer : ((inFile o opts file position).run.run k).1 = .ok (some info)) :
    (ConstructsAt o file position →
      textOf info.tree.displayParts = info.name ∧ info.tree.text ≠ info.name) ∧
    ((info.tree.Everywhere fun u ↦ ∀ l m, u = .enumMember l m →
        ¬∃ own : String, m = "." ++ own ∧ '.' ∉ own.toList) →
      (info.tree.Everywhere fun u ↦ ∀ l ms e, u = .union l ms e →
        ∀ m ∈ ms, m.isLeaf = false → m.text ≠ "true" ∧ m.text ≠ "false") →
      textOf info.tree.builtParts = info.tree.text ∧
      (¬ConstructsAt o file position → textOf info.tree.displayParts = info.tree.text)) := by
  have hclosed := Snapshot.closed_of_parse hparse
  obtain ⟨n, r, type, hfinds, rfl⟩ := exists_finds_of_inFile hb hclosed hanswer
  have hconstructs := signaturesAt_ne_nil_iff hfinds
  refine ⟨fun h ↦ ?_, fun henum hunion ↦ ?_⟩
  · rw [← hconstructs] at h
    obtain ⟨c, rest, hc⟩ := List.exists_cons_of_ne_nil h
    simp only [answerFor, hc]
    exact ⟨textOf_displayParts_of_parts_eq_none rfl, text_constructorTree_ne _ _ _ _⟩
  · -- Every answer is proper. With the conditions on enum members and unions it is legible, too.
    have hlegible : (answerFor opts o.snapshot n r type).tree.Everywhere Legible :=
      fun above u hu ↦ (proper_answerFor o.snapshot n r type above u hu).legible
        (henum above u hu) (hunion above u hu)
    refine ⟨textOf_builtParts_of_fresh (fresh_answerFor _ _ _ _) hlegible, fun h ↦ ?_⟩
    rw [← hconstructs, not_not] at h
    simp only [answerFor, h] at hlegible ⊢
    cases hfinds with
    | found hkey hd hsymbol htarget hr htype =>
      exact textOf_displayParts_expansion hopts (shownType_eq hb hclosed hr).2 hlegible

/-! ### A sample

A class with a constructor, a point of that class, and a document that makes one: `p = new P`. -/

/-- The lines of the sample as a file. -/
def pointLines : List String :=
  ["\x7b\"types\": \x7b\"class\":", "\x7b\"name\": \"typeof P\",", "\"constructSignatures\": [\x7b",
    "\"parameters\": [\x7b", "\"name\": \"x\", \"type\": \"num\"\x7d],",
    "\"returnType\": \"point\"\x7d]\x7d,", "\"point\": \x7b\"name\": \"P\",",
    "\"category\": \"object\",", "\"properties\": [\x7b", "\"name\": \"x\",",
    "\"type\": \"num\"\x7d]\x7d,", "\"num\": \x7b\"name\": \"number\",",
    "\"category\": \"primitive\"\x7d\x7d,", "\"symbols\": \x7b", "\"p\": \x7b\"name\": \"p\",",
    "\"type\": \"point\"\x7d,", "\"P\": \x7b\"name\": \"P\",", "\"type\": \"class\",",
    "\"declaredType\": \"point\",", "\"declarationKind\":", "\"ClassDeclaration\"\x7d\x7d,",
    "\"documents\": \x7b\"p.ts\":", "\x7b\"text\": \"p = new P\",", "\"root\": \x7b",
    "\"kind\": \"SourceFile\",", "\"start\": 0, \"end\": 9,", "\"children\": [\x7b",
    "\"kind\": \"Identifier\",", "\"start\": 0, \"end\": 1,", "\"symbol\": \"p\"\x7d,",
    "\x7b\"kind\": \"NewExpression\",", "\"start\": 4, \"end\": 9,", "\"children\": [\x7b",
    "\"kind\": \"Identifier\",", "\"start\": 8, \"end\": 9,",
    "\"symbol\": \"P\"\x7d]\x7d]\x7d\x7d\x7d\x7d"]

/-- The sample as a file. -/
def pointText : String :=
  .ofList (pointLines.flatMap fun line ↦ line.toList ++ ['\n'])

/-- Whether the answer at a position of the sample passes a test. -/
def pointTest (position : Int) (test : TypeInfo → Bool) (s : Snapshot) : Bool :=
  match ((inFile ⟨s, "/", none, none⟩ { displayParts := true } "p.ts" position).run.run 0).1 with
  | .ok (some info) => test info
  | _ => false

theorem of_pointTest {position : Int} {test : TypeInfo → Bool} {s : Snapshot}
    (h : pointTest position test s = true) : ∃ info,
      ((inFile ⟨s, "/", none, none⟩ { displayParts := true } "p.ts" position).run.run 0).1 =
        .ok (some info) ∧ test info = true := by
  unfold pointTest at h
  split at h
  · next info hinfo => exact ⟨info, hinfo, h⟩
  · cases h

/-- Whether an answer is an object with one primitive property, which stores display parts. -/
def isPoint (info : TypeInfo) : Bool :=
  match info.tree with
  | .object l [⟨_, _, _, .primitive _⟩] _ => l.parts.isSome
  | _ => false

theorem of_isPoint {info : TypeInfo} (h : isPoint info = true) : ∃ l name optional readonly l' e,
    info.tree = .object l [⟨name, optional, readonly, .primitive l'⟩] e ∧ l.parts.isSome := by
  unfold isPoint at h
  split at h
  · next htree => exact ⟨_, _, _, _, _, _, htree, h⟩
  · cases h

/-- The point of the sample is displayed as its text, and its class by its name. -/
theorem inFile_spelling_sample : ∃ s point constructor, Snapshot.parse pointText.toUTF8 = .ok s ∧
    ((inFile ⟨s, "/", none, none⟩ { displayParts := true } "p.ts" 0).run.run 0).1 =
      .ok (some point) ∧
    ¬ConstructsAt ⟨s, "/", none, none⟩ "p.ts" 0 ∧
    textOf point.tree.displayParts = point.tree.text ∧
    ((inFile ⟨s, "/", none, none⟩ { displayParts := true } "p.ts" 8).run.run 0).1 =
      .ok (some constructor) ∧
    ConstructsAt ⟨s, "/", none, none⟩ "p.ts" 8 ∧
    textOf constructor.tree.displayParts = constructor.name ∧
    constructor.tree.text ≠ constructor.name := by
  obtain ⟨s, hparse, htest⟩ : ∃ s, Snapshot.parse pointText.toUTF8 = .ok s ∧
      (pointTest 0 isPoint s && pointTest 8 (fun info ↦ info.tree.label.parts == none) s) = true :=
    Snapshot.exists_of_parse_toUTF8 (by decide +kernel)
  rw [Bool.and_eq_true] at htest
  obtain ⟨point, hpoint, hshape⟩ := of_pointTest htest.1
  obtain ⟨constructor, hconstructor, hnone⟩ := of_pointTest htest.2
  obtain ⟨l, name, optional, readonly, l', e, htree, hstored⟩ := of_isPoint hshape
  have hclosed := Snapshot.closed_of_parse hparse
  have hclass : ConstructsAt ⟨s, "/", none, none⟩ "p.ts" 8 :=
    (constructsAt_iff_parts_eq_none rfl hclosed rfl (by decide) hconstructor).2 (eq_of_beq hnone)
  have hplain : ¬ConstructsAt ⟨s, "/", none, none⟩ "p.ts" 0 := by
    rw [constructsAt_iff_parts_eq_none rfl hclosed rfl (by decide) hpoint, htree]
    exact Option.isSome_iff_ne_none.1 hstored
  -- There is neither an enum member nor a union in the point.
  have hnodes : ∀ {P : Tree → Prop}, (∀ l ps e, P (.object l ps e)) → (∀ l, P (.primitive l)) →
      point.tree.Everywhere P := by
    intro P hobject hprimitive
    rw [htree]
    refine everywhere_iff.2 ⟨hobject _ _ _, ?_⟩
    simpa [branches] using everywhere_of_isLeaf rfl (hprimitive l')
  have hdisplayed := ((inFile_spelling (o := ⟨s, "/", none, none⟩) hparse rfl rfl hpoint).2
    (hnodes (by rintro _ _ _ _ _ ⟨⟩) (by rintro _ _ _ ⟨⟩))
    (hnodes (by rintro _ _ _ _ _ _ ⟨⟩) (by rintro _ _ _ _ ⟨⟩))).2 hplain
  have hnamed :=
    (inFile_spelling (o := ⟨s, "/", none, none⟩) hparse rfl rfl hconstructor).1 hclass
  exact ⟨s, point, constructor, hparse, hpoint, hplain, hdisplayed, hconstructor, hclass, hnamed⟩

/-- **A class that is constructed is displayed by its name**, while its text is that of its
constructor. -/
theorem constructor_displayed_by_name : ∃ s info, Snapshot.parse pointText.toUTF8 = .ok s ∧
    ((inFile ⟨s, "/", none, none⟩ { displayParts := true } "p.ts" 8).run.run 0).1 =
      .ok (some info) ∧
    textOf info.tree.displayParts = "P" ∧ info.tree.text = "(x: number) => P" := by
  obtain ⟨s, hparse, htest⟩ : ∃ s, Snapshot.parse pointText.toUTF8 = .ok s ∧
      pointTest 8 (fun info ↦ textOf info.tree.displayParts == "P" &&
        info.tree.text == "(x: number) => P") s = true :=
    Snapshot.exists_of_parse_toUTF8 (by decide +kernel)
  obtain ⟨info, hinfo, hboth⟩ := of_pointTest htest
  rw [Bool.and_eq_true, beq_iff_eq, beq_iff_eq] at hboth
  exact ⟨s, info, hparse, hinfo, hboth⟩

end Lookup

end TypeLens
