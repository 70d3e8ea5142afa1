import TypeLens.Lookup
import TypeLens.Proofs.Build.Expansion
import TypeLens.Proofs.Graph.Alias
import TypeLens.Proofs.Graph.Document
import TypeLens.Proofs.Graph.Resolve

/-!
# A snapshot that was read can be queried everywhere

A look-up answers nothing when there is nothing to show, and also when the oracle fails on the way;
a reader of the answer cannot tell the two apart. For a snapshot that was read the second never
happens: the look-up is in normal form without the guard that swallows failures
(`strictlyAt_eq_after`), so that it answers nothing exactly where there is nothing to show
(`inFile_answers`).

The argument follows the look-up: the node at the position is a node of the document, its symbol
exists since nodes refer to existing symbols only, so does the symbol it is an alias of, and so do
the types of that symbol; and expanding an existing type answers.
-/

namespace TypeLens.Lookup

open TypeLens.Graph TypeLens.Build

variable {o : Oracle} (opts : Options)

/-! ### Symbols -/

/-- The symbol an existing symbol is an alias of exists. -/
theorem aliasedSymbol_eq (hb : o.broken = none) (hclosed : o.snapshot.Closed) {id : SymbolId}
    (hid : (o.snapshot.symbol? id).isSome) :
    ∃ target r, Oracle.aliasFrom o.snapshot o.snapshot.symbols.length [id] id = .ok target ∧
      o.aliasedSymbol id = pure target ∧ o.snapshot.symbol? target = some r := by
  obtain ⟨target, hanswer, hsome, hfrom, -⟩ :=
    Oracle.exists_aliasedSymbol hclosed (by simp [hb]) hid
  obtain ⟨r, hr⟩ := Option.isSome_iff_exists.1 hsome
  exact ⟨target, r, hfrom 0, hanswer, hr⟩

/-! ### The answer for a symbol

For a symbol that exists the answer can be read off its record and the record of its type. -/

/-- The construct signatures that are looked at: those of a class that a `new` expression names. -/
def signaturesAt (n : Located) (kind : String) (type : TypeRecord) : List SignatureRecord :=
  if kind = "ClassDeclaration" ∧ n.parentKind = some "NewExpression" then type.constructSignatures
  else []

/-- The type that is shown for a symbol. -/
def typeFor (r : SymbolRecord) : TypeId :=
  if r.declarationKind.any Declaration.variableKinds.contains then r.type
  else r.declaredType.getD r.type

/-- The name a symbol is shown under. -/
def nameFor (r : SymbolRecord) (type : TypeRecord) : String :=
  if r.name = "" then type.name else r.name

/-- The tree of a constructor. -/
def constructorTree (s : Snapshot) (name : String) (c : Callable) : Tree :=
  .function (named name)
    [⟨.reference (named name),
      c.parameters.map (parameterTree (fun t d ↦ expansion s opts t d []) 0)⟩] 0

/-- The answer for a symbol at a node. -/
def answerFor (s : Snapshot) (n : Located) (r : SymbolRecord) (type : TypeRecord) : TypeInfo :=
  let kind := shownKind r.declarationKind
  let name := nameFor r type
  match signaturesAt n kind type with
  | [] =>
    ⟨expansion s opts (typeFor r) 0 [], Declaration.opening (some kind) name, name, some kind⟩
  | c :: _ =>
    ⟨constructorTree opts s name c.callable, Declaration.opening (some "Constructor") name, name,
      some "Constructor"⟩

/-- When no answer is broken, the signatures at a node are those of its type. -/
theorem instantiated_eq (hb : o.broken = none) {t : TypeId} {type : TypeRecord}
    (htype : o.snapshot.type? t = some type) (n : Located) (kind : String) :
    instantiated o n t kind =
      pure ((signaturesAt n kind type).map SignatureRecord.callable) := by
  by_cases hkind : kind = "ClassDeclaration"
  · by_cases hparent : n.parentKind = some "NewExpression" <;>
      simp [instantiated, Oracle.isInstantiation, Oracle.answer_eq hb,
        Oracle.constructSignatures, Oracle.ofType_eq hb htype, signaturesAt, hkind, hparent]
  · simp [instantiated, signaturesAt, hkind]

/-- The type that is shown for a symbol exists. -/
theorem shownType_eq (hb : o.broken = none) (hclosed : o.snapshot.Closed) {id : SymbolId}
    {r : SymbolRecord} (hr : o.snapshot.symbol? id = some r) :
    shownType o id r.declarationKind r.type = pure (typeFor r) ∧
      (o.snapshot.type? (typeFor r)).isSome := by
  simp only [shownType, typeFor, Oracle.declaredType, Oracle.ofSymbol_eq hb hr, pure_bind]
  split
  · exact ⟨rfl, hclosed.symbolType hr⟩
  · refine ⟨rfl, ?_⟩
    rcases hdeclared : r.declaredType with - | t
    · exact hclosed.symbolType hr
    · exact hclosed.declaredType hr t hdeclared

/-- The constructor of a class is in normal form. -/
theorem constructor_eq_after (hb : o.broken = none) (hclosed : o.snapshot.Closed) {t : TypeId}
    {r : TypeRecord} (hr : o.snapshot.type? t = some r) {c : SignatureRecord}
    (hc : c ∈ r.constructSignatures) (name : String) :
    constructor o opts name c.callable =
      o.after (constructorTree opts o.snapshot name c.callable).entries
        (constructorTree opts o.snapshot name c.callable) := by
  set f : TypeId → Int → Tree := fun t d ↦ expansion o.snapshot opts t d []
  have hsettled : Settled o (fun t d ↦ Build.tree o opts t d []) f r.references :=
    fun ref href depth ↦ tree_eq_after hb hclosed (hclosed.references hr ref href) depth []
  have hparameters := (TypeRecord.mem_references_of_signature (r := r)
    (List.mem_append_right r.callSignatures hc)).2
  have hmap := Oracle.mapM_eq_after (fun a : Argument ↦ (f a.type 0).entries) (parameterTree f 0)
    fun a ha ↦ parameter_eq_after hsettled (hparameters a ha) 0
  have hresult : (Tree.reference (named name)).entries = 0 := Tree.entries_of_isLeaf rfl
  rw [constructor, hmap, bind_pure_comp, Oracle.map_after, constructorTree, Tree.entries_function]
  simp [Signature.types, Function.comp_def, parameterTree, hresult, f]

/-- When no answer is broken, the name that is shown is that of the symbol or of its type. -/
theorem shownName_eq (hb : o.broken = none) {id : SymbolId} {r : SymbolRecord} {type : TypeRecord}
    (hr : o.snapshot.symbol? id = some r) (htype : o.snapshot.type? r.type = some type) :
    shownName o id r.type = pure (nameFor r type) := by
  simp only [shownName, nameFor, Oracle.symbolName, Oracle.ofSymbol_eq hb hr, pure_bind,
    Oracle.typeName, Oracle.ofType_eq hb htype]
  split <;> rfl

/-- **The answer for a symbol that exists** comes after one cancellation check for each property of
its tree. -/
theorem ofSymbol_eq_after (hb : o.broken = none) (hclosed : o.snapshot.Closed) (n : Located)
    {symbol : SymbolId} (hs : (o.snapshot.symbol? symbol).isSome) :
    ∃ target r type,
      Oracle.aliasFrom o.snapshot o.snapshot.symbols.length [symbol] symbol = .ok target ∧
      o.snapshot.symbol? target = some r ∧ o.snapshot.type? r.type = some type ∧
      ofSymbol o opts n symbol =
        o.after (answerFor opts o.snapshot n r type).tree.entries
          (answerFor opts o.snapshot n r type) := by
  obtain ⟨target, r, hfrom, htarget, hr⟩ := aliasedSymbol_eq hb hclosed hs
  obtain ⟨type, htype⟩ := Option.isSome_iff_exists.1 (hclosed.symbolType hr)
  obtain ⟨hshown, hexists⟩ := shownType_eq hb hclosed hr
  refine ⟨target, r, type, hfrom, hr, htype, ?_⟩
  simp only [ofSymbol, htarget, Oracle.symbolType, Oracle.declarationKind,
    Oracle.ofSymbol_eq hb hr, pure_bind, shownName_eq hb hr htype, Oracle.constructSignatures,
    Oracle.ofType_eq hb htype, instantiated_eq hb htype, answerFor]
  rcases hsignatures : signaturesAt n (shownKind r.declarationKind) type with - | ⟨c, rest⟩
  · simp only [List.map_nil, List.isEmpty_nil, if_true]
    rw [hshown, pure_bind, tree_eq_after hb hclosed hexists, bind_pure_comp, Oracle.map_after]
  · -- The signatures are asked for once more, and are the same.
    have hown : type.constructSignatures = c :: rest := by
      unfold signaturesAt at hsignatures
      split at hsignatures
      · exact hsignatures
      · cases hsignatures
    simp only [hown, List.map_cons, List.isEmpty_cons, Bool.false_eq_true, if_false]
    rw [constructor_eq_after opts hb hclosed htype (hown ▸ List.mem_cons_self), bind_pure_comp,
      Oracle.map_after]

/-! ### The answer at a position -/

/-- The answer at a position of a syntax tree, read off the records: nothing at the root and at a
node that stands for no symbol. -/
def answerAt (s : Snapshot) (root : Node) (position : Int) : Option TypeInfo := do
  let n := root.resolve Node.endOfFileKinds (.between position position)
  let symbol ← if n.path.isEmpty then none else n.node.symbol
  let target ← (Oracle.aliasFrom s s.symbols.length [symbol] symbol).toOption
  let r ← s.symbol? target
  let type ← s.type? r.type
  return answerFor opts s n r type

section

variable (hb : o.broken = none) (hclosed : o.snapshot.Closed) {key : String} {d : Document}
  (hd : o.snapshot.document? key = some d) (position : Int)

include hb hclosed hd

/-- **At a position of a document the oracle does not fail.** The answer comes after one
cancellation check for each property of its tree, and is nothing exactly when the node at the
position is the root or stands for no symbol. -/
theorem strictlyAt_eq_after_answerAt :
    strictlyAt o opts d.root position =
        o.after ((answerAt opts o.snapshot d.root position).elim 0 fun info ↦ info.tree.entries)
          (answerAt opts o.snapshot d.root position) ∧
      (answerAt opts o.snapshot d.root position = none ↔
        d.root.resolve Node.endOfFileKinds (.between position position) = d.root.located ∨
        (d.root.resolve Node.endOfFileKinds (.between position position)).node.symbol = none) := by
  have hroot := Node.resolve_path_eq_nil_iff Node.endOfFileKinds d.root (.between position position)
  have hnode := Node.node_resolve_mem_walk Node.endOfFileKinds d.root (.between position position)
  unfold strictlyAt answerAt
  set n := d.root.resolve Node.endOfFileKinds (.between position position)
  simp only [Oracle.symbolAt, Oracle.answer_eq hb, pure_bind]
  by_cases hpath : n.path = []
  · rw [hpath]
    exact ⟨(Oracle.after_zero _).symm, by simp [hroot.1 hpath]⟩
  · have hbelow : n ≠ d.root.located := fun h ↦ hpath (hroot.2 h)
    rw [if_neg (by simpa using hpath), if_neg (by simpa using hpath)]
    rcases hsymbol : n.node.symbol with - | symbol
    · exact ⟨(Oracle.after_zero _).symm, by simp⟩
    · obtain ⟨target, r, type, htarget, hr, htype, hinfo⟩ :=
        ofSymbol_eq_after opts hb hclosed n (hclosed.nodes hd n.node hnode symbol hsymbol)
      simp only [hinfo, bind_pure_comp, Oracle.map_after, Option.bind_eq_bind, Option.bind_some,
        htarget, Except.toOption, hr, htype]
      exact ⟨rfl, by simp [hbelow]⟩

/-- A look-up makes one check for each entry of the tree it answers. It answers nothing exactly if
the most specific node is the root or stands for no symbol. -/
theorem strictlyAt_eq_after :
    ∃ answer : Option TypeInfo,
      strictlyAt o opts d.root position =
        o.after (answer.elim 0 fun info ↦ info.tree.entries) answer ∧
      (answer = none ↔
        d.root.resolve Node.endOfFileKinds (.between position position) = d.root.located ∨
        (d.root.resolve Node.endOfFileKinds (.between position position)).node.symbol = none) :=
  ⟨_, strictlyAt_eq_after_answerAt opts hb hclosed hd position⟩

end

/-- The guard leaves alone what does not fail. -/
theorem run_tolerating {α : Type} {m : Asked (Option α)} {answer : Option α} {k k' : Nat}
    (h : m.run.run k = (.ok answer, k')) : (tolerating m).run.run k = (.ok answer, k') := by
  rw [tolerating, Oracle.run_tryCatch, h]

/-- **A snapshot that was read can be queried everywhere.** Without a cancellation, a look-up in any
file at any position answers. For a file that is found, the answer comes from the look-up without
the guard, so that no failure was swallowed. And it is nothing exactly when no document is found for
the file, or the node at the position is the root of the document or stands for no symbol. -/
theorem inFile_answers {bytes : ByteArray} (hparse : Snapshot.parse bytes = .ok o.snapshot)
    (hb : o.broken = none) (hc : o.cancelFrom = none) (file : String) (position : Int) (k : Nat) :
    ∃ answer, ((inFile o opts file position).run.run k).1 = .ok answer ∧
      (∀ key, o.findDocument file = some key → ∃ d, o.snapshot.document? key = some d ∧
        ((strictlyAt o opts d.root position).run.run k).1 = .ok answer) ∧
      (answer = none ↔ o.findDocument file = none ∨
        ∃ key d, o.findDocument file = some key ∧ o.snapshot.document? key = some d ∧
          (d.root.resolve Node.endOfFileKinds (.between position position) = d.root.located ∨
            (d.root.resolve Node.endOfFileKinds (.between position position)).node.symbol =
              none)) := by
  have hclosed := Snapshot.closed_of_parse hparse
  rcases hfile : o.findDocument file with - | key
  · refine ⟨none, ?_, by simp, by simp⟩
    simp only [inFile, Oracle.documentKey, Oracle.answer_eq hb, pure_bind, hfile]
    rfl
  · obtain ⟨d, hd⟩ := Option.isSome_iff_exists.1 (Oracle.isSome_document?_of_findDocument hfile)
    obtain ⟨answer, hanswer, hnone⟩ := strictlyAt_eq_after opts hb hclosed hd position
    -- Without the guard the look-up runs to its end, so the guard has nothing to swallow.
    have hrun := Oracle.run_after hb hc (answer.elim 0 fun info ↦ info.tree.entries) answer k
    rw [← hanswer] at hrun
    refine ⟨answer, ?_, ?_, ?_⟩
    · simp only [inFile, Oracle.documentKey, Oracle.answer_eq hb, pure_bind, hfile,
        Oracle.syntaxRoot, Oracle.ofDocument_eq hb hd]
      rw [atPosition, run_tolerating hrun]
    · rintro key' hkey
      obtain rfl := Option.some.inj hkey
      exact ⟨d, hd, by rw [hrun]⟩
    · rw [hnone]
      constructor
      · intro h
        exact .inr ⟨key, d, rfl, hd, h⟩
      · rintro (h | ⟨key', d', hkey, hd', h⟩)
        · cases h
        · obtain rfl := Option.some.inj hkey
          obtain rfl := Option.some.inj (hd.symm.trans hd')
          exact h

/-- The symbol at the start of the sample's document. -/
theorem inFile_answers_sample : ∃ s, Snapshot.parse Snapshot.sampleText.toUTF8 = .ok s ∧
    ∃ info, ((inFile ⟨s, "/", none, none⟩ {} "list.ts" 0).run.run 0).1 = .ok (some info) := by
  obtain ⟨s, hparse, htest⟩ : ∃ s, Snapshot.parse Snapshot.sampleText.toUTF8 = .ok s ∧
      (s.document? "list.ts").any (fun d ↦
        let n := d.root.resolve Node.endOfFileKinds (.between 0 0)
        !n.path.isEmpty && n.node.symbol.isSome) = true :=
    Snapshot.exists_of_parse_toUTF8 (by decide +kernel)
  obtain ⟨d, hd, hn⟩ := (Option.any_eq_true _ _).1 htest
  obtain ⟨hpath, hsymbol⟩ : (d.root.resolve Node.endOfFileKinds (.between 0 0)).path ≠ [] ∧
      (d.root.resolve Node.endOfFileKinds (.between 0 0)).node.symbol ≠ none := by
    simpa [Option.isSome_iff_ne_none] using hn
  have hkey : (⟨s, "/", none, none⟩ : Oracle).findDocument "list.ts" = some "list.ts" := by
    obtain ⟨entry, hentry, hname⟩ := List.lookup_isSome_iff.1 (Option.isSome_of_mem hd)
    exact if_pos (List.mem_map.2 ⟨entry, hentry, (eq_of_beq hname).symm⟩)
  obtain ⟨answer, hanswer, -, hnone⟩ := inFile_answers {} (o := ⟨s, "/", none, none⟩) hparse rfl rfl
    "list.ts" 0 0
  rcases answer with - | info
  · rcases hnone.1 rfl with hfile | ⟨key, d', hkey', hd', hresolved⟩
    · rw [hkey] at hfile
      cases hfile
    · obtain rfl := Option.some.inj (hkey.symm.trans hkey')
      obtain rfl := Option.some.inj (hd.symm.trans hd')
      rcases hresolved with hroot | hbare
      · exact absurd ((Node.resolve_path_eq_nil_iff ..).2 hroot) hpath
      · exact absurd hbare hsymbol
  · exact ⟨s, hparse, info, hanswer⟩

end TypeLens.Lookup
