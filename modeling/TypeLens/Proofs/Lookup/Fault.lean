import TypeLens.Proofs.Graph.Fault
import TypeLens.Proofs.Lookup.Total

/-!
# A broken oracle never misleads

A question that the oracle is broken for stops the expansion of a type, wherever it is asked: while
the form of the type is looked for, while the members of a union are sorted, or far below. What is
expanded without asking it comes out as if the oracle were not broken. So an expansion crashes or
answers the tree it would answer otherwise (`tree_shadows`), and a look-up answers nothing or what
it would answer otherwise (`fault_never_misleads`).

Each function of the expansion shadows its mended version when the expansion of the types below it
does; the recursion then goes by the budget of levels.
-/

namespace TypeLens

namespace Build

open TypeLens.Graph

/-! ### One type -/

section

variable (o : Oracle) (opts : Options) {child child' : TypeId → Int → Asked Tree} (t : TypeId)
  (name : String) (depth : Int)

/-- Sorting the members of a union is shadowed, for it only asks for ranks. -/
theorem sortMembers_shadows (members : List TypeId) :
    Shadows (sortMembers o members) (sortMembers o.mended members) := by
  have hrank : ∀ t, Shadows (rank o t) (rank o.mended t) := by
    intro t
    refine (o.ofType_shadows _ _ _).bind fun primitive ↦ ?_
    cases primitive with
    | true => exact (o.ofType_shadows _ _ _).bind fun _ ↦ .refl _
    | false => exact .refl _
  exact (Shadows.mapM (fun t ↦ (hrank t).bind fun _ ↦ .refl _) members).bind fun _ ↦ .refl _

theorem enumForm_shadows : Shadows (enumForm o t name) (enumForm o.mended t name) := by
  refine (o.ofType_shadows _ _ _).bind fun member ↦ ?_
  cases member <;> exact .refl _

variable (h : ∀ t depth, Shadows (child t depth) (child' t depth))

include h

theorem argument_shadows (unresolved : String) (x : Option TypeId) :
    Shadows (argument child unresolved depth x) (argument child' unresolved depth x) := by
  cases x with
  | some t => exact h t depth
  | none => exact .refl _

theorem parameter_shadows (a : Argument) :
    Shadows (parameter child depth a) (parameter child' depth a) :=
  (h a.type depth).bind fun _ ↦ .refl _

theorem signature_shadows (s : Callable) :
    Shadows (signature child depth s) (signature child' depth s) := by
  refine (argument_shadows depth h _ _).bind fun _ ↦ ?_
  exact (Shadows.mapM (parameter_shadows depth h) _).bind fun _ ↦ .refl _

theorem unionForm_shadows :
    Shadows (unionForm o opts child t name depth)
      (unionForm o.mended opts child' t name depth) := by
  refine (o.ofType_shadows _ _ _).bind fun members ↦ ?_
  rcases members with - | - | ⟨m, ms⟩
  · exact .refl _
  · exact .refl _
  · refine (sortMembers_shadows o _).bind fun shown ↦ ?_
    exact (Shadows.mapM (h · depth) shown).bind fun _ ↦ .refl _

theorem intersectionForm_shadows :
    Shadows (intersectionForm o child t name depth)
      (intersectionForm o.mended child' t name depth) := by
  refine (o.ofType_shadows _ _ _).bind fun members ↦ ?_
  rcases members with - | - | ⟨m, ms⟩
  · exact .refl _
  · exact .refl _
  · exact (Shadows.mapM (h · depth) _).bind fun _ ↦ .refl _

theorem promiseForm_shadows :
    Shadows (promiseForm o child t name depth) (promiseForm o.mended child' t name depth) := by
  refine (o.ofType_shadows _ _ _).bind fun fits ↦ ?_
  cases fits with
  | true =>
    refine (o.ofType_shadows _ _ _).bind fun arguments ↦ ?_
    exact (argument_shadows depth h _ _).bind fun _ ↦ .refl _
  | false => exact .refl _

theorem functionForm_shadows :
    Shadows (functionForm o opts child t name depth)
      (functionForm o.mended opts child' t name depth) := by
  refine (o.ofType_shadows _ _ _).bind fun signatures ↦ ?_
  cases signatures with
  | nil => exact .refl _
  | cons => exact (Shadows.mapM (signature_shadows _ h) _).bind fun _ ↦ .refl _

theorem arrayForm_shadows :
    Shadows (arrayForm o opts child t name depth)
      (arrayForm o.mended opts child' t name depth) := by
  refine (o.ofType_shadows _ _ _).bind fun fits ↦ ?_
  cases fits with
  | true =>
    refine (o.ofType_shadows _ _ _).bind fun arguments ↦ ?_
    refine (o.ofType_shadows _ _ _).bind fun readonly ↦ ?_
    exact (argument_shadows _ h _ _).bind fun _ ↦ .refl _
  | false => exact .refl _

theorem tupleForm_shadows :
    Shadows (tupleForm o child t name depth) (tupleForm o.mended child' t name depth) := by
  refine (o.ofType_shadows _ _ _).bind fun fits ↦ ?_
  cases fits with
  | true =>
    refine (o.ofType_shadows _ _ _).bind fun readonly ↦ ?_
    refine (o.ofType_shadows _ _ _).bind fun arguments ↦ ?_
    exact (Shadows.mapM (argument_shadows depth h _) _).bind fun _ ↦ .refl _
  | false => exact .refl _

theorem object_shadows :
    Shadows (object o opts child t name depth) (object o.mended opts child' t name depth) := by
  have hindex : ∀ s, Shadows (indexProperty o child depth s)
      (indexProperty o.mended child' depth s) := fun s ↦
    o.poll_shadows.bind fun _ ↦ (h s.type _).bind fun _ ↦ .refl _
  have hmember : ∀ m, Shadows (memberProperty o child depth m)
      (memberProperty o.mended child' depth m) := fun m ↦
    o.poll_shadows.bind fun _ ↦ (h m.type _).bind fun _ ↦ .refl _
  refine (o.ofType_shadows _ _ _).bind fun all ↦ ?_
  refine (o.ofType_shadows _ _ _).bind fun indexes ↦ ?_
  refine (Shadows.mapM hindex _).bind fun _ ↦ ?_
  exact (Shadows.mapM hmember _).bind fun _ ↦ .refl _

/-- A generic type is shadowed if its arguments are. -/
theorem genericForm_shadows :
    Shadows (genericForm o opts child t name depth)
      (genericForm o.mended opts child' t name depth) := by
  refine (o.ofType_shadows _ _ _).bind fun target ↦ ?_
  refine Shadows.ite_bind (.refl _) (o.ofType_shadows _ _ _) fun arguments ↦ ?_
  have hgeneric := (Shadows.mapM (argument_shadows depth h "unknown") arguments).bind fun trees ↦
    .refl (pure (Tree.generic (named (target.getD "")) trees))
  -- Whether the type is an object is asked in two places, each with an outcome of its own.
  have hobject : ∀ {m m' : Asked Tree}, Shadows m m' →
      Shadows (do if ← o.isObject t then object o opts child t name depth else m)
        (do if ← o.mended.isObject t then object o.mended opts child' t name depth else m') := by
    intro m m' hm
    refine (o.ofType_shadows _ _ _).bind fun isObject ↦ ?_
    cases isObject with
    | true => exact object_shadows o opts t name depth h
    | false => exact hm
  dsimp only
  split_ifs
  · exact .refl _
  · exact hgeneric
  · exact hobject hgeneric
  · exact hobject (.refl _)

omit h in
/-- The first attempt that succeeds is shadowed if all attempts are. -/
theorem firstOf_shadows {attempts attempts' : List (Asked (Option Tree))} {last last' : Asked Tree}
    (hattempts : List.Forall₂ Shadows attempts attempts') (hlast : Shadows last last') :
    Shadows (firstOf attempts last) (firstOf attempts' last') := by
  induction hattempts with
  | nil => exact hlast
  | cons hattempt _ ih =>
    refine hattempt.bind fun answer ↦ ?_
    cases answer with
    | some T => exact .refl _
    | none => exact ih

/-- **The step.** A type is expanded to what it would be expanded to, or the expansion crashes. -/
theorem node_shadows :
    Shadows (node o opts child t name depth) (node o.mended opts child' t name depth) := by
  refine firstOf_shadows ?_ (genericForm_shadows o opts t name depth h)
  exact .cons (enumForm_shadows o t name) <| .cons (unionForm_shadows o opts t name depth h) <|
    .cons (intersectionForm_shadows o t name depth h) <|
    .cons (promiseForm_shadows o t name depth h) <|
    .cons (functionForm_shadows o opts t name depth h) <|
    .cons (arrayForm_shadows o opts t name depth h) <|
    .cons (tupleForm_shadows o t name depth h) .nil

end

/-! ### The whole tree -/

section

variable (o : Oracle) (opts : Options)

/-- A type is shadowed whether it is cut or expanded. -/
theorem leafOr_shadows (t : TypeId) (depth : Int) (way : List TypeId)
    {expand expand' : String → Asked Tree} (h : ∀ name, Shadows (expand name) (expand' name)) :
    Shadows (leafOr o opts t depth way expand) (leafOr o.mended opts t depth way expand') := by
  refine (o.ofType_shadows _ _ _).bind fun name ↦ ?_
  refine (o.ofType_shadows _ _ _).bind fun primitive ↦ ?_
  split_ifs
  · exact .refl _
  · exact .refl _
  · exact .refl _
  · exact .refl _
  · exact h name

/-- **The run.** Whatever the budget, the whole expansion comes out as it would, or crashes. -/
theorem treeWithin_shadows (levels : Nat) (t : TypeId) (depth : Int) (way : List TypeId) :
    Shadows (treeWithin o opts levels t depth way)
      (treeWithin o.mended opts levels t depth way) := by
  induction levels generalizing t depth way with
  | zero => exact (leafOr_shadows o opts t depth way fun _ ↦ .refl _).map _
  | succ levels ih =>
    refine (leafOr_shadows o opts t depth way fun name ↦ ?_).map _
    exact node_shadows o opts t name depth fun t' depth' ↦ ih t' depth' (t :: way)

theorem tree_shadows (t : TypeId) (depth : Int) (way : List TypeId) :
    Shadows (tree o opts t depth way) (tree o.mended opts t depth way) :=
  treeWithin_shadows o opts _ t depth way

end

end Build

namespace Lookup

open TypeLens.Graph TypeLens.Build

/-! ### Look-ups -/

section

variable (o : Oracle) (opts : Options)

theorem instantiated_shadows (n : Located) (t : TypeId) (kind : String) :
    Shadows (instantiated o n t kind) (instantiated o.mended n t kind) := by
  unfold instantiated
  split_ifs
  · refine (o.answer_shadows _ _).bind fun instantiation ↦ ?_
    cases instantiation with
    | true => exact o.ofType_shadows _ _ _
    | false => exact .refl _
  · exact .refl _

theorem shownType_shadows (symbol : SymbolId) (declared : Option String) (t : TypeId) :
    Shadows (shownType o symbol declared t) (shownType o.mended symbol declared t) := by
  unfold shownType
  split_ifs
  · exact .refl _
  · exact (o.ofSymbol_shadows _ _ _).bind fun _ ↦ .refl _

theorem shownName_shadows (symbol : SymbolId) (t : TypeId) :
    Shadows (shownName o symbol t) (shownName o.mended symbol t) := by
  refine (o.ofSymbol_shadows _ _ _).bind fun own ↦ ?_
  split_ifs
  · exact o.ofType_shadows _ _ _
  · exact .refl _

theorem constructor_shadows (name : String) (s : Callable) :
    Shadows (constructor o opts name s) (constructor o.mended opts name s) := by
  refine (Shadows.mapM (parameter_shadows 0 fun t depth ↦ ?_) _).bind fun _ ↦ .refl _
  exact tree_shadows o opts t depth []

/-- What is answered for the symbol at a node is shadowed. -/
theorem ofSymbol_shadows (n : Located) (symbol : SymbolId) :
    Shadows (ofSymbol o opts n symbol) (ofSymbol o.mended opts n symbol) := by
  refine (o.aliasedSymbol_shadows symbol).bind fun target ↦ ?_
  refine (o.ofSymbol_shadows _ _ _).bind fun t ↦ ?_
  refine (o.ofSymbol_shadows _ _ _).bind fun declared ↦ ?_
  refine (shownName_shadows o target t).bind fun name ↦ ?_
  refine (instantiated_shadows o n t _).bind fun signatures ↦ ?_
  cases signatures with
  | nil =>
    refine (shownType_shadows o target declared t).bind fun shown ↦ ?_
    exact (tree_shadows o opts shown 0 []).bind fun _ ↦ .refl _
  | cons =>
    refine (o.ofType_shadows _ _ _).bind fun constructors ↦ ?_
    cases constructors with
    | nil => exact .refl _
    | cons s => exact (constructor_shadows o opts name s).bind fun _ ↦ .refl _

/-- What is answered for a position is shadowed. -/
theorem strictlyAt_shadows (root : Node) (position : Int) :
    Shadows (strictlyAt o opts root position) (strictlyAt o.mended opts root position) := by
  unfold strictlyAt
  dsimp only
  split_ifs
  · exact .refl _
  · refine (o.answer_shadows _ _).bind fun symbol ↦ ?_
    cases symbol with
    | none => exact .refl _
    | some symbol => exact (ofSymbol_shadows o opts _ symbol).bind fun _ ↦ .refl _

/-- Under the guard a crash is an answer of nothing. -/
theorem run_tolerating_of_shadows {α : Type} {m m' : Asked (Option α)} (h : Shadows m m')
    (k : Nat) :
    ((tolerating m).run.run k).1 = .ok none ∨
      (tolerating m).run.run k = (tolerating m').run.run k := by
  rw [tolerating, Oracle.run_tryCatch, tolerating, Oracle.run_tryCatch]
  rcases h k with hcrash | hsame
  · rcases hrun : m.run.run k with ⟨stop | answer, k'⟩
    · rw [hrun] at hcrash
      obtain rfl := Except.error.inj hcrash
      exact .inl rfl
    · rw [hrun] at hcrash
      cases hcrash
  · rw [hsame]
    exact .inr rfl

end

/-- **A broken oracle never misleads.** In a snapshot that was read, for every kind of question, and
with an oracle that is broken for it and never cancels: the look-up at any position of a document
always answers, and answers nothing or what the mended oracle answers; and the expansion of an
existing type, at any depth and below any types, crashes or answers the tree that the mended oracle
answers. -/
theorem fault_never_misleads {bytes : ByteArray} {s : Snapshot}
    (hparse : Snapshot.parse bytes = .ok s) (base : String) (q : Query) (opts : Options) (k : Nat) :
    (∀ key d position, s.document? key = some d → ∃ answer,
      ((atPosition ⟨s, base, none, none⟩ opts d.root position).run.run k).1 = .ok answer ∧
      (((atPosition ⟨s, base, none, some q⟩ opts d.root position).run.run k).1 = .ok none ∨
        ((atPosition ⟨s, base, none, some q⟩ opts d.root position).run.run k).1 = .ok answer)) ∧
    ∀ t depth way, (s.type? t).isSome → ∃ T,
      ((Build.tree ⟨s, base, none, none⟩ opts t depth way).run.run k).1 = .ok T ∧
      (((Build.tree ⟨s, base, none, some q⟩ opts t depth way).run.run k).1 = .error .crashed ∨
        ((Build.tree ⟨s, base, none, some q⟩ opts t depth way).run.run k).1 = .ok T) := by
  have hclosed := Snapshot.closed_of_parse hparse
  constructor
  · intro key d position hd
    obtain ⟨answer, hnormal, -⟩ := strictlyAt_eq_after (o := ⟨s, base, none, none⟩) opts rfl hclosed
      hd position
    -- The mended look-up answers, so the broken one gives up or has that answer.
    have hanswer : ((atPosition ⟨s, base, none, none⟩ opts d.root position).run.run k).1 =
        .ok answer := by
      rw [atPosition, run_tolerating (hnormal ▸ Oracle.run_after rfl rfl _ answer k)]
    refine ⟨answer, hanswer, ?_⟩
    rcases run_tolerating_of_shadows
      (strictlyAt_shadows ⟨s, base, none, some q⟩ opts d.root position) k with hnone | hsame
    · exact .inl hnone
    · exact .inr ((congrArg Prod.fst hsame).trans hanswer)
  · intro t depth way ht
    have htree : ((Build.tree ⟨s, base, none, none⟩ opts t depth way).run.run k).1 =
        .ok (expansion s opts t depth way) := by
      rw [tree_eq_after rfl hclosed ht, Oracle.run_after rfl rfl]
    refine ⟨_, htree, ?_⟩
    rcases tree_shadows ⟨s, base, none, some q⟩ opts t depth way k with hcrash | hsame
    · exact .inl hcrash
    · exact .inr ((congrArg Prod.fst hsame).trans htree)

/-- The sample, with an oracle that is broken for the members of unions. -/
theorem fault_never_misleads_sample : ∃ s d answer T,
    Snapshot.parse Snapshot.sampleText.toUTF8 = .ok s ∧ s.document? "list.ts" = some d ∧
    (((atPosition ⟨s, "/", none, some .unionMembers⟩ {} d.root 0).run.run 0).1 = .ok none ∨
      ((atPosition ⟨s, "/", none, some .unionMembers⟩ {} d.root 0).run.run 0).1 = .ok answer) ∧
    (((Build.tree ⟨s, "/", none, some .unionMembers⟩ {} "node" 0 []).run.run 0).1 =
        .error .crashed ∨
      ((Build.tree ⟨s, "/", none, some .unionMembers⟩ {} "node" 0 []).run.run 0).1 = .ok T) := by
  obtain ⟨s, hparse, -, ht⟩ := Snapshot.exists_parse_sampleText
  obtain ⟨d, hd⟩ := Snapshot.exists_document_sampleText hparse
  obtain ⟨hlookup, htree⟩ := fault_never_misleads hparse "/" .unionMembers {} 0
  obtain ⟨answer, -, hanswer⟩ := hlookup "list.ts" d 0 hd
  obtain ⟨T, -, hT⟩ := htree "node" 0 [] ht
  exact ⟨s, d, answer, T, hparse, hd, hanswer, hT⟩

end Lookup

end TypeLens
