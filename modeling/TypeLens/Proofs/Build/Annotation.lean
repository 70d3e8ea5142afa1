import TypeLens.Proofs.Build.Bounds
import TypeLens.Proofs.Tree.Erasure

/-!
# Display parts are an annotation

Options may ask for display parts, which are then stored with the nodes while a tree is built. This
changes nothing else: erasing them from the tree gives the tree that is built without, and the
expansion stops in exactly the same cases (`erase_tree`). The parts are made from those stored
below, and yet each node stores what would be made for it if nothing were stored
(`fresh_expansion`).

Both go by the recursion of the expansion. Erasing passes through every form of a type
(`Form.erase_tree`); and storing with a node what is made for it leaves a tree of fresh nodes fresh
(`everywhere_fresh_decorate`).
-/

namespace TypeLens.Build

open TypeLens.Graph TypeLens.Tree

/-! ### One type -/

section

variable (child : TypeId → Int → Tree) {s : Snapshot} {opts : Options} {r : TypeRecord}
  {depth : Int}

theorem erase_argumentTree (unresolved : String) (depth : Int) (x : Option TypeId) :
    (argumentTree child unresolved depth x).erase =
      argumentTree (fun t d ↦ (child t d).erase) unresolved depth x := by
  cases x <;> rfl

theorem map_erase_signatureTree (depth : Int) (c : Callable) :
    (signatureTree child depth c).map erase =
      signatureTree (fun t d ↦ (child t d).erase) depth c := by
  rw [signatureTree, signatureTree, Signature.map, erase_argumentTree, List.map_map]
  rfl

/-- Erasing passes through a form to the types below. -/
theorem Form.erase_tree (F : Form) :
    (F.tree child s opts r depth).erase =
      F.tree (fun t d ↦ (child t d).erase) s opts r depth := by
  cases F with
  | enumMember | suppressed | bare => rfl
  | union | intersection =>
    rw [Form.tree, erase, eraseAll_eq_map, List.map_map]
    rfl
  | promise | array =>
    rw [Form.tree, erase, erase_argumentTree]
    rfl
  | tuple | generic =>
    rw [Form.tree, erase, eraseAll_eq_map, List.map_map]
    simp only [Function.comp_def, erase_argumentTree]
    rfl
  | function =>
    rw [Form.tree, erase, eraseSignatures_eq_map, List.map_map]
    simp only [Function.comp_def, map_erase_signatureTree]
    rfl
  | object =>
    rw [Form.tree, erase, eraseProperties_eq_map, List.map_map]
    rfl

/-- Forms store nothing themselves. -/
theorem Form.parts_label_tree (F : Form) : (F.tree child s opts r depth).label.parts = none := by
  cases F <;> rfl

end

section

variable {opts : Options} {depth : Int} {t : Tree}

/-- What a node is decorated with is lost when it is erased. -/
theorem erase_decorate (opts : Options) (depth : Int) (t : Tree) :
    (decorate opts depth t).erase = t.erase := by
  unfold decorate
  split
  · exact erase_setParts _ t
  · rfl

/-- Above the greatest depth something is stored, when display parts are made. -/
theorem parts_label_decorate (hopts : opts.displayParts = true) (hdepth : depth < opts.maxDepth)
    (ht : t.label.parts = none) : (decorate opts depth t).label.parts = some t.builtParts := by
  rw [decorate, if_pos (by simp [hopts, hdepth, ht]), setParts, label_setLabel]

/-- **The step.** Storing with a node what is made for it leaves it fresh, when everything below is
fresh. -/
theorem everywhere_fresh_decorate (ht : t.label.parts = none)
    (h : ∀ c ∈ t.branches, c.Everywhere Fresh) : (decorate opts depth t).Everywhere Fresh := by
  have hfresh : t.Fresh := fun parts hparts ↦ by rw [ht] at hparts; cases hparts
  -- The parts below show what is made for them, so it does not matter that they are stored.
  have hbuilt : t.builtParts = t.erase.builtParts := by
    have huncached := Uncached.of_branches hfresh fun c hc ↦ uncached_of_everywhere c (h c hc)
    rw [builtParts_of_parts_eq_none ht, builtParts_erase, huncached.slot]
  refine everywhere_iff.2 ⟨fun parts hparts ↦ ?_, ?_⟩
  · rw [erase_decorate, ← hbuilt]
    unfold decorate at hparts
    split at hparts
    · rw [setParts, label_setLabel] at hparts
      exact (Option.some.inj hparts).symm
    · rw [ht] at hparts
      cases hparts
  · obtain ⟨l, hl⟩ := decorate_eq_setLabel opts depth t
    rw [hl, branches_setLabel]
    exact h

end

/-! ### The whole tree -/

theorem parts_label_of_leaf? {opts : Options} {r : TypeRecord} {depth : Int} {onWay : Bool}
    {leaf : Tree} (h : leaf? opts r depth onWay = some leaf) : leaf.label.parts = none := by
  unfold leaf? at h
  split_ifs at h <;> obtain rfl := Option.some.inj h <;> rfl

/-- **The run.** Every node of an expansion stores what would be made for it if nothing were
stored. -/
theorem fresh_expansion (s : Snapshot) (opts : Options) (t : TypeId) (depth : Int)
    (way : List TypeId) : (expansion s opts t depth way).Everywhere Fresh := by
  have hplain : ∀ name, (Tree.basic (named name)).Everywhere Fresh := fun name ↦
    everywhere_of_isLeaf rfl fun parts hparts ↦ by cases hparts
  induction t, depth, way using expansion_induction s opts with
  | missing t depth way hr =>
    rw [expansion_of_none hr]
    exact hplain t
  | leaf t r depth way leaf hr hleaf =>
    rw [expansion_of_leaf hr hleaf]
    refine everywhere_fresh_decorate (parts_label_of_leaf? hleaf) fun c hc ↦ ?_
    simp [branches_of_isLeaf (isLeaf_of_leaf? hleaf)] at hc
  | form t r depth way hr hleaf ih =>
    rw [expansion_of_form hr hleaf]
    refine everywhere_fresh_decorate (Form.parts_label_tree ..) fun c hc ↦ ?_
    cases below_of_mem_branches hc with
    | unresolved name => exact hplain name
    | drawn t' => exact ih t' _
    | last t' => exact ih t' _

section

variable (opts : Options)

/-- Erasing the display parts of an expansion gives the expansion without them. -/
theorem erase_expansion (s : Snapshot) (t : TypeId) (depth : Int) (way : List TypeId) :
    (expansion s { opts with displayParts := true } t depth way).erase =
      expansion s { opts with displayParts := false } t depth way := by
  have hplain : ∀ depth T, decorate { opts with displayParts := false } depth T = T :=
    decorate_of_displayParts_eq_false rfl
  induction t, depth, way using expansion_induction s { opts with displayParts := true } with
  | missing t depth way hr =>
    rw [expansion_of_none hr, expansion_of_none hr]
    rfl
  | leaf t r depth way leaf hr hleaf =>
    -- Whether a type is a leaf does not depend on display parts.
    have hleaf' :
        leaf? { opts with displayParts := false } r depth (decide (t ∈ way)) = some leaf := hleaf
    rw [expansion_of_leaf hr hleaf, expansion_of_leaf hr hleaf', erase_decorate, hplain,
      erase_of_isLeaf (isLeaf_of_leaf? hleaf) (parts_label_of_leaf? hleaf)]
  | form t r depth way hr hleaf ih =>
    have hleaf' : leaf? { opts with displayParts := false } r depth (decide (t ∈ way)) = none :=
      hleaf
    rw [expansion_of_form hr hleaf, expansion_of_form hr hleaf', erase_decorate, hplain,
      Form.erase_tree]
    simp only [ih]
    rfl

/-- Above the greatest depth something is stored at the root, and it is what is made for it. -/
theorem parts_label_expansion {s : Snapshot} (hopts : opts.displayParts = true) {t : TypeId}
    (ht : (s.type? t).isSome) {depth : Int} (hdepth : depth < opts.maxDepth) (way : List TypeId) :
    (expansion s opts t depth way).label.parts =
      some (expansion s opts t depth way).erase.builtParts := by
  have hstored : ∃ parts, (expansion s opts t depth way).label.parts = some parts := by
    obtain ⟨r, hr⟩ := Option.isSome_iff_exists.1 ht
    rcases hleaf : leaf? opts r depth (decide (t ∈ way)) with - | leaf
    · rw [expansion_of_form hr hleaf,
        parts_label_decorate hopts hdepth (Form.parts_label_tree ..)]
      exact ⟨_, rfl⟩
    · rw [expansion_of_leaf hr hleaf,
        parts_label_decorate hopts hdepth (parts_label_of_leaf? hleaf)]
      exact ⟨_, rfl⟩
  obtain ⟨parts, hparts⟩ := hstored
  rw [hparts, ← (fresh_expansion s opts t depth way).root parts hparts]

variable {o : Oracle}

/-- **Erasing the display parts of a tree is building it without them**, as a computation: with the
same cancellation checks and the same stops. -/
theorem erase_tree (hb : o.broken = none) (hclosed : o.snapshot.Closed) (t : TypeId) (depth : Int)
    (way : List TypeId) :
    erase <$> tree o { opts with displayParts := true } t depth way =
      tree o { opts with displayParts := false } t depth way := by
  rcases ht : o.snapshot.type? t with - | r
  · rw [tree_of_none hb ht, tree_of_none hb ht]
    rfl
  · have hsome : (o.snapshot.type? t).isSome := by simp [ht]
    rw [tree_eq_after hb hclosed hsome, tree_eq_after hb hclosed hsome, Oracle.map_after,
      ← erase_expansion, entries_erase]

end

/-- **Display parts are a pure annotation.** For a type of a snapshot that was read, existing or
not, at any depth, below any types and under any schedule of cancellation: expanding it with display
parts stops exactly when it stops without them, in the same way and after the same number of checks.
Otherwise erasing the display parts of its tree gives the tree without them; every node that stores
display parts stores those that are made for it when all display parts in it are erased; and the
root stores some, if it is above the greatest depth. -/
theorem tree_annotation {bytes : ByteArray} {o : Oracle}
    (hparse : Snapshot.parse bytes = .ok o.snapshot) (hb : o.broken = none) (opts : Options)
    (t : TypeId) (depth : Int) (way : List TypeId) (k : Nat) :
    (∀ stop k', (tree o { opts with displayParts := true } t depth way).run.run k =
        (.error stop, k') ↔
      (tree o { opts with displayParts := false } t depth way).run.run k = (.error stop, k')) ∧
    ∀ T k', (tree o { opts with displayParts := true } t depth way).run.run k = (.ok T, k') →
      (tree o { opts with displayParts := false } t depth way).run.run k = (.ok T.erase, k') ∧
      (∀ above u parts, Descent T above u → u.label.parts = some parts →
        parts = u.erase.builtParts) ∧
      (depth < opts.maxDepth → T.label.parts.isSome) := by
  have hclosed := Snapshot.closed_of_parse hparse
  have hrun := congrArg (fun m : Asked Tree ↦ m.run.run k)
    (erase_tree opts hb hclosed t depth way)
  simp only [Oracle.run_map] at hrun
  -- Erasing maps one computation to the other, so they stop at the same check or not at all.
  rcases hon : (tree o { opts with displayParts := true } t depth way).run.run k with
    ⟨stop | T, k'⟩ <;> rw [hon] at hrun <;> simp only at hrun <;> rw [← hrun]
  · exact ⟨fun _ _ ↦ Iff.rfl, fun _ _ h ↦ by cases h⟩
  · refine ⟨fun _ _ ↦ ⟨nofun, nofun⟩, fun T' k'' h ↦ ?_⟩
    cases h
    obtain ⟨ht, rfl⟩ := eq_expansion_of_run hb hclosed hon
    refine ⟨rfl, fun above u parts hu hparts ↦ ?_, fun hdepth ↦ ?_⟩
    · exact fresh_expansion _ _ t depth way above u hu parts hparts
    · rw [parts_label_expansion { opts with displayParts := true } rfl ht hdepth]
      rfl

/-- The list node, which is never cancelled. -/
theorem tree_annotation_sample : ∃ s T k', Snapshot.parse Snapshot.sampleText.toUTF8 = .ok s ∧
    (tree ⟨s, "/", none, none⟩ { displayParts := true } "node" 0 []).run.run 0 = (.ok T, k') ∧
    (tree ⟨s, "/", none, none⟩ {} "node" 0 []).run.run 0 = (.ok T.erase, k') ∧
    (∀ above u parts, Descent T above u → u.label.parts = some parts →
      parts = u.erase.builtParts) ∧ T.label.parts.isSome := by
  obtain ⟨s, hparse, -, ht⟩ := Snapshot.exists_parse_sampleText
  have hannotation := tree_annotation (o := ⟨s, "/", none, none⟩) hparse rfl {} "node" 0 [] 0
  rcases hrun : (tree ⟨s, "/", none, none⟩ { displayParts := true } "node" 0 []).run.run 0 with
    ⟨stop | T, k'⟩
  · have hanswers := Oracle.answers_or_cancelled (o := ⟨s, "/", none, none⟩) rfl
      (expansion s { displayParts := true } "node" 0 []).entries
      (expansion s { displayParts := true } "node" 0 []) 0
    rw [← tree_eq_after rfl (Snapshot.closed_of_parse hparse) ht, hrun] at hanswers
    simp at hanswers
  · obtain ⟨hplain, hfresh, hstored⟩ := hannotation.2 T k' hrun
    exact ⟨s, T, k', hparse, hrun, hplain, hfresh, hstored (by decide)⟩

end TypeLens.Build
