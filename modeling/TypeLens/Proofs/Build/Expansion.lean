import Mathlib.Data.Finset.Card
import Mathlib.Logic.Function.Iterate
import TypeLens.Proofs.Build.Node
import TypeLens.Proofs.Graph.Closed

/-!
# The expansion of a type graph

The recursion over a type graph is on a budget of levels. Two facts about it hold here once and for
all, and nothing later looks at the budget again.

* **The budget is a measure, not a limit.** A call below another one has one more type on the way,
  and a type on the way is not expanded again, so calls nest at most as deep as there are types that
  are not on the way. Unrolling the recursion that often determines the answer, whatever deeper
  calls would do (`iterate_call_eq_tree`). This holds for every oracle, also for one that is broken
  or cancels.
* **The recursion computes a tree that depends on nothing but the graph and the options.** It is
  `expansion`, a plain function by well-founded recursion on that same measure. For an intact oracle
  on a closed snapshot, expanding a type checks for cancellation once for each property of the tree
  and answers the tree (`tree_eq_after`).
-/

namespace TypeLens.Build

open TypeLens.Graph

/-! ### The measure -/

variable {s : Snapshot}

/-- A type that is not on the way yet is one type less remaining once it is. -/
theorem remaining_cons_lt {t : TypeId} {way : List TypeId} (ht : (s.type? t).isSome)
    (hway : t ∉ way) : remaining s (t :: way) < remaining s way := by
  obtain ⟨r, hr⟩ := Option.isSome_iff_exists.1 ht
  have hmem : (t, r) ∈ s.types.filter (!way.contains ·.1) :=
    List.mem_filter.2 ⟨Snapshot.mem_types hr, by simpa using hway⟩
  -- Putting `t` on the way filters once more what was remaining, and takes `t` out of it.
  have hsplit : s.types.filter (!(t :: way).contains ·.1) =
      (s.types.filter (!way.contains ·.1)).filter (·.1 != t) := by
    rw [List.filter_filter]
    refine List.filter_congr fun entry _ ↦ ?_
    rw [List.contains_cons, Bool.not_or]
    rfl
  show (s.types.filter (!(t :: way).contains ·.1)).length < _
  rw [hsplit]
  exact List.length_filter_lt_length_iff_exists.2 ⟨(t, r), hmem, by simp⟩

/-- The identifiers of the types of a snapshot. -/
def typeIds (s : Snapshot) : Finset TypeId :=
  (s.types.map Prod.fst).toFinset

theorem mem_typeIds {t : TypeId} (ht : (s.type? t).isSome) : t ∈ typeIds s := by
  obtain ⟨r, hr⟩ := Option.isSome_iff_exists.1 ht
  exact List.mem_toFinset.2 (List.mem_map.2 ⟨(t, r), Snapshot.mem_types hr, rfl⟩)

/-- The same for the number of identifiers. -/
theorem card_typeIds_sdiff_cons_lt {t : TypeId} {way : List TypeId} (ht : (s.type? t).isSome)
    (hway : t ∉ way) :
    (typeIds s \ (t :: way).toFinset).card < (typeIds s \ way.toFinset).card := by
  refine Finset.card_lt_card (Finset.ssubset_iff_of_subset ?_ |>.2 ⟨t, ?_, ?_⟩)
  · rw [List.toFinset_cons]
    exact Finset.sdiff_subset_sdiff (Finset.Subset.refl _) (Finset.subset_insert t _)
  · simpa [hway] using mem_typeIds ht
  · simp

/-! ### Unrolling the recursion -/

/-- One call of the recursion, where `below` makes the calls below it. -/
def call (o : Oracle) (opts : Options) (below : TypeId → Int → List TypeId → Asked Tree)
    (t : TypeId) (depth : Int) (way : List TypeId) : Asked Tree :=
  decorate opts depth <$> leafOr o opts t depth way fun name ↦
    node o opts (fun t' depth' ↦ below t' depth' (t :: way)) t name depth

section

variable {o : Oracle} {opts : Options}

/-- How a type is expanded matters only when it exists and is not on the way. -/
theorem leafOr_congr {t : TypeId} {depth : Int} {way : List TypeId}
    {expand expand' : String → Asked Tree}
    (h : (o.snapshot.type? t).isSome → t ∉ way → expand = expand') :
    leafOr o opts t depth way expand = leafOr o opts t depth way expand' := by
  rcases hr : o.snapshot.type? t with - | r
  · obtain ⟨stop, hstop⟩ : ∃ stop, o.typeName t = throw stop := by
      unfold Oracle.typeName Oracle.ofType
      rw [hr]
      split <;> exact ⟨_, rfl⟩
    rw [leafOr, leafOr, hstop]
    rfl
  · by_cases hway : t ∈ way
    · simp only [leafOr, if_pos hway]
    · rw [h (by simp [hr]) hway]

/-- **The recursion terminates.** Unrolled more often than there are types that are not on the way,
it does not depend on what deeper calls would do, and neither on a budget that is large enough. -/
theorem iterate_call_eq_treeWithin (stuck : TypeId → Int → List TypeId → Asked Tree) :
    ∀ (n m : Nat) (t : TypeId) (depth : Int) (way : List TypeId),
      remaining o.snapshot way < n → remaining o.snapshot way ≤ m →
        (call o opts)^[n] stuck t depth way = treeWithin o opts m t depth way := by
  intro n
  induction n with
  | zero =>
    intro m t depth way hn _
    exact absurd hn (Nat.not_lt_zero _)
  | succ n ih =>
    intro m t depth way hn hm
    rw [Function.iterate_succ_apply', call]
    cases m with
    | zero =>
      -- Nothing remains, so the type is on the way or does not exist.
      rw [treeWithin]
      refine congrArg _ (leafOr_congr fun ht hway ↦ ?_)
      have := remaining_cons_lt ht hway
      omega
    | succ m =>
      rw [treeWithin]
      refine congrArg _ (leafOr_congr fun ht hway ↦ ?_)
      have := remaining_cons_lt ht hway
      have hbelow : (fun t' depth' ↦ (call o opts)^[n] stuck t' depth' (t :: way)) =
          fun t' depth' ↦ treeWithin o opts m t' depth' (t :: way) := by
        funext t' depth'
        exact ih m t' depth' (t :: way) (by omega) (by omega)
      rw [hbelow]

/-- Unrolled often enough, the recursion is the expansion of the type. -/
theorem iterate_call_eq_tree (stuck : TypeId → Int → List TypeId → Asked Tree) {n : Nat}
    {way : List TypeId} (hn : remaining o.snapshot way < n) (t : TypeId) (depth : Int) :
    (call o opts)^[n] stuck t depth way = tree o opts t depth way :=
  iterate_call_eq_treeWithin stuck n _ t depth way hn (Nat.le_refl _)

end

/-! ### The tree of a type -/

/-- The leaf a type is shown as when it is not expanded: because it is primitive, too deep, already
on the way, or not to be expanded by its name. -/
def leaf? (opts : Options) (r : TypeRecord) (depth : Int) (onWay : Bool) : Option Tree :=
  if r.category = .primitive then some (.primitive (named r.name))
  else if opts.maxDepth ≤ depth then some (.basic (named r.name))
  else if onWay then some (cycleLeaf r.name)
  else if opts.skippedNames.contains r.name then some (.reference (named r.name))
  else none

/-- What is expanded lies above the greatest depth and is not on the way. -/
theorem of_leaf?_eq_none {opts : Options} {r : TypeRecord} {depth : Int} {onWay : Bool}
    (h : leaf? opts r depth onWay = none) : depth < opts.maxDepth ∧ onWay = false := by
  unfold leaf? at h
  split_ifs at h with hprimitive hdepth hway
  exact ⟨Int.not_le.1 hdepth, Bool.eq_false_iff.2 hway⟩

theorem isLeaf_of_leaf? {opts : Options} {r : TypeRecord} {depth : Int} {onWay : Bool}
    {leaf : Tree} (h : leaf? opts r depth onWay = some leaf) : leaf.isLeaf = true := by
  unfold leaf? at h
  split_ifs at h <;> obtain rfl := Option.some.inj h <;> rfl

/-- Above both greatest depths the caps do not decide on the leaf. -/
theorem leaf?_congr {a b : Options} (h : a.SamePolicies b) {depth : Int} (ha : depth < a.maxDepth)
    (hb : depth < b.maxDepth) (r : TypeRecord) (onWay : Bool) :
    leaf? a r depth onWay = leaf? b r depth onWay := by
  rw [leaf?, leaf?, if_neg (Int.not_le.2 ha), if_neg (Int.not_le.2 hb), h.skippedNames]

/-- The tree of a type at a depth, below the types on the way. A type that does not exist has its
identifier as a leaf; in a closed snapshot nothing refers to one. -/
def expansion (s : Snapshot) (opts : Options) (t : TypeId) (depth : Int) (way : List TypeId) :
    Tree :=
  match hr : s.type? t with
  | none => .basic (named t)
  | some r =>
    match hleaf : leaf? opts r depth (decide (t ∈ way)) with
    | some leaf => decorate opts depth leaf
    | none =>
      have : remaining s (t :: way) < remaining s way :=
        remaining_cons_lt (by simp [hr]) (of_decide_eq_false (of_leaf?_eq_none hleaf).2)
      decorate opts depth ((Form.ofRecord opts r).tree
        (fun t' depth' ↦ expansion s opts t' depth' (t :: way)) s opts r depth)
termination_by remaining s way

section

variable {opts : Options} {t : TypeId} {r : TypeRecord} {depth : Int} {way : List TypeId}

/-- A type that is missing is shown by its identifier. -/
theorem expansion_of_none (hr : s.type? t = none) :
    expansion s opts t depth way = .basic (named t) := by
  rw [expansion]
  split
  · rfl
  · next r' hr' => rw [hr] at hr'; cases hr'

/-- A type that is not expanded is shown as its leaf. -/
theorem expansion_of_leaf (hr : s.type? t = some r) {leaf : Tree}
    (hleaf : leaf? opts r depth (decide (t ∈ way)) = some leaf) :
    expansion s opts t depth way = decorate opts depth leaf := by
  rw [expansion]
  split
  · next hr' => rw [hr] at hr'; cases hr'
  · next r' hr' =>
    obtain rfl : r = r' := Option.some.inj (hr.symm.trans hr')
    split
    · next leaf' hleaf' => rw [Option.some.inj (hleaf.symm.trans hleaf')]
    · next hleaf' => rw [hleaf] at hleaf'; cases hleaf'

/-- Any other type takes its form, with its children one step further on the way. -/
theorem expansion_of_form (hr : s.type? t = some r)
    (hleaf : leaf? opts r depth (decide (t ∈ way)) = none) :
    expansion s opts t depth way =
      decorate opts depth ((Form.ofRecord opts r).tree
        (fun t' depth' ↦ expansion s opts t' depth' (t :: way)) s opts r depth) := by
  rw [expansion]
  split
  · next hr' => rw [hr] at hr'; cases hr'
  · next r' hr' =>
    obtain rfl : r = r' := Option.some.inj (hr.symm.trans hr')
    split
    · next leaf' hleaf' => rw [hleaf] at hleaf'; cases hleaf'
    · rfl

/-- **Induction along an expansion.** A type that does not exist and a leaf are the base cases; a
type that is expanded has one more type on the way of what is below it. -/
theorem expansion_induction (s : Snapshot) (opts : Options)
    {motive : TypeId → Int → List TypeId → Prop}
    (missing : ∀ t depth way, s.type? t = none → motive t depth way)
    (leaf : ∀ t r depth way leaf, s.type? t = some r →
      leaf? opts r depth (decide (t ∈ way)) = some leaf → motive t depth way)
    (form : ∀ t r depth way, s.type? t = some r →
      leaf? opts r depth (decide (t ∈ way)) = none →
      (∀ t' depth', motive t' depth' (t :: way)) → motive t depth way)
    (t : TypeId) (depth : Int) (way : List TypeId) : motive t depth way := by
  induction t, depth, way using expansion.induct s opts with
  | case1 t depth way hr => exact missing t depth way hr
  | case2 t depth way r hr l hl => exact leaf t r depth way l hr hl
  | case3 t depth way r hr hl _ ih => exact form t r depth way hr hl ih

/-! ### Display parts and the greatest depth -/

/-- Nothing is stored when no display parts are made. -/
theorem decorate_of_displayParts_eq_false (h : opts.displayParts = false) (depth : Int) (t : Tree) :
    decorate opts depth t = t := by
  simp [decorate, h]

/-- Nothing is stored from the greatest depth on. -/
theorem decorate_of_maxDepth_le (h : opts.maxDepth ≤ depth) (t : Tree) :
    decorate opts depth t = t := by
  simp [decorate, Int.not_lt.2 h]

/-- Above both greatest depths the caps do not decide on display parts. -/
theorem decorate_congr {a b : Options} (h : a.SamePolicies b) (ha : depth < a.maxDepth)
    (hb : depth < b.maxDepth) (t : Tree) : decorate a depth t = decorate b depth t := by
  simp only [decorate, h.displayParts, ha, hb]

/-- What is shown of a type where nothing is expanded. -/
def stub (s : Snapshot) (t : TypeId) : Tree :=
  match s.type? t with
  | none => .basic (named t)
  | some r => if r.category = .primitive then .primitive (named r.name) else .basic (named r.name)

theorem isLeaf_stub (s : Snapshot) (t : TypeId) : (stub s t).isLeaf = true := by
  unfold stub
  split
  · rfl
  · split_ifs <;> rfl

theorem parts_label_stub (s : Snapshot) (t : TypeId) : (stub s t).label.parts = none := by
  unfold stub
  split
  · rfl
  · split_ifs <;> rfl

/-- From the greatest depth on nothing is expanded, whatever the options are. -/
theorem expansion_of_maxDepth_le (h : opts.maxDepth ≤ depth) (t : TypeId) (way : List TypeId) :
    expansion s opts t depth way = stub s t := by
  rcases hr : s.type? t with - | r
  · rw [expansion_of_none hr, stub, hr]
  · have hleaf : leaf? opts r depth (decide (t ∈ way)) = some (stub s t) := by
      simp only [leaf?, if_pos h, stub, hr]
      split_ifs <;> rfl
    rw [expansion_of_leaf hr hleaf, decorate_of_maxDepth_le h]

/-- Display parts are stored in the label, so that they leave the shape of a tree alone. -/
theorem decorate_eq_setLabel (opts : Options) (depth : Int) (t : Tree) :
    ∃ l, decorate opts depth t = t.setLabel l := by
  unfold decorate
  split
  · exact ⟨_, rfl⟩
  · exact ⟨t.label, t.setLabel_label.symm⟩

/-- **Induction along the shape of an expansion**, for what does not depend on labels. An expansion
is a leaf, or the tree of a type that is not on the way, above the greatest depth. -/
theorem expansion_shape_induction (s : Snapshot) (opts : Options)
    {motive : Int → List TypeId → Tree → Prop}
    (leaf : ∀ depth way T, T.isLeaf = true → motive depth way T)
    (form : ∀ t r (depth : Int) way l, s.type? t = some r → t ∉ way → depth < opts.maxDepth →
      (∀ t' depth', motive depth' (t :: way) (expansion s opts t' depth' (t :: way))) →
      motive depth way (((Form.ofRecord opts r).tree
        (fun t' depth' ↦ expansion s opts t' depth' (t :: way)) s opts r depth).setLabel l))
    (t : TypeId) (depth : Int) (way : List TypeId) :
    motive depth way (expansion s opts t depth way) := by
  induction t, depth, way using expansion_induction s opts with
  | missing t depth way hr =>
    rw [expansion_of_none hr]
    exact leaf depth way _ rfl
  | leaf t r depth way T hr hleaf =>
    obtain ⟨l, hl⟩ := decorate_eq_setLabel opts depth T
    rw [expansion_of_leaf hr hleaf, hl]
    exact leaf depth way _ ((T.isLeaf_setLabel l).trans (isLeaf_of_leaf? hleaf))
  | form t r depth way hr hleaf ih =>
    obtain ⟨hdepth, hway⟩ := of_leaf?_eq_none hleaf
    obtain ⟨l, hl⟩ := decorate_eq_setLabel opts depth ((Form.ofRecord opts r).tree
      (fun t' depth' ↦ expansion s opts t' depth' (t :: way)) s opts r depth)
    rw [expansion_of_form hr hleaf, hl]
    exact form t r depth way l hr (of_decide_eq_false hway) hdepth ih

@[simp]
theorem entries_decorate (opts : Options) (depth : Int) (t : Tree) :
    (decorate opts depth t).entries = t.entries := by
  obtain ⟨l, hl⟩ := decorate_eq_setLabel opts depth t
  rw [hl, Tree.entries_setLabel]

/-! ### The recursion computes the tree -/

variable {o : Oracle}

/-- The decision whether a type is a leaf, for a type that exists. -/
theorem leafOr_eq (hb : o.broken = none) (hr : o.snapshot.type? t = some r)
    (expand : String → Asked Tree) :
    leafOr o opts t depth way expand =
      match leaf? opts r depth (decide (t ∈ way)) with
      | some leaf => pure leaf
      | none => expand r.name := by
  simp only [leafOr, Oracle.typeName, Oracle.isPrimitive, Oracle.ofType_eq hb hr, pure_bind, leaf?,
    beq_iff_eq, decide_eq_true_eq]
  split_ifs <;> rfl

/-- **The recursion computes the tree of the type**, after one cancellation check for each property
of the tree. -/
theorem treeWithin_eq_after (hb : o.broken = none) (hclosed : o.snapshot.Closed)
    (t : TypeId) (depth : Int) (way : List TypeId) :
    ∀ n, remaining o.snapshot way ≤ n → (o.snapshot.type? t).isSome →
      treeWithin o opts n t depth way =
        o.after (expansion o.snapshot opts t depth way).entries
          (expansion o.snapshot opts t depth way) := by
  induction t, depth, way using expansion_induction o.snapshot opts with
  | missing t depth way hr =>
    intro n _ ht
    simp [hr] at ht
  | leaf t r depth way leaf hr hleaf =>
    intro n _ _
    rw [expansion_of_leaf hr hleaf, entries_decorate,
      Tree.entries_of_isLeaf (isLeaf_of_leaf? hleaf), Oracle.after_zero]
    cases n <;> rw [treeWithin, leafOr_eq hb hr, hleaf] <;> exact map_pure _ _
  | form t r depth way hr hleaf ih =>
    intro n hn ht
    have hway : t ∉ way := of_decide_eq_false (of_leaf?_eq_none hleaf).2
    have hlt := remaining_cons_lt ht hway
    obtain ⟨m, rfl⟩ : ∃ m, n = m + 1 := ⟨n - 1, by omega⟩
    -- The types on the way are distinct, so there are fewer left, and the budget is enough for
    -- them.
    have hsettled : Settled o (fun t' depth' ↦ treeWithin o opts m t' depth' (t :: way))
        (fun t' depth' ↦ expansion o.snapshot opts t' depth' (t :: way)) r.references :=
      fun ref href depth' ↦ ih ref depth' m (by omega) (hclosed.references hr ref href)
    rw [expansion_of_form hr hleaf, entries_decorate, treeWithin, leafOr_eq hb hr, hleaf]
    simp only
    rw [node_eq_after hb hr (hclosed.references hr) hsettled, Oracle.map_after]

/-- **Expanding a type of a closed snapshot** is answering its tree, after one cancellation check
for each property of the tree. -/
theorem tree_eq_after (hb : o.broken = none) (hclosed : o.snapshot.Closed)
    (ht : (o.snapshot.type? t).isSome) (depth : Int) (way : List TypeId) :
    tree o opts t depth way =
      o.after (expansion o.snapshot opts t depth way).entries
        (expansion o.snapshot opts t depth way) :=
  treeWithin_eq_after hb hclosed t depth way _ (Nat.le_refl _) ht

/-- A type that does not exist cannot be expanded. -/
theorem tree_of_none (hb : o.broken = none) (ht : o.snapshot.type? t = none) (depth : Int)
    (way : List TypeId) : tree o opts t depth way = throw (.missing t) := by
  have hname : o.typeName t = throw (.missing t) := by
    simp [Oracle.typeName, Oracle.ofType, hb, ht]
  unfold tree
  cases remaining o.snapshot way <;> rw [treeWithin, leafOr, hname] <;> rfl

/-- A tree that is answered is the tree of a type that exists. -/
theorem eq_expansion_of_run (hb : o.broken = none) (hclosed : o.snapshot.Closed) {k k' : Nat}
    {T : Tree} (hrun : (tree o opts t depth way).run.run k = (.ok T, k')) :
    (o.snapshot.type? t).isSome ∧ T = expansion o.snapshot opts t depth way := by
  rcases ht : o.snapshot.type? t with - | r
  · rw [tree_of_none hb ht] at hrun
    cases hrun
  · rw [tree_eq_after hb hclosed (by simp [ht])] at hrun
    exact ⟨rfl, Oracle.eq_of_run_after hb hrun⟩

end

end TypeLens.Build
