import TypeLens.Proofs.Build.Expansion

/-!
# Bounds on expansions

Every expansion is bounded, on a cyclic type graph as on any other, by two independent measures.

* **The caps.** Only the step from an object to its properties goes one level down, and a type below
  the greatest depth is not expanded; so there are at most as many objects on a way down the tree as
  there are levels. At each node the cap of its kind bounds what is shown. `Bounded` says so node by
  node; `KeepsTo` says it for the nodes of a tree and the ways to them.
* **The graph.** Most steps stay at the same depth, so depth does not bound the height of a tree.
  What does is the types on the way: each node that has something below it puts another type on the
  way, and no type is put there twice. Hence a tree is no higher than there are types that are not
  on the way, and one (`height_expansion_le`).

That the recursion ends at all is the second measure again (`iterate_call_eq_tree`).
-/

namespace TypeLens

/-! ### Trees that keep to the caps -/

namespace Tree

/-- A node at a depth keeps to the caps. -/
def Fits (opts : Options) (depth : Nat) : Tree → Prop
  | union _ ms _ => ms.length ≤ opts.maxUnionMembers
  | function _ ss _ => ss.length ≤ opts.maxSignatures
  | object _ ps _ =>
    depth < opts.maxDepth ∧
      ps.length ≤ if depth = 0 then opts.maxProperties else opts.maxSubProperties
  | _ => True

/-- Every node of a tree keeps to the caps, where the properties of an object are one level below
it. -/
inductive Bounded (opts : Options) : (depth : Nat) → Tree → Prop
  | node {depth : Nat} {t : Tree} (own : t.Fits opts depth)
    (below : ∀ c ∈ t.branches, Bounded opts (depth + t.isObject.toNat) c) : Bounded opts depth t

/-- What the caps say about a tree that starts at a depth. -/
structure KeepsTo (opts : Options) (depth : Nat) (t : Tree) : Prop where
  /-- The number of objects on a way down. -/
  objects : ∀ {above u}, Descent t above u →
    (above ++ [u]).countP isObject ≤ opts.maxDepth - depth
  /-- The number of members a union shows. -/
  members : ∀ {above l ms e}, Descent t above (.union l ms e) → ms.length ≤ opts.maxUnionMembers
  /-- The number of signatures a function shows. -/
  signatures : ∀ {above l ss e}, Descent t above (.function l ss e) →
    ss.length ≤ opts.maxSignatures
  /-- The number of properties an object shows, by the objects above it. -/
  properties : ∀ {above l ps e}, Descent t above (.object l ps e) →
    ps.length ≤
      if depth + above.countP isObject = 0 then opts.maxProperties else opts.maxSubProperties

variable {opts : Options}

@[simp]
theorem fits_setLabel (l : Label) (depth : Nat) (t : Tree) :
    (t.setLabel l).Fits opts depth ↔ t.Fits opts depth := by
  cases t <;> rfl

/-- An object lies above the greatest depth. -/
theorem Fits.lt_maxDepth {depth : Nat} {t : Tree} (h : t.Fits opts depth)
    (ht : t.isObject = true) : depth < opts.maxDepth := by
  cases t with
  | object => exact h.1
  | _ => cases ht

theorem Bounded.setLabel {depth : Nat} {t : Tree} (h : Bounded opts depth t) (l : Label) :
    Bounded opts depth (t.setLabel l) := by
  obtain ⟨own, below⟩ := h
  refine .node ((fits_setLabel l depth t).2 own) ?_
  rw [branches_setLabel, isObject_setLabel]
  exact below

/-- A leaf that shows nothing but a name has nothing to keep to. -/
theorem Bounded.of_isLeaf {t : Tree} (h : t.isLeaf = true) (depth : Nat) :
    Bounded opts depth t := by
  cases t with
  | primitive | basic | reference => exact .node trivial fun c hc ↦ by simp [branches] at hc
  | _ => cases h

/-- A node keeps to the caps at its depth, which counts the objects above it. -/
theorem Bounded.fits {depth : Nat} {t u : Tree} {above : List Tree} (h : Bounded opts depth t)
    (hu : Descent t above u) : u.Fits opts (depth + above.countP isObject) := by
  induction hu generalizing depth with
  | here t =>
    obtain ⟨own, -⟩ := h
    exact own
  | @down t c u above hc _ ih =>
    obtain ⟨-, below⟩ := h
    have hfits := ih (below c hc)
    have hcount : depth + (t :: above).countP isObject =
        depth + t.isObject.toNat + above.countP isObject := by
      rw [List.countP_cons]
      cases t.isObject <;> simp only [Bool.toNat_true, Bool.toNat_false, if_true, if_false,
        Bool.false_eq_true] <;> omega
    rwa [hcount]

/-- There are no more objects on a way down than there are levels. -/
theorem Bounded.countP_isObject_le {depth : Nat} {t u : Tree} {above : List Tree}
    (h : Bounded opts depth t) (hu : Descent t above u) :
    (above ++ [u]).countP isObject ≤ opts.maxDepth - depth := by
  induction hu generalizing depth with
  | here t =>
    obtain ⟨own, -⟩ := h
    rcases ht : t.isObject with - | -
    · simp [ht]
    · have := own.lt_maxDepth ht
      simp [ht]
      omega
  | @down t c u above hc _ ih =>
    obtain ⟨own, below⟩ := h
    have hle := ih (below c hc)
    -- An object takes one of the levels, of which there is one since the object is above the last.
    rw [List.cons_append, List.countP_cons]
    rcases ht : t.isObject with - | -
    · simpa [ht] using hle
    · have := own.lt_maxDepth ht
      simp only [ht, Bool.toNat_true, if_true] at hle ⊢
      omega

/-- **What holds node by node holds along every way.** -/
theorem Bounded.keepsTo {depth : Nat} {t : Tree} (h : Bounded opts depth t) :
    t.KeepsTo opts depth where
  objects hu := h.countP_isObject_le hu
  members hu := h.fits hu
  signatures hu := h.fits hu
  properties hu := (h.fits hu).2

end Tree

namespace Build

open TypeLens.Graph TypeLens.Tree

/-! ### One type -/

section

variable {child : TypeId → Int → Tree} {s : Snapshot} {opts : Options} {r : TypeRecord}
  {depth : Int}

/-- What is directly below a type, when it is drawn at a depth: a leaf for what could not be
resolved, or the tree of another type at that depth or at the greatest. -/
inductive Below (child : TypeId → Int → Tree) (opts : Options) (depth : Int) : Tree → Prop
  | unresolved (name : String) : Below child opts depth (.basic (named name))
  | drawn (t : TypeId) : Below child opts depth (child t depth)
  | last (t : TypeId) : Below child opts depth (child t opts.maxDepth)

theorem Below.drawn_depthBelow (unwrap : Bool) (t : TypeId) :
    Below child opts depth (child t (depthBelow opts unwrap depth)) := by
  cases unwrap with
  | true => exact .drawn t
  | false => exact .last t

theorem Below.argumentTree {d : Int} (h : ∀ t, Below child opts depth (child t d))
    (unresolved : String) (x : Option TypeId) :
    Below child opts depth (argumentTree child unresolved d x) := by
  cases x with
  | some t => exact h t
  | none => exact .unresolved unresolved

/-- Every type of a signature is bounded if the children at its depth are. -/
theorem Below.of_mem_types {d : Int} (h : ∀ t, Below child opts depth (child t d)) {a : Callable}
    {c : Tree} (hc : c ∈ (signatureTree child d a).types) : Below child opts depth c := by
  simp only [signatureTree, Signature.types, List.map_map, List.mem_cons, List.mem_map] at hc
  rcases hc with rfl | ⟨x, -, rfl⟩
  · exact .argumentTree h "void" a.result
  · exact h x.type

/-- The depth at which a form draws what is below it: only an object goes one level down. -/
def Form.nextDepth (depth : Int) : Form → Int
  | object => depth + 1
  | _ => depth

/-- **The branches of a type** are drawn at the next depth or at the greatest. -/
theorem below_of_mem_branches {F : Form} {c : Tree}
    (h : c ∈ (F.tree child s opts r depth).branches) :
    Below child opts (F.nextDepth depth) c := by
  -- Only the items of arrays and the types of signatures may be drawn at the greatest depth
  -- instead.
  cases F with
  | enumMember | suppressed | bare => cases h
  | union | intersection =>
    obtain ⟨t, -, rfl⟩ := List.mem_map.1 h
    exact .drawn t
  | promise =>
    obtain rfl := List.mem_singleton.1 h
    exact .argumentTree .drawn _ _
  | array =>
    obtain rfl := List.mem_singleton.1 h
    exact .argumentTree (.drawn_depthBelow _) _ _
  | tuple | generic =>
    obtain ⟨x, -, rfl⟩ := List.mem_map.1 h
    exact .argumentTree .drawn _ x
  | function =>
    obtain ⟨a, ha, hc⟩ := List.mem_flatMap.1 h
    obtain ⟨x, -, rfl⟩ := List.mem_map.1 ha
    exact .of_mem_types (.drawn_depthBelow _) hc
  | object =>
    obtain ⟨p, hp, rfl⟩ := List.mem_map.1 h
    obtain ⟨x, -, rfl⟩ := List.mem_map.1 hp
    exact .drawn x.type

/-- A type in some form keeps to the caps. -/
theorem Form.fits_tree {d : Nat} (hd : d < opts.maxDepth) (F : Form) :
    (F.tree child s opts r d).Fits opts d := by
  cases F with
  | union =>
    simp only [Form.tree, Tree.Fits, List.length_map, length_sortByRank, List.length_take]
    exact Nat.min_le_left _ _
  | function =>
    simp only [Form.tree, Tree.Fits, List.length_map, List.length_take]
    exact Nat.min_le_left _ _
  | object =>
    simp only [Form.tree, Tree.Fits, List.length_map, List.length_take, entryLimit]
    refine ⟨hd, ?_⟩
    split_ifs <;> omega
  | _ => trivial

/-- **The step for the caps.** When the types below keep to the caps, at every depth and at the
greatest in particular, so does a type in any of its forms. -/
theorem Form.bounded_tree {d : Nat} (hd : d < opts.maxDepth)
    (hdrawn : ∀ (t : TypeId) (n : Nat), Bounded opts n (child t n))
    (hlast : ∀ (t : TypeId) (n : Nat), Bounded opts n (child t opts.maxDepth)) (F : Form) :
    Bounded opts d (F.tree child s opts r d) := by
  have hnext : F.nextDepth d = (d + (F.tree child s opts r d).isObject.toNat : Nat) := by
    cases F <;> rfl
  refine .node (F.fits_tree hd) fun c hc ↦ ?_
  -- A branch is drawn at the depth that counts the node itself if it is an object.
  have hbelow := below_of_mem_branches hc
  rw [hnext] at hbelow
  cases hbelow with
  | unresolved name => exact .of_isLeaf rfl _
  | drawn t => exact hdrawn t _
  | last t => exact hlast t _

/-- **The step for the height.** A type in any of its forms is one higher than what is below it. -/
theorem Form.height_tree_le {n : Nat} (h : ∀ t depth, (child t depth).height ≤ n + 1) (F : Form) :
    (F.tree child s opts r depth).height ≤ n + 2 := by
  refine Tree.height_le_succ fun c hc ↦ ?_
  cases below_of_mem_branches hc with
  | unresolved name => exact Tree.height_le_succ fun c hc ↦ by cases hc
  | drawn t => exact h t _
  | last t => exact h t _

end

/-! ### The whole tree -/

section

variable (s : Snapshot) (opts : Options)

/-- **The caps bound an expansion.** -/
theorem bounded_expansion (t : TypeId) (d : Nat) (way : List TypeId) :
    Bounded opts d (expansion s opts t d way) := by
  suffices h : ∀ (n : Nat), (d : Int) = n → Bounded opts n (expansion s opts t d way) from h d rfl
  refine expansion_shape_induction s opts (motive := fun depth _ T ↦
    ∀ n : Nat, depth = n → Bounded opts n T) ?_ ?_ t d way
  · intro depth way T hT n _
    exact .of_isLeaf hT n
  · -- The depth of an expanded type is below the greatest, where there are only leaves.
    rintro t r _ way l hr hway hdepth ih n rfl
    refine (Form.bounded_tree (Int.ofNat_lt.1 hdepth) ?_ ?_ _).setLabel l
    · intro t' m
      exact ih t' m m rfl
    · intro t' m
      rw [expansion_of_maxDepth_le (Int.le_refl _)]
      exact .of_isLeaf (isLeaf_stub s t') m

/-- **The graph bounds the height of an expansion**: each level puts another type on the way. -/
theorem height_expansion_le (t : TypeId) (depth : Int) (way : List TypeId) :
    (expansion s opts t depth way).height ≤ 1 + (typeIds s \ way.toFinset).card := by
  refine expansion_shape_induction s opts (motive := fun _ way T ↦
    T.height ≤ 1 + (typeIds s \ way.toFinset).card) ?_ ?_ t depth way
  · intro depth way T hT
    rw [Tree.height_of_isLeaf hT]
    exact Nat.le_add_right _ _
  · -- One more level, and one type less that is not on the way.
    intro t r depth way l hr hway _ ih
    have hlt := card_typeIds_sdiff_cons_lt (s := s) (by simp [hr]) hway
    have hbelow : ∀ t' depth', (expansion s opts t' depth' (t :: way)).height ≤
        (typeIds s \ (t :: way).toFinset).card + 1 := by
      intro t' depth'
      rw [Nat.add_comm]
      exact ih t' depth'
    rw [Tree.height_setLabel]
    exact (Form.height_tree_le hbelow _).trans (by omega)

/-- **What holds everywhere in an expansion**: whatever holds of the leaves and of every type that
is expanded, drawn over expansions below it. -/
theorem everywhere_expansion_decorate {P : Tree → Prop} (leaf : ∀ T, T.isLeaf = true → P T)
    (form : ∀ t r depth way, s.type? t = some r → leaf? opts r depth (decide (t ∈ way)) = none →
      P (decorate opts depth ((Form.ofRecord opts r).tree
        (fun t' depth' ↦ expansion s opts t' depth' (t :: way)) s opts r depth)))
    (t : TypeId) (depth : Int) (way : List TypeId) :
    (expansion s opts t depth way).Everywhere P := by
  have hleaf : ∀ T : Tree, T.isLeaf = true → T.Everywhere P := fun T hT ↦
    everywhere_of_isLeaf hT (leaf T hT)
  induction t, depth, way using expansion_induction s opts with
  | missing t depth way hr =>
    rw [expansion_of_none hr]
    exact hleaf _ rfl
  | leaf t r depth way T hr hT =>
    obtain ⟨l, hl⟩ := decorate_eq_setLabel opts depth T
    rw [expansion_of_leaf hr hT, hl]
    exact hleaf _ ((T.isLeaf_setLabel l).trans (isLeaf_of_leaf? hT))
  | form t r depth way hr hT ih =>
    rw [expansion_of_form hr hT]
    refine everywhere_iff.2 ⟨form t r depth way hr hT, fun c hc ↦ ?_⟩
    obtain ⟨l, hl⟩ := decorate_eq_setLabel opts depth ((Form.ofRecord opts r).tree
      (fun t' depth' ↦ expansion s opts t' depth' (t :: way)) s opts r depth)
    rw [hl, branches_setLabel] at hc
    -- What is below the node is a leaf or an expansion, at whichever depth.
    cases below_of_mem_branches hc with
    | unresolved name => exact hleaf _ rfl
    | drawn t' => exact ih t' _
    | last t' => exact ih t' _

/-- The same for what does not depend on labels. -/
theorem everywhere_expansion {P : Tree → Prop} (leaf : ∀ T, T.isLeaf = true → P T)
    (form : ∀ t r (depth : Int) way l, s.type? t = some r →
      P (((Form.ofRecord opts r).tree (fun t' depth' ↦ expansion s opts t' depth' (t :: way))
        s opts r depth).setLabel l)) (t : TypeId) (depth : Int) (way : List TypeId) :
    (expansion s opts t depth way).Everywhere P := by
  refine everywhere_expansion_decorate s opts leaf (fun t r depth way hr _ ↦ ?_) t depth way
  obtain ⟨l, hl⟩ := decorate_eq_setLabel opts depth ((Form.ofRecord opts r).tree
    (fun t' depth' ↦ expansion s opts t' depth' (t :: way)) s opts r depth)
  rw [hl]
  exact form t r depth way l hr

end

/-- **Every expansion is bounded.** For a type of a snapshot that was read, at any depth and below
any types: unrolling the recursion often enough gives the same computation whatever deeper calls
would do; and unless it is cancelled, it answers a tree that keeps to the caps and is no higher than
there are types that are not on the way, and one. -/
theorem tree_bounded {bytes : ByteArray} {o : Oracle}
    (hparse : Snapshot.parse bytes = .ok o.snapshot) (hb : o.broken = none) (opts : Options)
    {t : TypeId} (ht : (o.snapshot.type? t).isSome) (d : Nat) (way : List TypeId) :
    (∀ stuck n, remaining o.snapshot way < n →
      (call o opts)^[n] stuck t d way = tree o opts t d way) ∧
    ∃ T, (∀ k, ((tree o opts t d way).run.run k).1 = .ok T ∨
        o.cancelFrom.isSome ∧ ((tree o opts t d way).run.run k).1 = .error .cancelled) ∧
      T.KeepsTo opts d ∧ T.height ≤ 1 + (typeIds o.snapshot \ way.toFinset).card := by
  have hclosed := Snapshot.closed_of_parse hparse
  refine ⟨fun stuck n hn ↦ iterate_call_eq_tree stuck hn t d,
    expansion o.snapshot opts t d way, fun k ↦ ?_, (bounded_expansion ..).keepsTo,
    height_expansion_le ..⟩
  rw [tree_eq_after hb hclosed ht]
  exact Oracle.answers_or_cancelled hb _ _ k

/-- The list node, which refers to itself, without any cap: below one level and with the link on the
way already. -/
theorem tree_bounded_sample : ∃ s, Snapshot.parse Snapshot.sampleText.toUTF8 = .ok s ∧
    (s.type? "node").isSome ∧
    (∀ stuck n, remaining s ["link"] < n →
      (call ⟨s, "/", none, none⟩ (Options.full {}))^[n] stuck "node" 1 ["link"] =
        tree ⟨s, "/", none, none⟩ (Options.full {}) "node" 1 ["link"]) ∧
    ∃ T, (∀ k, ((tree ⟨s, "/", none, none⟩ (Options.full {}) "node" 1 ["link"]).run.run k).1 =
        .ok T) ∧
      T.KeepsTo (Options.full {}) 1 ∧ T.height ≤ 3 := by
  obtain ⟨s, hparse, htypes, ht⟩ := Snapshot.exists_parse_sampleText
  have hcard : (typeIds s \ ["link"].toFinset).card = 2 := by
    rw [typeIds, htypes]
    decide
  obtain ⟨hunroll, T, hrun, hcaps, hheight⟩ := tree_bounded (o := ⟨s, "/", none, none⟩) hparse rfl
    (Options.full {}) ht 1 ["link"]
  refine ⟨s, hparse, ht, hunroll, T, fun k ↦ ?_, hcaps, ?_⟩
  · rcases hrun k with hok | ⟨hcancelled, -⟩
    · exact hok
    · cases hcancelled
  · rw [hcard] at hheight
    exact hheight

end Build

end TypeLens
