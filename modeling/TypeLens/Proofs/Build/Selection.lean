import Mathlib.Data.List.Forall2
import TypeLens.Proofs.Build.Truncation
import TypeLens.Proofs.Build.Visibility

/-!
# What a capped node shows

A union, an object or a function shows no more than its cap allows, and counts the rest. Which of
its members these are, and in which order, is said here against the record of the type alone
(`tree_shows_first`).

* The members of a union are cut first and put in order then. The order is not spelled out by ranks,
  as the sort has it, but by what it is for: some primitive types stand first and two stand last, in
  the order in which their names are listed, and all others keep their places between them
  (`Arranged`). This is because a stable sort collects the members rank by rank
  (`mergeSort_eq_flatMap_filter`).
* The entries of an object are the first ones of its index signatures and visible members in a row.
* The signatures of a function are the first ones.

What is shown of a member is what the same expansion answers for it (`Built`), one level down in an
object, and at the greatest depth in a function whose types are not to be expanded.
-/

namespace TypeLens.Build

open TypeLens.Graph

/-! ### Sorting by a rank -/

section

variable {α : Type} (rank : α → Nat)

private theorem rank_trans (a b c : α) :
    decide (rank a ≤ rank b) → decide (rank b ≤ rank c) → decide (rank a ≤ rank c) := by
  simp only [decide_eq_true_eq]
  exact Nat.le_trans

private theorem rank_total (a b : α) :
    (decide (rank a ≤ rank b) || decide (rank b ≤ rank a)) = true := by
  simpa using Nat.le_total (rank a) (rank b)

/-- Among the items of one rank a stable sort changes nothing. -/
theorem filter_mergeSort (i : Nat) (xs : List α) :
    (xs.mergeSort fun a b ↦ rank a ≤ rank b).filter (rank · = i) = xs.filter (rank · = i) := by
  have hsame : (xs.filter (rank · = i)).Pairwise fun a b ↦ decide (rank a ≤ rank b) = true := by
    refine List.pairwise_of_forall_mem_list fun a ha b hb ↦ ?_
    have hi : rank a = i := by simpa using (List.mem_filter.1 ha).2
    have hj : rank b = i := by simpa using (List.mem_filter.1 hb).2
    exact decide_eq_true (by omega)
  -- The items of the rank are a sublist of the sorted list, and there are as many of them in it.
  have hsub := (List.sublist_mergeSort (rank_trans rank) (rank_total rank) hsame
    List.filter_sublist).filter (rank · = i)
  rw [List.filter_filter] at hsub
  simp only [Bool.and_self] at hsub
  exact (hsub.eq_of_length ((List.mergeSort_perm xs _).filter _).length_eq.symm).symm

/-- Behind the items below a rank stand those of the rank, in a list that is in order. -/
theorem filter_lt_append_filter_eq {xs : List α} (h : xs.Pairwise fun a b ↦ rank a ≤ rank b)
    (n : Nat) : xs.filter (rank · < n) ++ xs.filter (rank · = n) = xs.filter (rank · < n + 1) := by
  induction xs with
  | nil => rfl
  | cons x xs ih =>
    obtain ⟨hx, hxs⟩ := List.pairwise_cons.1 h
    rcases Nat.lt_or_ge (rank x) n with hlt | hge
    · have hne : rank x ≠ n := by omega
      have hle : rank x < n + 1 := by omega
      rw [List.filter_cons, List.filter_cons, List.filter_cons, if_pos (decide_eq_true hlt),
        if_neg (by simpa using hne), if_pos (decide_eq_true hle), List.cons_append, ih hxs]
    · -- From here on no rank is below `n`.
      have hnone : xs.filter (rank · < n) = [] :=
        List.filter_eq_nil_iff.2 fun y hy ↦ by simpa using Nat.le_trans hge (hx y hy)
      have hrest := ih hxs
      rw [hnone, List.nil_append] at hrest
      have hsame : decide (rank x = n) = decide (rank x < n + 1) := decide_eq_decide.2 (by omega)
      rw [List.filter_cons_of_neg (by simpa using hge), hnone, List.nil_append, List.filter_cons,
        List.filter_cons, hsame, hrest]

/-- **A stable sort collects the items rank by rank.** -/
theorem mergeSort_eq_flatMap_filter {n : Nat} {xs : List α} (h : ∀ x ∈ xs, rank x < n) :
    (xs.mergeSort fun a b ↦ rank a ≤ rank b) =
      (List.range n).flatMap fun i ↦ xs.filter (rank · = i) := by
  obtain ⟨sorted, hsorted⟩ : ∃ sorted, (xs.mergeSort fun a b ↦ rank a ≤ rank b) = sorted := ⟨_, rfl⟩
  have horder : sorted.Pairwise fun a b ↦ rank a ≤ rank b :=
    hsorted ▸ (List.pairwise_mergeSort (rank_trans rank) (rank_total rank) xs).imp of_decide_eq_true
  have hcollect : ∀ m, (List.range m).flatMap (fun i ↦ sorted.filter (rank · = i)) =
      sorted.filter (rank · < m) := by
    intro m
    induction m with
    | zero => simp
    | succ m ih =>
      rw [List.range_succ, List.flatMap_append, ih, List.flatMap_singleton,
        filter_lt_append_filter_eq rank horder]
  have hall : sorted.filter (rank · < n) = sorted :=
    List.filter_eq_self.2 fun x hx ↦ decide_eq_true (h x (List.mem_mergeSort.1 (hsorted ▸ hx)))
  have hsame : ∀ i, sorted.filter (rank · = i) = xs.filter (rank · = i) := fun i ↦
    hsorted ▸ filter_mergeSort rank i xs
  rw [hsorted, ← hall, ← hcollect n]
  simp only [hsame]

end

/-! ### The order of a union -/

/-- The names of the primitive types that stand first in a union. -/
def leadingNames : List String :=
  ["string", "number", "bigint", "boolean", "symbol"]

/-- The names of the primitive types that stand last in a union. -/
def trailingNames : List String :=
  ["null", "undefined"]

/-- Whether a type is the primitive type of a name. -/
def isPrimitiveNamed (s : Snapshot) (name : String) (t : TypeId) : Bool :=
  (s.type? t).any fun r ↦ r.category == .primitive && r.name == name

/-- Whether a type keeps its place among the others of a union. -/
def keepsPlace (s : Snapshot) (t : TypeId) : Bool :=
  (leadingNames ++ trailingNames).all fun name ↦ !isPrimitiveNamed s name t

/-- The members of a union in the order they are shown. -/
structure Arranged (s : Snapshot) (members shown : List TypeId) : Prop where
  /-- No member is lost or shown twice. -/
  perm : shown.Perm members
  /-- The leading types stand first, name by name, then the others, then the trailing types. Members
  of the same kind keep their order. -/
  order : shown =
    (leadingNames.flatMap fun name ↦ members.filter (isPrimitiveNamed s name)) ++
      members.filter (keepsPlace s) ++
        trailingNames.flatMap fun name ↦ members.filter (isPrimitiveNamed s name)

theorem primitiveRank_lt (name : String) : primitiveRank name < 8 := by
  unfold primitiveRank
  split <;> decide

/-- The names that are listed are told apart by their ranks, and from all other names. -/
theorem primitiveRank_eq_iff {name : String} (h : name ∈ leadingNames ++ trailingNames)
    (name' : String) : primitiveRank name' = primitiveRank name ↔ name' = name := by
  refine ⟨fun heq ↦ ?_, fun heq ↦ heq ▸ rfl⟩
  simp only [leadingNames, trailingNames, List.cons_append, List.nil_append, List.mem_cons,
    List.not_mem_nil, or_false] at h
  rcases h with rfl | rfl | rfl | rfl | rfl | rfl | rfl
  all_goals
    unfold primitiveRank at heq
    split at heq <;> simp_all [middleRank]

/-- The ranks in order are those of the leading names, the middle one and those of the trailing
names. -/
theorem range_eq_ranks : List.range 8 =
    leadingNames.map primitiveRank ++ [middleRank] ++ trailingNames.map primitiveRank := by
  decide

section

variable {s : Snapshot} {t : TypeId}

/-- There are eight ranks. -/
theorem rank_lt (s : Snapshot) (t : TypeId) : s.rank t < 8 := by
  unfold Snapshot.rank
  split
  · split_ifs
    · exact primitiveRank_lt _
    · decide
  · decide

/-- A rank that is listed is the rank of the primitive types of one name. -/
theorem rank_eq_iff {name : String} (h : name ∈ leadingNames ++ trailingNames) :
    s.rank t = primitiveRank name ↔ isPrimitiveNamed s name t = true := by
  have hmiddle : middleRank ≠ primitiveRank name := by
    have hall : ∀ name ∈ leadingNames ++ trailingNames, middleRank ≠ primitiveRank name := by decide
    exact hall name h
  rw [Snapshot.rank, isPrimitiveNamed]
  rcases s.type? t with - | r
  · simpa using hmiddle
  · by_cases hprimitive : r.category = .primitive
    · simp [hprimitive, primitiveRank_eq_iff h]
    · simpa [hprimitive] using hmiddle

/-- The middle rank is that of all others. -/
theorem rank_eq_middleRank_iff : s.rank t = middleRank ↔ keepsPlace s t = true := by
  have hother : keepsPlace s t = true ↔
      ∀ name ∈ leadingNames ++ trailingNames, s.rank t ≠ primitiveRank name := by
    simp only [keepsPlace, List.all_eq_true, Bool.not_eq_true', Bool.eq_false_iff]
    exact forall₂_congr fun name hname ↦ not_congr (rank_eq_iff hname).symm
  have hlt := rank_lt s t
  rw [hother]
  generalize s.rank t = i at hlt
  revert i
  decide

theorem sortByRank_eq (s : Snapshot) (members : List TypeId) :
    s.sortByRank members = members.mergeSort fun a b ↦ s.rank a ≤ s.rank b := by
  rw [Snapshot.sortByRank, ← List.map_mergeSort (r := fun a b ↦ s.rank a ≤ s.rank b)
    (f := fun t ↦ (s.rank t, t)) (fun _ _ _ _ ↦ rfl), List.map_map]
  exact List.map_id _

/-- **The sort puts the members of a union in order.** -/
theorem arranged_sortByRank (s : Snapshot) (members : List TypeId) :
    Arranged s members (s.sortByRank members) where
  perm := sortByRank_eq s members ▸ List.mergeSort_perm _ _
  order := by
    have hnamed : ∀ names ⊆ leadingNames ++ trailingNames,
        (names.flatMap fun name ↦ members.filter (s.rank · = primitiveRank name)) =
          names.flatMap fun name ↦ members.filter (isPrimitiveNamed s name) := by
      intro names hnames
      refine List.flatMap_congr fun name hname ↦ List.filter_congr fun t _ ↦ ?_
      rw [Bool.eq_iff_iff, decide_eq_true_iff]
      exact rank_eq_iff (hnames hname)
    have hmiddle : members.filter (s.rank · = middleRank) = members.filter (keepsPlace s) := by
      refine List.filter_congr fun t _ ↦ ?_
      rw [Bool.eq_iff_iff, decide_eq_true_iff]
      exact rank_eq_middleRank_iff
    rw [sortByRank_eq, mergeSort_eq_flatMap_filter s.rank fun t _ ↦ rank_lt s t, range_eq_ranks,
      List.flatMap_append, List.flatMap_append, List.flatMap_map, List.flatMap_map,
      List.flatMap_singleton, hmiddle, hnamed _ (List.subset_append_left _ _),
      hnamed _ (List.subset_append_right _ _)]

end

/-! ### What is shown of a member -/

section

variable (o : Oracle) (opts : Options) (depth : Int) (way : List TypeId)

/-- What the expansion answers for a type when it is not cancelled. -/
def Built (t : TypeId) (c : Tree) : Prop :=
  ∀ k, ((tree { o with cancelFrom := none } opts t depth way).run.run k).1 = .ok c

/-- What is shown of a property. -/
structure PropertyBuilt (x : Property TypeId) (p : Property Tree) : Prop where
  header : p.header = x.header
  type : Built o opts depth way x.type p.type

/-- What is shown of a parameter. -/
structure ParameterBuilt (x : ParameterRecord) (p : Parameter Tree) : Prop where
  header : p.header = (x.name, x.optional, x.rest)
  type : Built o opts depth way x.type p.type

/-- What is shown of a signature. A result type that is not known is shown as `void`. -/
structure SignatureBuilt (x : SignatureRecord) (q : Signature Tree) : Prop where
  result : ∀ t, x.returnType = some t → Built o opts depth way t q.result
  unknown : x.returnType = none → q.result = .basic (named "void")
  parameters : List.Forall₂ (ParameterBuilt o opts depth way) x.parameters q.parameters

end

/-- A capped node shows the first of what its type has, and counts the rest. The node is that of a
type at a depth, below the types on the way. -/
def ShowsFirst (o : Oracle) (opts : Options) (t : TypeId) (r : TypeRecord) (depth : Nat)
    (way : List TypeId) : Tree → Prop
  | .union _ ms e =>
    (∃ shown, Arranged o.snapshot (r.members.take opts.maxUnionMembers) shown ∧
      List.Forall₂ (Built o opts depth (t :: way)) shown ms) ∧
    ms.length + e = r.members.length
  | .object _ ps e =>
    List.Forall₂ (PropertyBuilt o opts (depth + 1) (t :: way))
      ((r.indexSignatures.map IndexSignature.property ++
          (r.visibleMembers opts.hidePrivate).map Member.property).take
        (if depth = 0 then opts.maxProperties else opts.maxSubProperties)) ps ∧
    ps.length + e = r.indexSignatures.length + (r.visibleMembers opts.hidePrivate).length
  | .function _ ss e =>
    List.Forall₂
      (SignatureBuilt o opts (depthBelow opts opts.unwrapFunctions depth) (t :: way))
      (r.callSignatures.take opts.maxSignatures) ss ∧
    ss.length + e = r.callSignatures.length
  | _ => True

section

variable {o : Oracle} {opts : Options} {t : TypeId} {r : TypeRecord} {depth : Nat}
  {way : List TypeId}

/-- The expansion of a type in a closed snapshot is what is built for it. -/
theorem built_expansion (hb : o.broken = none) (hclosed : o.snapshot.Closed)
    (ht : (o.snapshot.type? t).isSome) (depth : Int) (way : List TypeId) :
    Built o opts depth way t (expansion o.snapshot opts t depth way) := by
  intro k
  rw [tree_eq_after (o := { o with cancelFrom := none }) hb hclosed ht,
    Oracle.run_after (o := { o with cancelFrom := none }) hb rfl]

theorem showsFirst_of_isLeaf {T : Tree} (hT : T.isLeaf = true) :
    ShowsFirst o opts t r depth way T := by
  cases T with
  | primitive | basic | reference => trivial
  | _ => cases hT

/-- The signatures of a type are drawn over the expansions below it. -/
theorem signatureBuilt_signatureTree (hb : o.broken = none) (hclosed : o.snapshot.Closed)
    {x : SignatureRecord} (hresult : ∀ u, x.returnType = some u → (o.snapshot.type? u).isSome)
    (hparameters : ∀ p ∈ x.parameters, (o.snapshot.type? p.type).isSome) (depth : Int)
    (way : List TypeId) :
    SignatureBuilt o opts depth way x
      (signatureTree (fun u d ↦ expansion o.snapshot opts u d way) depth x.callable) where
  result := by
    intro u hu
    rw [signatureTree, SignatureRecord.callable, hu]
    exact built_expansion hb hclosed (hresult u hu) depth way
  unknown := by
    intro hnone
    rw [signatureTree, SignatureRecord.callable, hnone]
    rfl
  parameters := by
    rw [signatureTree, SignatureRecord.callable]
    simp only [List.map_map, List.forall₂_map_right_iff, List.forall₂_same]
    intro p hp
    refine ⟨?_, built_expansion hb hclosed (hparameters p hp) depth way⟩
    simp [Parameter.header, parameterTree, ParameterRecord.argument, Argument.isOptional,
      Argument.isRest]

/-- **The step.** The tree of a type in any form shows what the caps let through. -/
theorem Form.showsFirst_tree (hb : o.broken = none) (hclosed : o.snapshot.Closed)
    (hr : o.snapshot.type? t = some r) (l : Label) (F : Form) :
    ShowsFirst o opts t r depth way
      ((F.tree (fun u d ↦ expansion o.snapshot opts u d (t :: way)) o.snapshot opts r
        depth).setLabel l) := by
  have hrefs := hclosed.references hr
  have hbuilt : ∀ u ∈ r.references, ∀ d,
      Built o opts d (t :: way) u (expansion o.snapshot opts u d (t :: way)) :=
    fun u hu d ↦ built_expansion hb hclosed (hrefs u hu) d (t :: way)
  -- Only unions, objects and functions have caps; the other forms show all they have.
  cases F with
  | union =>
    refine ⟨⟨_, arranged_sortByRank _ _, ?_⟩, ?_⟩
    · rw [List.forall₂_map_right_iff, List.forall₂_same]
      intro u hu
      have hmember := List.mem_of_mem_take (mem_sortByRank.1 hu)
      exact hbuilt u (TypeRecord.mem_references_of_members hmember) depth
    · rw [List.length_map, length_sortByRank, length_take_add]
  | object =>
    have hlimit : entryLimit opts depth =
        if depth = 0 then opts.maxProperties else opts.maxSubProperties := by
      unfold entryLimit
      rcases Nat.eq_zero_or_pos depth with rfl | hpos
      · rfl
      · rw [if_pos (by omega), if_neg (by omega)]
    refine ⟨?_, (drawnFrom_take r opts.hidePrivate _ _).count⟩
    rw [← TypeRecord.offered, ← hlimit, List.forall₂_map_right_iff, List.forall₂_same]
    intro x hx
    have href := TypeRecord.mem_references_of_offered (List.mem_of_mem_take hx)
    exact ⟨rfl, hbuilt x.type href (depth + 1)⟩
  | function =>
    refine ⟨?_, ?_⟩
    · rw [TypeRecord.callables, ← List.map_take, List.map_map, List.forall₂_map_right_iff,
        List.forall₂_same]
      intro x hx
      have hmem : x.callable ∈ r.callables := List.mem_map_of_mem (List.mem_of_mem_take hx)
      obtain ⟨hresult, harguments⟩ := TypeRecord.mem_references_of_callables hmem
      refine signatureBuilt_signatureTree hb hclosed (fun u hu ↦ hrefs u (hresult u hu)) ?_ _ _
      intro p hp
      exact hrefs _ (harguments p.argument (List.mem_map_of_mem hp))
    · rw [List.length_map, length_take_add, TypeRecord.callables, List.length_map]
  | _ => trivial

/-- **Capped nodes show the first of their members, in order, and count the rest.** For a type of a
snapshot that was read, at any depth and below any types: a call of the expansion that answers a
union, an object or a function shows what the caps let through of the type's record. -/
theorem tree_shows_first {bytes : ByteArray} (hparse : Snapshot.parse bytes = .ok o.snapshot)
    (hb : o.broken = none) {k k' : Nat} {T : Tree}
    (hrun : (tree o opts t depth way).run.run k = (.ok T, k')) :
    ∃ r, o.snapshot.type? t = some r ∧ ShowsFirst o opts t r depth way T := by
  have hclosed := Snapshot.closed_of_parse hparse
  obtain ⟨ht, rfl⟩ := eq_expansion_of_run hb hclosed hrun
  obtain ⟨r, hr⟩ := Option.isSome_iff_exists.1 ht
  refine ⟨r, hr, ?_⟩
  rcases hleaf : leaf? opts r depth (decide (t ∈ way)) with - | leaf
  · rw [expansion_of_form hr hleaf]
    obtain ⟨l, hl⟩ := decorate_eq_setLabel opts depth _
    rw [hl]
    exact Form.showsFirst_tree hb hclosed hr l _
  · rw [expansion_of_leaf hr hleaf]
    obtain ⟨l, hl⟩ := decorate_eq_setLabel opts depth leaf
    rw [hl]
    exact showsFirst_of_isLeaf ((leaf.isLeaf_setLabel l).trans (isLeaf_of_leaf? hleaf))

end

/-! ### A sample

The link of the list node, which lists `undefined` first and shows it last. -/

/-- The tree of the link, with one level. -/
def linkTree : Tree :=
  .union (named "Node | undefined")
    [.object (named "Node") [⟨"next", false, false, .basic (named "Node | undefined")⟩] 0,
      .primitive (named "undefined")] 0

/-- The link is expanded into the node and the plain type, in this order. -/
theorem expansion_link {s : Snapshot} (htypes : s.types = Snapshot.sampleTypes) :
    expansion s { maxDepth := 1 } "link" 0 [] = linkTree := by
  obtain ⟨hnode, hlink, hnothing⟩ := Snapshot.type?_of_sampleTypes htypes
  have horder : s.sortByRank ["nothing", "node"] = ["node", "nothing"] := by
    rw [(arranged_sortByRank s _).order]
    simp [leadingNames, trailingNames, isPrimitiveNamed, keepsPlace, hnothing, hnode]
  -- The link is too deep below the node, and the plain type is a leaf anywhere.
  have hbelow : expansion s { maxDepth := 1 } "link" 1 ["node", "link"] =
      .basic (named "Node | undefined") := expansion_of_leaf hlink rfl
  have hleaf : expansion s { maxDepth := 1 } "nothing" 0 ["link"] =
      .primitive (named "undefined") := expansion_of_leaf hnothing rfl
  have hobject : expansion s { maxDepth := 1 } "node" 0 ["link"] =
      .object (named "Node") [⟨"next", false, false, .basic (named "Node | undefined")⟩] 0 := by
    rw [expansion_of_form hnode rfl, decorate_of_displayParts_eq_false rfl,
      show Form.ofRecord _ _ = Form.object by decide]
    exact congrArg (fun c ↦ Tree.object (named "Node") [⟨"next", false, false, c⟩] 0) hbelow
  rw [expansion_of_form hlink rfl, decorate_of_displayParts_eq_false rfl,
    show Form.ofRecord _ _ = Form.union by decide, Form.tree, linkTree]
  simp [horder, hobject, hleaf]

/-- The link is shown with its two members in the other order. -/
theorem tree_shows_first_sample : ∃ s k', Snapshot.parse Snapshot.sampleText.toUTF8 = .ok s ∧
    (tree ⟨s, "/", none, none⟩ { maxDepth := 1 } "link" 0 []).run.run 0 = (.ok linkTree, k') ∧
    ∃ r, s.type? "link" = some r ∧
      ShowsFirst ⟨s, "/", none, none⟩ { maxDepth := 1 } "link" r 0 [] linkTree := by
  obtain ⟨s, hparse, htypes, -⟩ := Snapshot.exists_parse_sampleText
  have ht : (s.type? "link").isSome := by
    rw [(Snapshot.type?_of_sampleTypes htypes).2.1]
    rfl
  have hrun : (tree ⟨s, "/", none, none⟩ { maxDepth := 1 } "link" (0 : Nat) []).run.run 0 =
      (.ok linkTree, 0 + linkTree.entries) := by
    rw [Int.natCast_zero, tree_eq_after rfl (Snapshot.closed_of_parse hparse) ht,
      expansion_link htypes, Oracle.run_after rfl rfl]
  exact ⟨s, _, hparse, hrun, tree_shows_first (o := ⟨s, "/", none, none⟩) hparse rfl hrun⟩

end TypeLens.Build
