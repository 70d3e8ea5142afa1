import TypeLens.Proofs.Build.Expansion
import TypeLens.Proofs.Tree.Truncation

/-!
# Raising the caps

Raising the caps of the options only refines a tree: what is drawn under the lower caps is a
truncation of what is drawn under the higher ones (`tree_truncation`).

The step is about one type (`Form.truncation`): the caps do not decide on its form, so both trees
are trees of the same form, and it is enough that the types below are drawn as truncations. The
depth at which they are drawn is that of the type itself, one more in an object, or the greatest
depth where the options say that nothing is unwrapped; at the greatest depth both draw the same
leaf. The run is the induction along the expansion under the lower caps, with the number of levels
that are left as the index of the truncation.

The members of a union are cut before they are sorted, so that those shown under the lower cap need
not be the first ones shown under the higher. Since sorting is stable, they come in the same order.
-/

namespace TypeLens.Build

open TypeLens.Graph TypeLens.Tree

/-! ### Sorting a sublist -/

section

variable {α : Type} {le : α → α → Bool}

/-- Sorting a list with one item more puts the item behind the items below it and before the
others, which stay as they were. -/
private theorem mergeSort_cons_eq (htrans : ∀ a b c, le a b → le b c → le a c)
    (htotal : ∀ a b, (le a b || le b a) = true) (a : α) (xs : List α) :
    (a :: xs).mergeSort le =
      (xs.mergeSort le).filter (fun b ↦ !le a b) ++ a :: (xs.mergeSort le).filter (le a) := by
  obtain ⟨below, above, hcons, hxs, hbelow⟩ := List.mergeSort_cons htrans htotal a xs
  have hsorted := List.pairwise_mergeSort htrans htotal (a :: xs)
  rw [hcons, List.pairwise_append, List.pairwise_cons] at hsorted
  have habove : ∀ b ∈ above, le a b = true := hsorted.2.1.1
  have hb : ∀ b ∈ below, le a b = false := fun b hmem ↦ by simpa using hbelow b hmem
  rw [hcons, hxs, List.filter_append, List.filter_append,
    List.filter_eq_self.2 fun b hmem ↦ by simp [hb b hmem],
    List.filter_eq_nil_iff.2 fun b hmem ↦ by simp [habove b hmem],
    List.filter_eq_nil_iff.2 fun b hmem ↦ by simp [hb b hmem],
    List.filter_eq_self.2 habove, List.append_nil, List.nil_append]

/-- A stable sort keeps sublists: what is left out before sorting is missing after it. -/
private theorem mergeSort_sublist (htrans : ∀ a b c, le a b → le b c → le a c)
    (htotal : ∀ a b, (le a b || le b a) = true) {xs ys : List α} (h : xs.Sublist ys) :
    (xs.mergeSort le).Sublist (ys.mergeSort le) := by
  induction h with
  | slnil => exact List.Sublist.refl _
  | @cons xs ys a _ ih =>
    obtain ⟨below, above, hcons, hys, -⟩ := List.mergeSort_cons htrans htotal a ys
    rw [hys] at ih
    rw [hcons]
    exact ih.trans ((List.sublist_cons_self a above).append_left below)
  | @cons_cons xs ys a _ ih =>
    -- The common item splits both sorted lists in the same way.
    rw [mergeSort_cons_eq htrans htotal, mergeSort_cons_eq htrans htotal]
    exact (ih.filter _).append ((ih.filter _).cons_cons a)

end

/-- Sorting fewer members gives fewer members in the same order, for the sort is stable. -/
theorem sortByRank_sublist (s : Snapshot) {xs ys : List TypeId} (h : xs.Sublist ys) :
    (s.sortByRank xs).Sublist (s.sortByRank ys) := by
  refine List.Sublist.map _ (mergeSort_sublist ?_ ?_ (h.map _))
  · intro a b c hab hbc
    simp only [decide_eq_true_eq] at hab hbc ⊢
    exact Nat.le_trans hab hbc
  · intro a b
    simpa using Nat.le_total a.1 b.1

/-! ### One type -/

section

variable {a b : Options} {f g : TypeId → Int → Tree} {n : Nat} {depth : Int}

theorem argumentTree_truncation {da db : Int}
    (h : ∀ t, Truncation n (f t da) (g t db)) (unresolved : String) (x : Option TypeId) :
    Truncation n (argumentTree f unresolved da x) (argumentTree g unresolved db x) :=
  rel_argumentTree h (Truncation.basic_self n) unresolved x

/-- What is drawn of the types of a signature. -/
theorem signatureTree_truncation {da db : Int}
    (h : ∀ t, Truncation n (f t da) (g t db)) (c : Callable) :
    ∀ q ∈ (signatureTree f da c).types.zip (signatureTree g db c).types,
      Truncation n q.1 q.2 := by
  simp only [signatureTree, Signature.types, List.map_map, List.zip_cons_cons, List.mem_cons]
  rintro q (rfl | hq)
  · exact argumentTree_truncation h "void" c.result
  · exact Truncation.of_mem_zip_map (fun x _ ↦ h x.type) q hq

/-- The types below do not show in the header of a signature. -/
theorem header_signatureTree (da db : Int) (c : Callable) :
    (signatureTree f da c).header = (signatureTree g db c).header := by
  simp [signatureTree, Signature.header, parameterTree, Parameter.header, Function.comp_def]

/-- The limit on the entries of an object is lower under lower caps. -/
theorem entryLimit_le (hcaps : a.CapsLE b) (depth : Int) :
    entryLimit a depth ≤ entryLimit b depth := by
  unfold entryLimit
  split
  · exact hcaps.maxSubProperties
  · exact hcaps.maxProperties

/-- Shown and left out under a limit are as many as there are. -/
theorem length_take_add {α : Type} (xs : List α) (limit : Nat) :
    ((xs.take limit).length : Int) + (xs.length - limit : Nat) = xs.length := by
  rw [List.length_take]
  omega

/-- **The step.** When the types below are drawn as truncations, so is a type in any form. -/
theorem Form.truncation (s : Snapshot) (r : TypeRecord) (hpolicies : a.SamePolicies b)
    (hcaps : a.CapsLE b)
    (hsame : ∀ t, Truncation (n + 1) (f t depth) (g t depth))
    (hnext : ∀ t, Truncation n (f t (depth + 1)) (g t (depth + 1)))
    (hlast : ∀ t, Truncation (n + 1) (f t a.maxDepth) (g t b.maxDepth)) (F : Form) :
    Truncation (n + 1) (F.tree f s a r depth) (F.tree g s b r depth) := by
  -- What is below a function or an array is drawn at the same depth, or else at the greatest.
  have hbelow := rel_depthBelow hsame hlast
  cases F with
  | enumMember => exact .enumMember n _ _
  | suppressed => exact .reference n _
  | bare => exact .basic n _
  | promise => exact .promise (argumentTree_truncation hsame _ _)
  | array =>
    rw [Form.tree, Form.tree, hpolicies.unwrapArrays]
    exact .array (argumentTree_truncation (hbelow _) _ _)
  | intersection =>
    exact .intersection (by simp) (Truncation.of_mem_zip_map fun t _ ↦ hsame t)
  | tuple =>
    exact .tuple (by simp) (Truncation.of_mem_zip_map fun x _ ↦ argumentTree_truncation hsame _ x)
  | generic =>
    exact .generic (by simp) (Truncation.of_mem_zip_map fun x _ ↦ argumentTree_truncation hsame _ x)
  | union =>
    -- The members are cut first and sorted then, so prefixes become sublists.
    have hmembers : (r.members.take a.maxUnionMembers).Sublist
        (r.members.take b.maxUnionMembers) := List.take_sublist_take_left hcaps.maxUnionMembers
    have hshown := (sortByRank_sublist s hmembers).map (g · depth)
    refine .union hshown (by simp) (Truncation.of_mem_zip_map fun t _ ↦ hsame t) ?_
    simp only [List.length_map, length_sortByRank, length_take_add]
  | function =>
    rw [Form.tree, Form.tree, hpolicies.unwrapFunctions]
    have hshown := (List.take_prefix_take_left (l := r.callables) hcaps.maxSignatures).map
      (signatureTree g (depthBelow b b.unwrapFunctions depth))
    refine .function hshown ?_ ?_ ?_
    · rw [List.map_map, List.map_map]
      exact List.map_congr_left fun c _ ↦ header_signatureTree ..
    · intro p hp
      rw [List.zip_map', List.mem_map] at hp
      obtain ⟨c, -, rfl⟩ := hp
      exact signatureTree_truncation (hbelow _) c
    · simp only [List.length_map, length_take_add]
  | object =>
    rw [Form.tree, Form.tree, hpolicies.hidePrivate]
    have hshown := (List.take_prefix_take_left (l := r.offered b.hidePrivate)
      (entryLimit_le hcaps depth)).map (propertyTree g depth)
    refine .object hshown ?_ ?_ ?_
    · rw [List.map_map, List.map_map]
      rfl
    · intro p hp
      rw [List.zip_map', List.mem_map] at hp
      obtain ⟨x, -, rfl⟩ := hp
      exact hnext x.type
    · simp only [List.length_map, length_take_add]

end

/-! ### The whole tree -/

/-- What is shown where nothing is expanded does not depend on the caps. -/
theorem stub_truncation (n : Nat) (s : Snapshot) (t : TypeId) :
    Truncation n (stub s t) (stub s t) := by
  unfold stub
  split
  · exact .basic_self n _
  · split_ifs
    · exact .primitive n _
    · exact .basic_self n _

/-- What is shown where nothing is expanded stands for the tree, whatever that is. -/
theorem stub_truncation_expansion (s : Snapshot) {opts : Options}
    (hparts : opts.displayParts = false) (t : TypeId) (depth : Int) (way : List TypeId) :
    Truncation 0 (stub s t) (expansion s opts t depth way) := by
  rcases hr : s.type? t with - | r
  · simp only [stub, hr]
    exact .cut _ _
  · by_cases hprimitive : r.category = .primitive
    · have hleaf : leaf? opts r depth (decide (t ∈ way)) = some (.primitive (named r.name)) :=
        if_pos hprimitive
      rw [expansion_of_leaf hr hleaf, decorate_of_displayParts_eq_false hparts]
      simp only [stub, hr, if_pos hprimitive]
      exact .primitive 0 _
    · simp only [stub, hr, if_neg hprimitive]
      exact .cut _ _

/-- A leaf above the greatest depth is a truncation of itself. -/
theorem leaf?_truncation {opts : Options} {r : TypeRecord} {depth : Int} {onWay : Bool}
    {leaf : Tree} (hleaf : leaf? opts r depth onWay = some leaf) (hdepth : depth < opts.maxDepth)
    (n : Nat) : Truncation (n + 1) leaf leaf := by
  unfold leaf? at hleaf
  rw [if_neg (Int.not_le.2 hdepth)] at hleaf
  split_ifs at hleaf <;> obtain rfl := Option.some.inj hleaf
  · exact .primitive _ _
  · exact .basic _ _
  · exact .reference _ _

/-- **The run.** The tree of a type under the lower caps is a truncation of the tree under the
higher ones, by as many levels as are left at the depth. -/
theorem expansion_truncation (s : Snapshot) {a b : Options} (hpolicies : a.SamePolicies b)
    (hparts : a.displayParts = false) (hcaps : a.CapsLE b) (t : TypeId) (depth : Int)
    (way : List TypeId) :
    Truncation (a.maxDepth - depth).toNat (expansion s a t depth way)
      (expansion s b t depth way) := by
  have hparts' : b.displayParts = false := hpolicies.displayParts ▸ hparts
  have hmax : (a.maxDepth : Int) ≤ b.maxDepth := Int.ofNat_le.2 hcaps.maxDepth
  induction t, depth, way using expansion_induction s a with
  | missing t depth way hr =>
    rw [expansion_of_none hr, expansion_of_none hr]
    exact .basic_self _ _
  | leaf t r depth way leaf hr hleaf =>
    -- Above the greatest depth both show the same leaf; from it on the leaf may stand for anything.
    by_cases hdepth : depth < a.maxDepth
    · obtain ⟨n, hn⟩ : ∃ n, (a.maxDepth - depth).toNat = n + 1 :=
        ⟨(a.maxDepth - depth).toNat - 1, by omega⟩
      have hleaf' := hleaf
      rw [leaf?_congr hpolicies hdepth (by omega)] at hleaf'
      rw [hn, expansion_of_leaf hr hleaf, expansion_of_leaf hr hleaf',
        decorate_of_displayParts_eq_false hparts, decorate_of_displayParts_eq_false hparts']
      exact leaf?_truncation hleaf hdepth n
    · have hn : (a.maxDepth - depth).toNat = 0 := by omega
      rw [hn, expansion_of_maxDepth_le (Int.not_lt.1 hdepth)]
      exact stub_truncation_expansion s hparts' t depth way
  | form t r depth way hr hleaf ih =>
    obtain ⟨hdepth, -⟩ := of_leaf?_eq_none hleaf
    obtain ⟨n, hn⟩ : ∃ n, (a.maxDepth - depth).toNat = n + 1 :=
      ⟨(a.maxDepth - depth).toNat - 1, by omega⟩
    have hleaf' := hleaf
    rw [leaf?_congr hpolicies hdepth (by omega)] at hleaf'
    rw [hn, expansion_of_form hr hleaf, expansion_of_form hr hleaf',
      decorate_of_displayParts_eq_false hparts, decorate_of_displayParts_eq_false hparts',
      ← Form.ofRecord_congr hpolicies]
    refine Form.truncation s r hpolicies hcaps ?_ ?_ ?_ _
    · intro t'
      exact hn ▸ ih t' depth
    · intro t'
      have hnext : (a.maxDepth - (depth + 1)).toNat = n := by omega
      exact hnext ▸ ih t' (depth + 1)
    · intro t'
      rw [expansion_of_maxDepth_le (Int.le_refl _), expansion_of_maxDepth_le (Int.le_refl _)]
      exact stub_truncation _ s t'

/-- **Raising the caps only refines the tree.** For a type of a snapshot that was read, without a
cancellation, both expansions answer, and the tree under the lower caps is a truncation of the tree
under the higher ones by as many object levels as the lower cap on the depth allows. -/
theorem tree_truncation {bytes : ByteArray} {o : Oracle}
    (hparse : Snapshot.parse bytes = .ok o.snapshot) (hb : o.broken = none)
    (hc : o.cancelFrom = none) {t : TypeId} (ht : (o.snapshot.type? t).isSome) {a b : Options}
    (hpolicies : a.SamePolicies b) (hparts : a.displayParts = false) (hcaps : a.CapsLE b)
    (k : Nat) :
    ∃ T T', ((tree o a t 0 []).run.run k).1 = .ok T ∧ ((tree o b t 0 []).run.run k).1 = .ok T' ∧
      Truncation a.maxDepth T T' := by
  have hclosed := Snapshot.closed_of_parse hparse
  refine ⟨expansion o.snapshot a t 0 [], expansion o.snapshot b t 0 [], ?_, ?_, ?_⟩
  · rw [tree_eq_after hb hclosed ht, Oracle.run_after hb hc]
  · rw [tree_eq_after hb hclosed ht, Oracle.run_after hb hc]
  · simpa using expansion_truncation o.snapshot hpolicies hparts hcaps t 0 []

/-- The list node with one level and one union member, and with the usual caps. -/
theorem tree_truncation_sample : ∃ s, Snapshot.parse Snapshot.sampleText.toUTF8 = .ok s ∧
    (s.type? "node").isSome ∧
    ∃ T T', ((tree ⟨s, "/", none, none⟩ { maxDepth := 1, maxUnionMembers := 1 } "node" 0 []).run.run
        0).1 = .ok T ∧
      ((tree ⟨s, "/", none, none⟩ {} "node" 0 []).run.run 0).1 = .ok T' ∧ Truncation 1 T T' := by
  obtain ⟨s, hparse, -, ht⟩ := Snapshot.exists_parse_sampleText
  refine ⟨s, hparse, ht, ?_⟩
  exact tree_truncation (o := ⟨s, "/", none, none⟩)
    (a := { maxDepth := 1, maxUnionMembers := 1 }) (b := {}) hparse rfl rfl ht
    ⟨rfl, rfl, rfl, rfl, rfl, rfl⟩ rfl ⟨by decide, by decide, by decide, by decide, by decide⟩ 0

end TypeLens.Build
