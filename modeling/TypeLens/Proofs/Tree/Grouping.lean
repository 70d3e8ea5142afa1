import TypeLens.Proofs.Tree.Plain

/-!
# What the text of a plain tree shows

`Tree.regroup` is what a reader makes of the text of a plain tree, who takes `&` to bind more
tightly than `|` and `readonly` to belong to all the brackets behind it. The member of an
intersection that is a union gives its last summand to the neighbour on its right and its first one
to that on its left (`glue`), and the marks of read-only arrays move outwards (`enclose`).

**Two plain trees have the same text exactly if they are alike once they are regrouped**, and a tree
is left alone exactly if it is grouped (`text_eq_iff_regroup`). So different structures do get the
same text: `(a | b) & c` is written like `a | (b & c)` (`text_ambiguous`).
-/

namespace TypeLens

open TypeLens.Text

namespace Tree

/-! ### Regrouping -/

/-- The union of several trees, or the tree itself if there is one. -/
def sum : List Tree → Tree
  | [t] => t
  | ts => union ⟨"", none⟩ ts 0

/-- The intersection of two trees, factor by factor. -/
def meet (t u : Tree) : Tree :=
  intersection ⟨"", none⟩ (t.factors ++ u.factors)

/-- The summands of two neighbours in an intersection, where those that touch become one. -/
def glue : List Tree → List Tree → List Tree
  | [], ys => ys
  | [x], [] => [x]
  | [x], y :: ys => meet x y :: ys
  | x :: x' :: xs, ys => x :: glue (x' :: xs) ys

/-- The array of a tree, with the marks of the read-only arrays in the tree moved outwards. -/
def enclose : Tree → Tree
  | array l true t => array l true t.enclose
  | t => array ⟨"", none⟩ false t

mutual

/-- What the text of a plain tree shows. -/
def regroup : Tree → Tree
  | union _ ms _ => sum ((regroupAll ms).flatMap summands)
  | intersection _ ms => sum (((regroupAll ms).map summands).foldr glue [])
  | array l true t => array l true t.regroup
  | array _ false t => t.regroup.enclose
  | t => t

/-- Several trees, regrouped. -/
def regroupAll : List Tree → List Tree
  | [] => []
  | t :: ts => t.regroup :: regroupAll ts

end

theorem regroupAll_eq_map (ts : List Tree) : regroupAll ts = ts.map regroup := by
  induction ts with
  | nil => rfl
  | cons t ts ih => rw [regroupAll, ih, List.map_cons]

/-- A tree that may stand in a union of grouped trees. -/
structure Summand (t : Tree) : Prop where
  plain : t.Plain
  grouped : t.Grouped
  isUnion_eq_false : t.isUnion = false

/-- The text of a union of several trees. -/
def spellSum (ts : List Tree) : List Char :=
  bar.intercalate (ts.map spell)

theorem spellSum_singleton (t : Tree) : spellSum [t] = t.spell :=
  List.intercalate_singleton

theorem spellSum_cons (t : Tree) {ts : List Tree} (h : ts ≠ []) :
    spellSum (t :: ts) = t.spell ++ bar ++ spellSum ts := by
  rw [spellSum, List.map_cons, List.intercalate_cons_of_ne_nil (by simpa using h), spellSum]

section

variable {t u : Tree} {xs ys : List Tree}

theorem Plain.summand (h : t.Plain) (hgrouped : t.Grouped) : ∀ m ∈ t.summands, m.Summand :=
  fun m hm ↦ ⟨h.summands m hm, hgrouped.summands m hm, h.isUnion_summand hm⟩

/-- No factor is an intersection. -/
theorem Plain.isIntersection_factor (h : t.Plain) {a : Tree} (ha : a ∈ t.factors) :
    a.isIntersection = false := by
  rcases h.intersection_cases with ⟨hintersection, hfactors⟩ | ⟨l, ms, rfl, -⟩
  · rw [hfactors] at ha
    rwa [List.mem_singleton.1 ha]
  · exact h.root.2 a ha

theorem isUnion_eq_false_of_bindsLoosely (h : t.bindsLoosely = false) : t.isUnion = false := by
  cases t with
  | union => cases h
  | _ => rfl

/-! ### Sums of products -/

/-- A union of summands is plain and grouped, and spells them in a row. -/
theorem summand_sum (h : ∀ x ∈ xs, x.Summand) (hxs : xs ≠ []) :
    (sum xs).Plain ∧ (sum xs).Grouped ∧ (sum xs).spell = spellSum xs := by
  match xs, hxs with
  | [x], _ =>
    have hx := h x List.mem_cons_self
    exact ⟨hx.plain, hx.grouped, (spellSum_singleton x).symm⟩
  | x :: y :: xs, _ =>
    have hplain : (sum (x :: y :: xs)).Plain :=
      everywhere_iff.2 ⟨⟨rfl, by simp, fun m hm ↦ (h m hm).isUnion_eq_false⟩,
        fun m hm ↦ (h m hm).plain⟩
    exact ⟨hplain, everywhere_iff.2 ⟨trivial, fun m hm ↦ (h m hm).grouped⟩,
      hplain.spell_eq_summands⟩

/-- Two summands that meet are a summand again, spelled with an ampersand between them. -/
theorem summand_meet (ht : t.Summand) (hu : u.Summand) :
    (meet t u).Summand ∧ (meet t u).spell = t.spell ++ ampersand ++ u.spell := by
  -- A summand of a grouped tree has no union among its factors, so the factors of both may meet.
  have hfactor : ∀ a ∈ t.factors ++ u.factors,
      a.Plain ∧ a.Grouped ∧ a.isUnion = false ∧ a.isIntersection = false := by
    intro a ha
    rcases List.mem_append.1 ha with ha | ha
    · exact ⟨ht.plain.factors a ha, ht.grouped.factors a ha, isUnion_eq_false_of_bindsLoosely
        (ht.plain.bindsLoosely_factor ht.grouped ht.isUnion_eq_false ha),
        ht.plain.isIntersection_factor ha⟩
    · exact ⟨hu.plain.factors a ha, hu.grouped.factors a ha, isUnion_eq_false_of_bindsLoosely
        (hu.plain.bindsLoosely_factor hu.grouped hu.isUnion_eq_false ha),
        hu.plain.isIntersection_factor ha⟩
  have hlength : 2 ≤ (t.factors ++ u.factors).length := by
    have h := List.length_pos_iff.2 ht.plain.factors_ne_nil
    have h' := List.length_pos_iff.2 hu.plain.factors_ne_nil
    rw [List.length_append]
    omega
  have hplain : (meet t u).Plain :=
    everywhere_iff.2 ⟨⟨hlength, fun a ha ↦ (hfactor a ha).2.2.2⟩, fun a ha ↦ (hfactor a ha).1⟩
  refine ⟨⟨hplain, everywhere_iff.2 ⟨fun a ha ↦ (hfactor a ha).2.2.1,
    fun a ha ↦ (hfactor a ha).2.1⟩, rfl⟩, ?_⟩
  rw [hplain.spell_eq_factors, meet, factors, List.map_append, intercalate_append
    (by simpa using ht.plain.factors_ne_nil) (by simpa using hu.plain.factors_ne_nil),
    ← ht.plain.spell_eq_factors, ← hu.plain.spell_eq_factors]

theorem glue_nil (xs : List Tree) : glue xs [] = xs := by
  induction xs with
  | nil => rfl
  | cons x xs ih =>
    cases xs with
    | nil => rfl
    | cons y xs => rw [glue, ih]

/-- Neighbours in an intersection are glued in the text as well. -/
theorem summand_glue (hx : ∀ x ∈ xs, x.Summand) (hy : ∀ y ∈ ys, y.Summand) (hxs : xs ≠ [])
    (hys : ys ≠ []) :
    (∀ z ∈ glue xs ys, z.Summand) ∧ glue xs ys ≠ [] ∧
      spellSum (glue xs ys) = spellSum xs ++ ampersand ++ spellSum ys := by
  induction xs with
  | nil => exact absurd rfl hxs
  | cons x xs ih =>
    have hsummand := hx x List.mem_cons_self
    -- Only the last summand on the left touches the neighbour.
    cases xs with
    | nil =>
      obtain ⟨y, ys, rfl⟩ := List.exists_cons_of_ne_nil hys
      obtain ⟨hmeet, hspell⟩ := summand_meet hsummand (hy y List.mem_cons_self)
      refine ⟨?_, List.cons_ne_nil _ _, ?_⟩
      · intro z hz
        rcases List.mem_cons.1 hz with rfl | hz
        · exact hmeet
        · exact hy z (List.mem_cons_of_mem y hz)
      · rw [glue, spellSum_singleton]
        rcases eq_or_ne ys [] with rfl | hys
        · rw [spellSum_singleton, spellSum_singleton, hspell]
        · rw [spellSum_cons _ hys, spellSum_cons _ hys, hspell]
          simp only [List.append_assoc]
    | cons x' xs =>
      obtain ⟨hrest, hne, hspell⟩ := ih (fun z hz ↦ hx z (List.mem_cons_of_mem x hz))
        (List.cons_ne_nil _ _)
      rw [glue]
      refine ⟨?_, List.cons_ne_nil _ _, ?_⟩
      · intro z hz
        rcases List.mem_cons.1 hz with rfl | hz
        · exact hsummand
        · exact hrest z hz
      · rw [spellSum_cons x hne, hspell, spellSum_cons x (List.cons_ne_nil _ _)]
        simp only [List.append_assoc]

/-- A sum of two neighbours that were glued is no word and no array. -/
theorem bindsLoosely_sum_glue (hxs : xs ≠ []) (hys : ys ≠ []) :
    (sum (glue xs ys)).bindsLoosely = true := by
  obtain ⟨y, ys, rfl⟩ := List.exists_cons_of_ne_nil hys
  match xs, hxs with
  | [x], _ => cases ys <;> rfl
  | x :: x' :: xs, _ =>
    obtain ⟨z, zs, hglue⟩ : ∃ z zs, glue (x' :: xs) (y :: ys) = z :: zs := by
      cases xs <;> exact ⟨_, _, rfl⟩
    rw [glue, hglue]
    rfl

/-- The summands of all members of an intersection, glued. -/
theorem summand_foldr_glue {members : List (List Tree)} (h : ∀ xs ∈ members, ∀ x ∈ xs, x.Summand)
    (hne : ∀ xs ∈ members, xs ≠ []) (hmembers : members ≠ []) :
    (∀ z ∈ members.foldr glue [], z.Summand) ∧ members.foldr glue [] ≠ [] ∧
      spellSum (members.foldr glue []) = ampersand.intercalate (members.map spellSum) := by
  induction members with
  | nil => exact absurd rfl hmembers
  | cons xs members ih =>
    have hxs := h xs List.mem_cons_self
    have hxs' := hne xs List.mem_cons_self
    rw [List.foldr_cons]
    rcases eq_or_ne members [] with rfl | hrest
    · rw [List.foldr_nil, glue_nil, List.map_singleton, List.intercalate_singleton]
      exact ⟨hxs, hxs', rfl⟩
    · obtain ⟨hsummand, hne', hspell⟩ := ih (fun ys hys ↦ h ys (List.mem_cons_of_mem xs hys))
        (fun ys hys ↦ hne ys (List.mem_cons_of_mem xs hys)) hrest
      obtain ⟨hglue, hne'', hspell'⟩ := summand_glue hxs hsummand hxs' hne'
      refine ⟨hglue, hne'', ?_⟩
      rw [hspell', hspell, List.map_cons, List.intercalate_cons_of_ne_nil (by simpa using hrest)]

/-- At least two members that are glued bind loosely. -/
theorem bindsLoosely_sum_foldr_glue {members : List (List Tree)}
    (h : ∀ xs ∈ members, ∀ x ∈ xs, x.Summand) (hne : ∀ xs ∈ members, xs ≠ [])
    (hlength : 2 ≤ members.length) : (sum (members.foldr glue [])).bindsLoosely = true := by
  match members, hlength with
  | xs :: ys :: members, _ =>
    have hrest := summand_foldr_glue (fun zs hzs ↦ h zs (List.mem_cons_of_mem xs hzs))
      (fun zs hzs ↦ hne zs (List.mem_cons_of_mem xs hzs)) (List.cons_ne_nil ys members)
    exact bindsLoosely_sum_glue (hne xs List.mem_cons_self) hrest.2.1

/-! ### The text is kept -/

/-- `Regrouped t u`: the grouped tree `u` is written like the tree `t`, with parentheses in the same
places. -/
structure Regrouped (t u : Tree) : Prop where
  plain : u.Plain
  grouped : u.Grouped
  spell_eq : u.spell = t.spell
  bindsLoosely_eq : u.bindsLoosely = t.bindsLoosely

theorem Regrouped.spellClosed_eq (h : Regrouped t u) : u.spellClosed = t.spellClosed := by
  rw [spellClosed, spellClosed, h.spell_eq, h.bindsLoosely_eq]

/-- Moving the marks of read-only arrays outwards keeps the text. -/
theorem regrouped_enclose (ht : t.Plain) (hgrouped : t.Grouped) (l : Label) :
    Regrouped (array l false t) t.enclose := by
  induction t using branch_induction generalizing l with
  | node t ih =>
    have hown : t.isFrozen = false → Regrouped (array l false t) (array ⟨"", none⟩ false t) := by
      intro hfrozen
      refine ⟨everywhere_iff.2 ⟨trivial, ?_⟩, everywhere_iff.2 ⟨hfrozen, ?_⟩, ?_, rfl⟩
      · exact fun c hc ↦ (List.mem_singleton.1 hc) ▸ ht
      · exact fun c hc ↦ (List.mem_singleton.1 hc) ▸ hgrouped
      · rw [spell_array, spell_array]
    cases t with
    | array l' r t =>
      cases r with
      | false => exact hown rfl
      | true =>
        -- The mark stays outside, and the new brackets go in; both come before the next core.
        have hbelow : t ∈ (array l' true t).branches := List.mem_singleton_self t
        have hinner := ih t hbelow (ht.branch hbelow) (hgrouped.branch hbelow) l'
        refine ⟨everywhere_iff.2 ⟨trivial, ?_⟩, everywhere_iff.2 ⟨trivial, ?_⟩, ?_, rfl⟩
        · exact fun c hc ↦ (List.mem_singleton.1 hc) ▸ hinner.plain
        · exact fun c hc ↦ (List.mem_singleton.1 hc) ▸ hinner.grouped
        · rw [enclose, spell_array, hinner.spellClosed_eq, spell_array,
            spellClosed_of_bindsLoosely_eq_false rfl, spellClosed_of_bindsLoosely_eq_false rfl,
            spell_array, spell_array]
          simp [List.append_assoc]
    | _ => exact hown rfl

theorem bindsLoosely_sum (h : 2 ≤ xs.length) : (sum xs).bindsLoosely = true := by
  match xs, h with
  | _ :: _ :: _, _ => rfl

/-- Every member has at least one summand. -/
theorem length_le_length_flatMap_summands (h : ∀ x ∈ xs, x.Plain) :
    xs.length ≤ (xs.flatMap summands).length := by
  induction xs with
  | nil => exact Nat.zero_le _
  | cons x xs ih =>
    have hpos := List.length_pos_iff.2 (h x List.mem_cons_self).summands_ne_nil
    have hrest := ih fun y hy ↦ h y (List.mem_cons_of_mem x hy)
    rw [List.flatMap_cons, List.length_append, List.length_cons]
    omega

/-- The members of a node, regrouped one by one, are written as before. -/
theorem regrouped_all (h : ∀ x ∈ xs, Regrouped x x.regroup) :
    (∀ y ∈ regroupAll xs, y.Plain ∧ y.Grouped) ∧ (regroupAll xs).map spell = xs.map spell := by
  rw [regroupAll_eq_map, List.map_map]
  refine ⟨fun y hy ↦ ?_, List.map_congr_left fun x hx ↦ (h x hx).spell_eq⟩
  obtain ⟨x, hx, rfl⟩ := List.mem_map.1 hy
  exact ⟨(h x hx).plain, (h x hx).grouped⟩

/-- A union is regrouped if its members are. -/
theorem regrouped_union {l : Label} {ms : List Tree} {e : Int} (h : (union l ms e).Plain)
    (hms : ∀ m ∈ ms, Regrouped m m.regroup) : Regrouped (union l ms e) (union l ms e).regroup := by
  obtain ⟨hmembers, hspell⟩ := regrouped_all hms
  have hsummand : ∀ x ∈ (regroupAll ms).flatMap summands, x.Summand := by
    intro x hx
    obtain ⟨m, hm, hx⟩ := List.mem_flatMap.1 hx
    exact (hmembers m hm).1.summand (hmembers m hm).2 x hx
  have hlength : 2 ≤ ((regroupAll ms).flatMap summands).length := by
    refine le_trans ?_ (length_le_length_flatMap_summands fun m hm ↦ (hmembers m hm).1)
    rw [regroupAll_eq_map, List.length_map]
    exact h.root.2.1
  obtain ⟨hplain, hgrouped, htext⟩ := summand_sum hsummand (List.ne_nil_of_length_pos (by omega))
  refine ⟨hplain, hgrouped, ?_, bindsLoosely_sum hlength⟩
  -- The summands of the members, spelled in a row, are the members spelled in a row.
  calc (union l ms e).regroup.spell
    _ = bar.intercalate ((regroupAll ms).flatMap fun m ↦ m.summands.map spell) := by
      rw [regroup, htext, spellSum, List.map_flatMap]
    _ = bar.intercalate ((regroupAll ms).map fun m ↦ bar.intercalate (m.summands.map spell)) :=
      intercalate_flatMap fun m hm ↦ by simpa using (hmembers m hm).1.summands_ne_nil
    _ = bar.intercalate ((regroupAll ms).map spell) := by
      rw [List.map_congr_left fun m hm ↦ (hmembers m hm).1.spell_eq_summands]
    _ = (union l ms e).spell := by
      rw [hspell, h.spell_eq_summands, summands]

/-- An intersection is regrouped if its members are. -/
theorem regrouped_intersection {l : Label} {ms : List Tree} (h : (intersection l ms).Plain)
    (hms : ∀ m ∈ ms, Regrouped m m.regroup) :
    Regrouped (intersection l ms) (intersection l ms).regroup := by
  obtain ⟨hmembers, hspell⟩ := regrouped_all hms
  have hsummand : ∀ xs ∈ (regroupAll ms).map summands, ∀ x ∈ xs, x.Summand := by
    intro xs hxs
    obtain ⟨m, hm, rfl⟩ := List.mem_map.1 hxs
    exact (hmembers m hm).1.summand (hmembers m hm).2
  have hne : ∀ xs ∈ (regroupAll ms).map summands, xs ≠ [] := by
    intro xs hxs
    obtain ⟨m, hm, rfl⟩ := List.mem_map.1 hxs
    exact (hmembers m hm).1.summands_ne_nil
  have hlength : 2 ≤ ((regroupAll ms).map summands).length := by
    rw [List.length_map, regroupAll_eq_map, List.length_map]
    exact h.root.1
  -- Only the last summand of a member and the first one of the next meet, as the text reads.
  obtain ⟨hglued, hglued', hspell'⟩ :=
    summand_foldr_glue hsummand hne (List.ne_nil_of_length_pos (by omega))
  obtain ⟨hplain, hgrouped, htext⟩ := summand_sum hglued hglued'
  refine ⟨hplain, hgrouped, ?_, bindsLoosely_sum_foldr_glue hsummand hne hlength⟩
  calc (intersection l ms).regroup.spell
    _ = ampersand.intercalate ((regroupAll ms).map fun m ↦ spellSum m.summands) := by
      rw [regroup, htext, hspell', List.map_map]
      rfl
    _ = ampersand.intercalate ((regroupAll ms).map spell) := by
      rw [List.map_congr_left fun m hm ↦ (hmembers m hm).1.spell_eq_summands]
      rfl
    _ = (intersection l ms).spell := by
      rw [hspell, h.spell_eq_factors, factors]

/-- **Regrouping keeps the text** of a plain tree and groups it. -/
theorem Plain.regrouped (h : t.Plain) : Regrouped t t.regroup := by
  induction t using branch_induction with
  | node t ih =>
    have hbelow := fun m hm ↦ ih m hm (h.branch hm)
    have hroot := h.root
    cases t with
    | primitive l =>
      exact ⟨h, everywhere_of_isLeaf rfl trivial, rfl, rfl⟩
    | array l r t =>
      have hinner := hbelow t (List.mem_singleton_self t)
      -- Brackets behind a read-only item read as if they stood inside it, so its mark moves
      -- outwards.
      cases r with
      | false =>
        obtain ⟨hplain, hgrouped, hspell, hloose⟩ := regrouped_enclose hinner.plain hinner.grouped l
        refine ⟨hplain, hgrouped, ?_, hloose⟩
        rw [regroup, hspell, spell_array, hinner.spellClosed_eq, spell_array]
      | true =>
        refine ⟨everywhere_iff.2 ⟨trivial, ?_⟩, everywhere_iff.2 ⟨trivial, ?_⟩, ?_, rfl⟩
        · exact fun c hc ↦ (List.mem_singleton.1 hc) ▸ hinner.plain
        · exact fun c hc ↦ (List.mem_singleton.1 hc) ▸ hinner.grouped
        · rw [regroup, spell_array, hinner.spellClosed_eq, spell_array]
    | union l ms e => exact regrouped_union h hbelow
    | intersection l ms => exact regrouped_intersection h hbelow
    | _ => cases hroot

/-! ### Trees that are alike -/

/-- Trees that are equal up to the labels of their nodes, where leaves have the same name. -/
def SameShape (t u : Tree) : Prop :=
  t.skeleton = u.skeleton

theorem isUnion_skeleton (t : Tree) : t.skeleton.isUnion = t.isUnion := by
  cases t <;> rfl

theorem isIntersection_skeleton (t : Tree) : t.skeleton.isIntersection = t.isIntersection := by
  cases t <;> rfl

theorem isFrozen_skeleton (t : Tree) : t.skeleton.isFrozen = t.isFrozen := by
  cases t <;> rfl

theorem bindsLoosely_skeleton (t : Tree) : t.skeleton.bindsLoosely = t.bindsLoosely := by
  cases t <;> rfl

/-- The nodes below a skeleton are the skeletons of the nodes below. -/
theorem PlainNode.branches_skeleton (h : t.PlainNode) :
    t.skeleton.branches = t.branches.map skeleton := by
  cases t with
  | primitive | array => rfl
  | union | intersection => exact skeletons_eq_map _
  | _ => cases h

/-- The skeleton of a plain node is plain. -/
theorem PlainNode.skeleton (h : t.PlainNode) : t.skeleton.PlainNode := by
  cases t with
  | union l ms e =>
    obtain ⟨he, hlength, hflat⟩ := h
    rw [Tree.skeleton, skeletons_eq_map]
    refine ⟨he, by rwa [List.length_map], List.forall_mem_map.2 fun m hm ↦ ?_⟩
    rw [isUnion_skeleton, hflat m hm]
  | intersection l ms =>
    obtain ⟨hlength, hflat⟩ := h
    rw [Tree.skeleton, skeletons_eq_map]
    refine ⟨by rwa [List.length_map], List.forall_mem_map.2 fun m hm ↦ ?_⟩
    rw [isIntersection_skeleton, hflat m hm]
  | _ => exact h

/-- Whether a node is grouped shows in its skeleton. -/
theorem groupedNode_skeleton_iff (h : t.PlainNode) : t.skeleton.GroupedNode ↔ t.GroupedNode := by
  cases t with
  | intersection l ms =>
    simp only [skeleton, GroupedNode, skeletons_eq_map, List.forall_mem_map, isUnion_skeleton]
  | array l r t =>
    cases r with
    | false => simp only [skeleton, GroupedNode, isFrozen_skeleton]
    | true => exact Iff.rfl
  | _ => exact Iff.rfl

theorem Plain.skeleton (h : t.Plain) : t.skeleton.Plain := by
  induction t using branch_induction with
  | node t ih =>
    refine everywhere_iff.2 ⟨h.root.skeleton, ?_⟩
    rw [h.root.branches_skeleton]
    exact List.forall_mem_map.2 fun c hc ↦ ih c hc (h.branch hc)

/-- Whether a tree is grouped shows in its skeleton. -/
theorem Plain.grouped_skeleton_iff (h : t.Plain) : t.skeleton.Grouped ↔ t.Grouped := by
  induction t using branch_induction with
  | node t ih =>
    rw [Grouped, Grouped, everywhere_iff, everywhere_iff, groupedNode_skeleton_iff h.root,
      h.root.branches_skeleton, List.forall_mem_map]
    exact and_congr_right fun _ ↦ forall₂_congr fun c hc ↦ ih c hc (h.branch hc)

/-- The text of a plain tree does not depend on its labels. -/
theorem Plain.spell_skeleton (h : t.Plain) : t.skeleton.spell = t.spell := by
  induction t using branch_induction with
  | node t ih =>
    have hbelow : ∀ m ∈ t.branches, m.skeleton.spell = m.spell := fun m hm ↦ ih m hm (h.branch hm)
    have hroot := h.root
    cases t with
    | primitive l => rfl
    | array l r t =>
      rw [Tree.skeleton, spell_array, spell_array, spellClosed, spellClosed, bindsLoosely_skeleton,
        hbelow t (List.mem_singleton_self t)]
    | union l ms e =>
      rw [h.skeleton.spell_eq_summands, h.spell_eq_summands, Tree.skeleton, skeletons_eq_map,
        summands, summands, List.map_map]
      exact congrArg bar.intercalate (List.map_congr_left hbelow)
    | intersection l ms =>
      rw [h.skeleton.spell_eq_factors, h.spell_eq_factors, Tree.skeleton, skeletons_eq_map,
        factors, factors, List.map_map]
      exact congrArg ampersand.intercalate (List.map_congr_left hbelow)
    | _ => cases hroot

/-- Plain trees that are alike have the same text. -/
theorem SameShape.text_eq (h : t.SameShape u) (ht : t.Plain) (hu : u.Plain) : t.text = u.text := by
  have hspell : t.spell = u.spell := by
    rw [← ht.spell_skeleton, ← hu.spell_skeleton, h]
  exact String.toList_inj.1 hspell

theorem Plain.text_regroup (h : t.Plain) : t.regroup.text = t.text :=
  String.toList_inj.1 h.regrouped.spell_eq

/-- A plain tree is left alone by regrouping exactly if it is grouped. -/
theorem Plain.sameShape_regroup_iff (h : t.Plain) : t.regroup.SameShape t ↔ t.Grouped := by
  obtain ⟨hplain, hgrouped, -, -⟩ := h.regrouped
  constructor
  · intro hsame
    rw [← h.grouped_skeleton_iff, ← hsame, hplain.grouped_skeleton_iff]
    exact hgrouped
  · intro ht
    exact hplain.skeleton_eq_of_text hgrouped h ht h.text_regroup

/-- Plain trees have the same text exactly if they are alike once they are regrouped. -/
theorem Plain.text_eq_iff (ht : t.Plain) (hu : u.Plain) :
    t.text = u.text ↔ t.regroup.SameShape u.regroup := by
  obtain ⟨hplain, hgrouped, -, -⟩ := ht.regrouped
  obtain ⟨hplain', hgrouped', -, -⟩ := hu.regrouped
  rw [← ht.text_regroup, ← hu.text_regroup]
  exact ⟨hplain.skeleton_eq_of_text hgrouped hplain' hgrouped', fun h ↦ h.text_eq hplain hplain'⟩

end

/-- **What the text of a plain tree shows.** Plain trees have the same text exactly if they are
alike once they are regrouped. Regrouping leaves a plain tree alone exactly if it is grouped, so
grouped trees with different structures have different texts. -/
theorem text_eq_iff_regroup {t u : Tree} (ht : t.Plain) (hu : u.Plain) :
    (t.text = u.text ↔ t.regroup.SameShape u.regroup) ∧ (t.regroup.SameShape t ↔ t.Grouped) ∧
      (t.Grouped → u.Grouped → (t.text = u.text ↔ t.SameShape u)) := by
  refine ⟨ht.text_eq_iff hu, ht.sameShape_regroup_iff, fun htg hug ↦ ?_⟩
  exact ⟨ht.skeleton_eq_of_text htg hu hug, fun h ↦ h.text_eq ht hu⟩

/-! A union in an intersection, and the union that its text shows. -/

/-- A leaf. -/
def sampleLeaf (name : String) : Tree :=
  primitive ⟨name, none⟩

/-- The intersection of `a | b` and `c`. -/
def sampleMeet : Tree :=
  intersection ⟨"M", none⟩ [union ⟨"U", none⟩ [sampleLeaf "a", sampleLeaf "b"] 0, sampleLeaf "c"]

/-- The union of `a` and `b & c`. -/
def sampleSum : Tree :=
  union ⟨"U", none⟩ [sampleLeaf "a", intersection ⟨"M", none⟩ [sampleLeaf "b", sampleLeaf "c"]] 0

theorem plain_sampleLeaf : ∀ name ∈ ["a", "b", "c"], (sampleLeaf name).Plain := by
  have hword : ∀ name ∈ ["a", "b", "c"], IsWord name := by
    simp only [List.mem_cons, List.not_mem_nil, or_false]
    rintro name (rfl | rfl | rfl) <;> exact ⟨by decide, List.all_eq_true.1 rfl, by decide⟩
  exact fun name hname ↦ everywhere_of_isLeaf rfl (hword name hname)

theorem plain_sampleMeet : sampleMeet.Plain := by
  have hunion : (union ⟨"U", none⟩ [sampleLeaf "a", sampleLeaf "b"] 0).Plain := by
    refine everywhere_iff.2 ⟨⟨rfl, by decide, by simp [sampleLeaf, isUnion]⟩, ?_⟩
    simpa [branches] using ⟨plain_sampleLeaf "a" (by decide), plain_sampleLeaf "b" (by decide)⟩
  refine everywhere_iff.2 ⟨⟨by decide, by simp [sampleLeaf, isIntersection]⟩, ?_⟩
  simpa [sampleMeet, branches] using ⟨hunion, plain_sampleLeaf "c" (by decide)⟩

theorem plain_sampleSum : sampleSum.Plain := by
  have hmeet : (intersection ⟨"M", none⟩ [sampleLeaf "b", sampleLeaf "c"]).Plain := by
    refine everywhere_iff.2 ⟨⟨by decide, by simp [sampleLeaf, isIntersection]⟩, ?_⟩
    simpa [branches] using ⟨plain_sampleLeaf "b" (by decide), plain_sampleLeaf "c" (by decide)⟩
  refine everywhere_iff.2 ⟨⟨rfl, by decide, by simp [sampleLeaf, isUnion]⟩, ?_⟩
  simpa [sampleSum, branches] using ⟨plain_sampleLeaf "a" (by decide), hmeet⟩

theorem text_sampleMeet : sampleMeet.text = sampleSum.text :=
  rfl

example : (array ⟨"A", none⟩ false (array ⟨"R", none⟩ true (sampleLeaf "a"))).text =
    (array ⟨"R", none⟩ true (array ⟨"A", none⟩ false (sampleLeaf "a"))).text :=
  rfl

/-- The intersection is not grouped. It is read as the union. -/
theorem text_eq_iff_regroup_sample :
    ¬sampleMeet.Grouped ∧ sampleMeet.regroup.SameShape sampleSum.regroup := by
  have h := text_eq_iff_regroup plain_sampleMeet plain_sampleSum
  refine ⟨fun hgrouped ↦ ?_, h.1.1 text_sampleMeet⟩
  exact nomatch h.2.1.2 hgrouped

/-- Different structures have the same text. -/
theorem text_ambiguous : ¬∀ t u : Tree, t.Plain → u.Plain → t.text = u.text → t.SameShape u := by
  intro h
  exact nomatch h sampleMeet sampleSum plain_sampleMeet plain_sampleSum text_sampleMeet

end Tree

end TypeLens
