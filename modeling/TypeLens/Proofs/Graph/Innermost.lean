import TypeLens.Proofs.Graph.Resolve

/-!
# The most specific node

The search for the node at a range goes through the tree once and keeps the best node so far. What
it finds can be said without the search: a node by the way that leads to it (`Node.at?`), and of the
nodes of a kind the deepest one (`Node.Deepest`).

Suppose that the tree is *well placed*: children lie inside their parents, siblings do not overlap,
and only end-of-file tokens are empty. Then the nodes that fit a range come in an order in which
each one improves on all before it: it lies inside the earlier one, or begins where the earlier one
ends (`improves_of_fits`). So **the search ends at the last node that fits**
(`exists_last_of_foldl_better`), and all other nodes that fit are above that one or end before it
begins (`resolve_follows`). A range that is not empty leaves no room for the latter, and neither do
nodes that begin at the position of an empty range; so in these cases the last node is the deepest
(`resolve_deepest`).
-/

namespace TypeLens.Graph.Node

/-! ### Ways -/

/-- The node that a way from the root leads to, by positions among siblings. -/
def at? (n : Node) : List Nat → Option Node
  | [] => some n
  | i :: way =>
    match n.children[i]? with
    | some c => c.at? way
    | none => none

/-- What is located is the node or lies below it: its way begins with the way to the node, here
given last position first, and goes on from the node. -/
def LeadsTo (n : Node) (path : List Nat) (l : Located) : Prop :=
  ∃ way, l.path = path.reverse ++ way ∧ n.at? way = some l.node

mutual

/-- A way leads to what is located at it. -/
theorem leadsTo_of_mem_locateFrom {path : List Nat} {parentKind : Option String} {l : Located} :
    ∀ {n : Node}, l ∈ n.locateFrom path parentKind → n.LeadsTo path l
  | ⟨kind, start, stop, symbol, children⟩, h => by
    rw [locateFrom, List.mem_cons] at h
    rcases h with rfl | h
    · exact ⟨[], (List.append_nil _).symm, rfl⟩
    · obtain ⟨j, c, hc, way, hpath, hway⟩ := leadsTo_of_mem_locateChildren h
      refine ⟨j :: way, by simpa using hpath, ?_⟩
      show (match children[j]? with | some c => c.at? way | none => none) = some l.node
      rw [hc]
      exact hway

/-- What is located among children lies below one of them. -/
theorem leadsTo_of_mem_locateChildren {path : List Nat} {kind : String} {l : Located} :
    ∀ {i : Nat} {ns : List Node}, l ∈ locateChildren path kind i ns →
      ∃ (j : Nat) (c : Node), ns[j]? = some c ∧ c.LeadsTo ((i + j) :: path) l
  | i, [], h => by simp [locateChildren] at h
  | i, n :: ns, h => by
    rw [locateChildren, List.mem_append] at h
    rcases h with h | h
    · exact ⟨0, n, rfl, leadsTo_of_mem_locateFrom h⟩
    · obtain ⟨j, c, hc, hl⟩ := leadsTo_of_mem_locateChildren h
      refine ⟨j + 1, c, hc, ?_⟩
      rwa [Nat.add_right_comm, Nat.add_assoc] at hl

end

/-- What a way from a child leads to is located among the children. -/
theorem mem_locateChildren_of_getElem? {path : List Nat} {kind : String} {l : Located} {c : Node} :
    ∀ {i j : Nat} {ns : List Node}, ns[j]? = some c →
      l ∈ c.locateFrom ((i + j) :: path) (some kind) → l ∈ locateChildren path kind i ns
  | i, 0, n :: ns, hc, hl => by
    obtain rfl := Option.some.inj hc
    rw [locateChildren]
    exact List.mem_append_left _ hl
  | i, j + 1, n :: ns, hc, hl => by
    rw [locateChildren]
    refine List.mem_append_right _ (mem_locateChildren_of_getElem? hc ?_)
    rwa [Nat.add_right_comm, Nat.add_assoc]

/-- Every way that leads to a node is the way of a located node. -/
theorem exists_mem_locateFrom {n m : Node} {way : List Nat} (h : n.at? way = some m)
    (path : List Nat) (parentKind : Option String) :
    ∃ l ∈ n.locateFrom path parentKind, l.path = path.reverse ++ way ∧ l.node = m := by
  induction way generalizing n path parentKind with
  | nil =>
    obtain rfl := Option.some.inj h
    refine ⟨⟨path.reverse, parentKind, n⟩, ?_, (List.append_nil _).symm, rfl⟩
    obtain ⟨kind, start, stop, symbol, children⟩ := n
    rw [locateFrom]
    exact List.mem_cons_self
  | cons i way ih =>
    obtain ⟨kind, start, stop, symbol, children⟩ := n
    rw [at?] at h
    split at h
    next c hc =>
      obtain ⟨l, hl, hpath, hnode⟩ := ih h (i :: path) (some kind)
      refine ⟨l, ?_, by simpa using hpath, hnode⟩
      rw [locateFrom]
      refine List.mem_cons_of_mem _ (mem_locateChildren_of_getElem? hc ?_)
      rwa [Nat.zero_add]
    next => cases h

theorem locateFrom_root (root : Node) :
    root.locateFrom [] none = root.located :: root.descendants := by
  obtain ⟨kind, start, stop, symbol, children⟩ := root
  rw [locateFrom]
  rfl

theorem at?_of_mem {root : Node} {l : Located} (h : l ∈ root.located :: root.descendants) :
    root.at? l.path = some l.node := by
  rw [← locateFrom_root] at h
  obtain ⟨way, hpath, hway⟩ := leadsTo_of_mem_locateFrom h
  rwa [hpath, List.reverse_nil, List.nil_append]

theorem exists_mem_of_at? {root n : Node} {way : List Nat} (h : root.at? way = some n) :
    ∃ l ∈ root.located :: root.descendants, l.path = way ∧ l.node = n := by
  rw [← locateFrom_root]
  exact exists_mem_locateFrom h [] none

/-! ### Well placed trees -/

section

variable (eofKinds : List String)

/-- A node and its children are where they belong. -/
structure Placed (n : Node) : Prop where
  /-- Only an end-of-file token may be empty. -/
  start_lt_stop : n.kind ∉ eofKinds → n.start < n.stop
  /-- The children lie inside. -/
  inside : ∀ c ∈ n.children, n.start ≤ c.start ∧ c.stop ≤ n.stop
  /-- Each child ends before the ones behind it begin. -/
  apart : n.children.Pairwise fun a b ↦ a.stop ≤ b.start

instance (n : Node) : Decidable (n.Placed eofKinds) :=
  decidable_of_iff
    ((n.kind ∉ eofKinds → n.start < n.stop) ∧
      (∀ c ∈ n.children, n.start ≤ c.start ∧ c.stop ≤ n.stop) ∧
      n.children.Pairwise fun a b ↦ a.stop ≤ b.start)
    ⟨fun ⟨h, h', h''⟩ ↦ ⟨h, h', h''⟩, fun ⟨h, h', h''⟩ ↦ ⟨h, h', h''⟩⟩

/-- All nodes of a tree are where they belong. -/
def WellPlaced (root : Node) : Prop :=
  ∀ n ∈ root.walk, n.Placed eofKinds

instance (root : Node) : Decidable (root.WellPlaced eofKinds) :=
  inferInstanceAs (Decidable (∀ n ∈ root.walk, n.Placed eofKinds))

/-- The node fits a range: it contains the range and is no end-of-file token. -/
def Fits (r : Range) (n : Node) : Prop :=
  n.kind ∉ eofKinds ∧ n.start ≤ r.start ∧ r.stop ≤ n.stop

/-- The node begins at a position and is no end-of-file token. -/
def BeginsAt (position : Nat) (n : Node) : Prop :=
  n.kind ∉ eofKinds ∧ n.start = position

end

/-- A node is the deepest of those with a property: all others are on the way to it. It is the root
if no node below the root has the property. -/
structure Deepest (root : Node) (P : Node → Prop) (l : Located) : Prop where
  /-- The node stands where its way leads. -/
  at?_path : root.at? l.path = some l.node
  /-- The node has the property, or is the root. -/
  root_or : l.path = [] ∨ P l.node
  /-- The others are on the way to it. -/
  on_way : ∀ way n, root.at? way = some n → P n → way <+: l.path

/-- The first node is above the second one, or is it, and has its span inside its own. -/
def Encloses (l m : Located) : Prop :=
  l.path <+: m.path ∧ l.node.start ≤ m.node.start ∧ m.node.stop ≤ l.node.stop

/-- What comes after a node is inside it, or begins behind it. -/
def Precedes (l m : Located) : Prop :=
  Encloses l m ∨ l.node.stop ≤ m.node.start

variable {eofKinds : List String} {root : Node} {r : Range}

mutual

/-- What is located below a node lies inside it. -/
theorem encloses_of_mem_locateFrom {path : List Nat} {parentKind : Option String} {l : Located} :
    ∀ {n : Node}, n.WellPlaced eofKinds → l ∈ n.locateFrom path parentKind →
      Encloses ⟨path.reverse, parentKind, n⟩ l
  | ⟨kind, start, stop, symbol, children⟩, hplaced, h => by
    rw [WellPlaced, walk] at hplaced
    rw [locateFrom, List.mem_cons] at h
    rcases h with rfl | h
    · exact ⟨List.prefix_refl _, Nat.le_refl _, Nat.le_refl _⟩
    · obtain ⟨c, hc, hpath, hstart, hstop⟩ := encloses_of_mem_locateChildren
        (fun n hn ↦ hplaced n (List.mem_cons_of_mem _ hn)) h
      obtain ⟨hleft, hright⟩ := (hplaced _ List.mem_cons_self).inside c hc
      exact ⟨hpath, Nat.le_trans hleft hstart, Nat.le_trans hstop hright⟩

/-- What is located among children lies inside one of them. -/
theorem encloses_of_mem_locateChildren {path : List Nat} {kind : String} {l : Located} :
    ∀ {i : Nat} {ns : List Node}, (∀ n ∈ walkAll ns, n.Placed eofKinds) →
      l ∈ locateChildren path kind i ns →
      ∃ c ∈ ns, path.reverse <+: l.path ∧ c.start ≤ l.node.start ∧ l.node.stop ≤ c.stop
  | i, [], _, h => by simp [locateChildren] at h
  | i, n :: ns, hplaced, h => by
    rw [walkAll] at hplaced
    rw [locateChildren, List.mem_append] at h
    rcases h with h | h
    · obtain ⟨hpath, hspan⟩ := encloses_of_mem_locateFrom
        (fun m hm ↦ hplaced m (List.mem_append_left _ hm)) h
      refine ⟨n, List.mem_cons_self, List.IsPrefix.trans ?_ hpath, hspan⟩
      rw [List.reverse_cons]
      exact List.prefix_append _ _
    · obtain ⟨c, hc, hl⟩ := encloses_of_mem_locateChildren
        (fun m hm ↦ hplaced m (List.mem_append_right _ hm)) h
      exact ⟨c, List.mem_cons_of_mem _ hc, hl⟩

end

mutual

/-- In a well placed tree, what comes later lies inside what comes earlier, or behind it. -/
theorem pairwise_locateFrom {path : List Nat} {parentKind : Option String} :
    ∀ {n : Node}, n.WellPlaced eofKinds → (n.locateFrom path parentKind).Pairwise Precedes
  | ⟨kind, start, stop, symbol, children⟩, hplaced => by
    have hself := hplaced
    rw [WellPlaced, walk] at hplaced
    rw [locateFrom, List.pairwise_cons]
    constructor
    · intro l hl
      refine .inl (encloses_of_mem_locateFrom hself ?_)
      rw [locateFrom]
      exact List.mem_cons_of_mem _ hl
    · exact pairwise_locateChildren (fun n hn ↦ hplaced n (List.mem_cons_of_mem _ hn))
        (hplaced _ List.mem_cons_self).apart

/-- The nodes of children that are apart. -/
theorem pairwise_locateChildren {path : List Nat} {kind : String} :
    ∀ {i : Nat} {ns : List Node}, (∀ n ∈ walkAll ns, n.Placed eofKinds) →
      (ns.Pairwise fun a b ↦ a.stop ≤ b.start) →
      (locateChildren path kind i ns).Pairwise Precedes
  | i, [], _, _ => by
    rw [locateChildren]
    exact .nil
  | i, n :: ns, hplaced, hapart => by
    rw [walkAll] at hplaced
    obtain ⟨hfirst, hrest⟩ := List.pairwise_cons.1 hapart
    have hn : n.WellPlaced eofKinds := fun m hm ↦ hplaced m (List.mem_append_left _ hm)
    have hns : ∀ m ∈ walkAll ns, m.Placed eofKinds := fun m hm ↦
      hplaced m (List.mem_append_right _ hm)
    rw [locateChildren, List.pairwise_append]
    refine ⟨pairwise_locateFrom hn, pairwise_locateChildren hns hrest, fun l hl m hm ↦ .inr ?_⟩
    -- The two nodes lie inside two siblings, of which the first ends before the second begins.
    obtain ⟨-, -, hstop⟩ := encloses_of_mem_locateFrom hn hl
    obtain ⟨c, hc, -, hstart, -⟩ := encloses_of_mem_locateChildren hns hm
    exact Nat.le_trans hstop (Nat.le_trans (hfirst c hc) hstart)

end

/-! ### The search -/

theorem contains_and_not_eof_iff {n : Node} :
    (n.contains r && !eofKinds.contains n.kind) = true ↔ n.Fits eofKinds r := by
  simp only [contains, Fits, Bool.and_eq_true, decide_eq_true_eq, Bool.not_eq_true',
    List.contains_eq_mem, decide_eq_false_iff_not]
  exact and_comm

/-- A node that fits is taken if it improves on the best one. -/
theorem better_of_fits {best l : Located} (hl : l.node.Fits eofKinds r)
    (himproves : improves r best.node l.node = true) : better eofKinds r best l = l := by
  rw [better, contains_and_not_eof_iff.2 hl, himproves, Bool.and_self, if_pos rfl]

theorem better_of_not_fits {best l : Located} (hl : ¬l.node.Fits eofKinds r) :
    better eofKinds r best l = best := by
  rw [better, Bool.eq_false_iff.2 (mt contains_and_not_eof_iff.1 hl), Bool.false_and,
    if_neg Bool.false_ne_true]

/-- **The search ends at the last node that fits**, if each one improves on those before it. -/
theorem exists_last_of_foldl_better {ls : List Located} {best : Located}
    (hbest : ∀ m ∈ ls, m.node.Fits eofKinds r → improves r best.node m.node = true)
    (hls : ls.Pairwise fun l m ↦ l.node.Fits eofKinds r → m.node.Fits eofKinds r →
      improves r l.node m.node = true) :
    (ls.foldl (better eofKinds r) best = best ∧ ∀ m ∈ ls, ¬m.node.Fits eofKinds r) ∨
      ∃ last before after, ls.foldl (better eofKinds r) best = last ∧
        ls = before ++ last :: after ∧ last.node.Fits eofKinds r ∧
        ∀ m ∈ after, ¬m.node.Fits eofKinds r := by
  induction ls generalizing best with
  | nil => exact .inl ⟨rfl, by simp⟩
  | cons l ls ih =>
    obtain ⟨hfirst, hrest⟩ := List.pairwise_cons.1 hls
    rw [List.foldl_cons]
    by_cases hl : l.node.Fits eofKinds r
    · rw [better_of_fits hl (hbest l List.mem_cons_self hl)]
      rcases ih (fun m hm hfits ↦ hfirst m hm hl hfits) hrest with
        ⟨hkept, hnone⟩ | ⟨last, before, after, htaken, rfl, hlast⟩
      · exact .inr ⟨l, [], ls, hkept, rfl, hl, hnone⟩
      · exact .inr ⟨last, l :: before, after, htaken, rfl, hlast⟩
    · rw [better_of_not_fits hl]
      rcases ih (fun m hm ↦ hbest m (List.mem_cons_of_mem _ hm)) hrest with
        ⟨hkept, hnone⟩ | ⟨last, before, after, htaken, rfl, hlast⟩
      · exact .inl ⟨hkept, List.forall_mem_cons.2 ⟨hl, hnone⟩⟩
      · exact .inr ⟨last, l :: before, after, htaken, rfl, hlast⟩

/-- A later node that fits lies inside an earlier one, or begins where that one ends. -/
theorem improves_of_fits (hr : r.start ≤ r.stop) {l m : Located}
    (hnonempty : l.node.start < l.node.stop) (hprecedes : Precedes l m)
    (hl : l.node.Fits eofKinds r) (hm : m.node.Fits eofKinds r) :
    improves r l.node m.node = true := by
  obtain ⟨-, hlstart, hlstop⟩ := hl
  obtain ⟨-, hmstart, hmstop⟩ := hm
  simp only [improves, Bool.or_eq_true, Bool.and_eq_true, decide_eq_true_eq, beq_iff_eq]
  rcases hprecedes with ⟨-, hstart, hstop⟩ | hbehind
  · exact .inl ⟨hstart, hstop⟩
  · exact .inr ⟨⟨by omega, by omega⟩, by omega⟩

theorem placed_of_mem (h : root.WellPlaced eofKinds) {l : Located}
    (hl : l ∈ root.located :: root.descendants) : l.node.Placed eofKinds := by
  rcases List.mem_cons.1 hl with rfl | hl
  · exact h root (mem_walk_self root)
  · exact h l.node (of_mem_descendants hl).1

/-- **Where the other nodes that fit are.** The node found is the root or fits, and every node that
fits comes before it, or is it. -/
theorem resolve_follows (h : root.WellPlaced eofKinds) (hr : r.start ≤ r.stop) :
    (root.resolve eofKinds r = root.located ∨ (root.resolve eofKinds r).node.Fits eofKinds r) ∧
      ∀ l ∈ root.located :: root.descendants, l.node.Fits eofKinds r →
        Encloses l (root.resolve eofKinds r) ∨
          (root.resolve eofKinds r).node.Fits eofKinds r ∧
            l.node.stop ≤ (root.resolve eofKinds r).node.start := by
  have hself : ∀ l : Located, Encloses l l := fun l ↦
    ⟨List.prefix_refl _, Nat.le_refl _, Nat.le_refl _⟩
  -- The search goes through the nodes in the order of the tree. There each node comes before those
  -- that lie in it and those that lie behind it.
  have hpairwise : (root.located :: root.descendants).Pairwise Precedes := by
    rw [← locateFrom_root]
    exact pairwise_locateFrom h
  obtain ⟨-, hrest⟩ := List.pairwise_cons.1 hpairwise
  have hroot : ∀ m ∈ root.descendants, Encloses root.located m := by
    intro m hm
    show Encloses ⟨[].reverse, none, root⟩ m
    refine encloses_of_mem_locateFrom h ?_
    rw [locateFrom_root]
    exact List.mem_cons_of_mem _ hm
  -- So of two nodes that fit the later one is better, and the search ends with the last one.
  have himproves : root.descendants.Pairwise fun l m ↦ l.node.Fits eofKinds r →
      m.node.Fits eofKinds r → improves r l.node m.node = true := by
    refine hrest.imp_of_mem fun {l m} hl _ hprecedes hlfits hmfits ↦ ?_
    have hplaced := placed_of_mem h (List.mem_cons_of_mem _ hl)
    exact improves_of_fits hr (hplaced.start_lt_stop hlfits.1) hprecedes hlfits hmfits
  have hfrom : ∀ m ∈ root.descendants, m.node.Fits eofKinds r →
      improves r root.located.node m.node = true := by
    intro m hm _
    obtain ⟨-, hstart, hstop⟩ := hroot m hm
    simp [improves, hstart, hstop]
  rw [resolve]
  rcases exists_last_of_foldl_better hfrom himproves with
    ⟨hkept, hnone⟩ | ⟨last, before, after, htaken, hsplit, hlast, hafter⟩
  · rw [hkept]
    refine ⟨.inl rfl, fun l hl hfits ↦ ?_⟩
    rcases List.mem_cons.1 hl with rfl | hl
    · exact .inl (hself _)
    · exact absurd hfits (hnone l hl)
  · rw [htaken]
    refine ⟨.inr hlast, fun l hl hfits ↦ ?_⟩
    rw [hsplit] at hl hpairwise
    rcases List.mem_cons.1 hl with rfl | hl
    · refine .inl (hroot last ?_)
      rw [hsplit]
      exact List.mem_append_right _ List.mem_cons_self
    · -- What comes before the last one encloses it or lies before it; nothing behind it fits.
      rcases List.mem_append.1 hl with hl | hl
      · have hbefore := (List.pairwise_append.1 (List.pairwise_cons.1 hpairwise).2).2.2
        exact (hbefore l hl last List.mem_cons_self).imp id fun hbehind ↦ ⟨hlast, hbehind⟩
      · rcases List.mem_cons.1 hl with rfl | hl
        · exact .inl (hself _)
        · exact absurd hfits (hafter l hl)

theorem at?_resolve (eofKinds : List String) (root : Node) (r : Range) :
    root.at? (root.resolve eofKinds r).path = some (root.resolve eofKinds r).node :=
  at?_of_mem (List.mem_cons.2 (foldl_better_mem eofKinds r root.descendants root.located))

/-- Where no node with the property can end before the node found begins, the node found is the
deepest one. -/
theorem deepest_resolve (h : root.WellPlaced eofKinds) (hr : r.start ≤ r.stop)
    {P : Node → Prop} (hfits : ∀ n ∈ root.walk, P n → n.Fits eofKinds r)
    (hfound : root.resolve eofKinds r = root.located ∨ P (root.resolve eofKinds r).node)
    (hbehind : ∀ n ∈ root.walk, P n → (root.resolve eofKinds r).node.Fits eofKinds r →
      ¬n.stop ≤ (root.resolve eofKinds r).node.start) :
    root.Deepest P (root.resolve eofKinds r) := by
  refine ⟨at?_resolve eofKinds root r,
    hfound.imp_left (resolve_path_eq_nil_iff eofKinds root r).2, ?_⟩
  intro way n hway hn
  obtain ⟨l, hl, rfl, rfl⟩ := exists_mem_of_at? hway
  have hwalk : l.node ∈ root.walk := by
    rcases List.mem_cons.1 hl with rfl | hl
    · exact mem_walk_self root
    · exact (of_mem_descendants hl).1
  rcases (resolve_follows h hr).2 l hl (hfits _ hwalk hn) with ⟨hpath, -⟩ | ⟨hlast, hstop⟩
  · exact hpath
  · exact absurd hstop (hbehind _ hwalk hn hlast)

/-! ### The node at a range -/

/-- The range between two positions, in order and without what is below zero. -/
theorem between_eq (a b : Int) :
    ((Range.between a b).start : Int) = max 0 (min a b) ∧
      ((Range.between a b).stop : Int) = max 0 (max a b) := by
  rw [Range.between]
  split <;> simp only [Int.toNat_eq_max] <;> omega

/-- The search keeps the best node so far or takes one that fits. -/
theorem foldl_better_fits (ls : List Located) (best : Located) :
    ls.foldl (better eofKinds r) best = best ∨
      (ls.foldl (better eofKinds r) best).node.Fits eofKinds r := by
  induction ls generalizing best with
  | nil => exact .inl rfl
  | cons l ls ih =>
    rw [List.foldl_cons]
    by_cases hl : l.node.Fits eofKinds r
    · rcases ih (better eofKinds r best l) with hkept | hfits
      · rw [hkept, better]
        split
        · exact .inr hl
        · exact .inl rfl
      · exact .inr hfits
    · rw [better_of_not_fits hl]
      exact ih best

/-- Whatever the tree, the node found is the root or fits the range. -/
theorem resolve_fits (eofKinds : List String) (root : Node) (r : Range) :
    (root.resolve eofKinds r).path = [] ∨ (root.resolve eofKinds r).node.Fits eofKinds r :=
  (foldl_better_fits root.descendants root.located).imp_left
    (resolve_path_eq_nil_iff eofKinds root r).2

section

variable (h : root.WellPlaced eofKinds)

include h

/-- For a range that is not empty, the deepest node that fits. -/
theorem deepest_of_lt (hr : r.start < r.stop) :
    root.Deepest (Fits eofKinds r) (root.resolve eofKinds r) := by
  refine deepest_resolve h (Nat.le_of_lt hr) (fun n _ hn ↦ hn)
    (resolve_follows h (Nat.le_of_lt hr)).1 ?_
  rintro n - ⟨-, -, hstop⟩ ⟨-, hstart, -⟩ hbehind
  omega

/-- A node that begins at the position of an empty range fits it. -/
theorem fits_of_beginsAt (hr : r.start = r.stop) {n : Node} (hn : n ∈ root.walk)
    (hbegins : n.BeginsAt eofKinds r.start) : n.Fits eofKinds r := by
  obtain ⟨hkind, hstart⟩ := hbegins
  have hspan := (h n hn).start_lt_stop hkind
  exact ⟨hkind, by omega, by omega⟩

/-- For an empty range, the deepest node that begins there, if there is one. -/
theorem deepest_of_beginsAt (hr : r.start = r.stop)
    (hbegins : ∃ way n, root.at? way = some n ∧ n.BeginsAt eofKinds r.start) :
    root.Deepest (BeginsAt eofKinds r.start) (root.resolve eofKinds r) := by
  have hfits : ∀ n ∈ root.walk, n.BeginsAt eofKinds r.start → n.Fits eofKinds r :=
    fun n hn ↦ fits_of_beginsAt h hr hn
  refine deepest_resolve h (Nat.le_of_eq hr) hfits ?_ ?_
  · -- A node that begins there comes before the node found, which therefore begins there too.
    obtain ⟨way, n, hway, hn⟩ := hbegins
    obtain ⟨l, hl, rfl, rfl⟩ := exists_mem_of_at? hway
    have hspan := (placed_of_mem h hl).start_lt_stop hn.1
    obtain ⟨hroot | hlast, hfollows⟩ := resolve_follows h (Nat.le_of_eq hr)
    · exact .inl hroot
    · have hlfits : l.node.Fits eofKinds r := by
        obtain ⟨hkind, hstart⟩ := hn
        exact ⟨hkind, by omega, by omega⟩
      refine .inr ⟨hlast.1, ?_⟩
      obtain ⟨-, hstart⟩ := hn
      obtain ⟨-, hbefore, -⟩ := hlast
      rcases hfollows l hl hlfits with ⟨-, hinside, -⟩ | ⟨-, hbehind⟩ <;> omega
  · rintro n hwalk ⟨hkind, hstart⟩ ⟨-, hbefore, -⟩ hbehind
    have hspan := (h n hwalk).start_lt_stop hkind
    omega

/-- For an empty range at which no node begins, the deepest node that fits. -/
theorem deepest_of_not_beginsAt (hr : r.start = r.stop)
    (hbegins : ¬∃ way n, root.at? way = some n ∧ n.BeginsAt eofKinds r.start) :
    root.Deepest (Fits eofKinds r) (root.resolve eofKinds r) := by
  refine deepest_resolve h (Nat.le_of_eq hr) (fun n _ hn ↦ hn)
    (resolve_follows h (Nat.le_of_eq hr)).1 ?_
  -- Behind a node that contains the position, a node that fits would begin there.
  rintro n - ⟨-, -, hstop⟩ ⟨hkind, hstart, -⟩ hbehind
  exact hbegins ⟨_, _, at?_resolve eofKinds root r, hkind, by omega⟩

end

/-- **The most specific node is found.** The node found for two positions is the root, or a node
that is no end-of-file token and contains the range between them. In a well placed tree it is, for a
range that is not empty, the deepest node that fits. For an empty range it is the deepest node that
begins there, if there is such a node, and otherwise the deepest one that fits. -/
theorem resolve_deepest (eofKinds : List String) (root : Node) (a b : Int) :
    let r := Range.between a b
    let found := root.resolve eofKinds r
    (r.start : Int) = max 0 (min a b) ∧ (r.stop : Int) = max 0 (max a b) ∧
      root.at? found.path = some found.node ∧
      (found.path = [] ∨ found.node.Fits eofKinds r) ∧
      (root.WellPlaced eofKinds →
        (r.start < r.stop → root.Deepest (Fits eofKinds r) found) ∧
        (r.start = r.stop →
          ((∃ way n, root.at? way = some n ∧ n.BeginsAt eofKinds r.start) →
            root.Deepest (BeginsAt eofKinds r.start) found) ∧
          ((¬∃ way n, root.at? way = some n ∧ n.BeginsAt eofKinds r.start) →
            root.Deepest (Fits eofKinds r) found))) := by
  intro r found
  obtain ⟨hstart, hstop⟩ := between_eq a b
  exact ⟨hstart, hstop, at?_resolve eofKinds root r, resolve_fits eofKinds root r, fun h ↦
    ⟨deepest_of_lt h, fun hr ↦ ⟨deepest_of_beginsAt h hr, deepest_of_not_beginsAt h hr⟩⟩⟩

/-- Two chains of nodes meet at position 3: one that ends there and one that begins there, the
second one inside an end-of-file token. -/
def sampleRoot : Node :=
  ⟨"SourceFile", 0, 8, none,
    [⟨"Block", 0, 3, none, [⟨"Identifier", 1, 3, none, []⟩]⟩, ⟨"EndOfFileToken", 3, 3, none, []⟩,
      ⟨"EndOfFileToken", 3, 8, none,
        [⟨"Block", 3, 6, none, [⟨"Identifier", 3, 5, none, []⟩]⟩, ⟨"Block", 6, 8, none, []⟩]⟩]⟩

/-- Between the two chains the inner node of the second one is found, and for a range the nearest
node around it. -/
theorem resolve_deepest_sample :
    sampleRoot.WellPlaced endOfFileKinds ∧
      (sampleRoot.resolve endOfFileKinds (.between 3 3)).path = [2, 0, 0] ∧
      sampleRoot.Deepest (BeginsAt endOfFileKinds 3)
        (sampleRoot.resolve endOfFileKinds (.between 3 3)) ∧
      (sampleRoot.resolve endOfFileKinds (.between 5 2)).path = [] ∧
      sampleRoot.Deepest (Fits endOfFileKinds ⟨2, 5⟩)
        (sampleRoot.resolve endOfFileKinds (.between 5 2)) := by
  have hplaced : sampleRoot.WellPlaced endOfFileKinds := by decide +kernel
  obtain ⟨-, -, -, -, hempty⟩ := resolve_deepest endOfFileKinds sampleRoot 3 3
  obtain ⟨-, -, -, -, hrange⟩ := resolve_deepest endOfFileKinds sampleRoot 5 2
  refine ⟨hplaced, by decide +kernel, ?_, by decide +kernel, (hrange hplaced).1 (by decide)⟩
  refine ((hempty hplaced).2 rfl).1 ⟨[2, 0, 0], _, rfl, ?_⟩
  exact ⟨by decide, rfl⟩

end TypeLens.Graph.Node
