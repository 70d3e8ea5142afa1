import TypeLens.Graph.Position

/-!
# The node at a position belongs to the tree

Two traversals of a syntax tree exist side by side: `Node.walk` lists its nodes, and
`Node.descendants` lists the nodes below the root with the ways to them. Here they are joined: what
is located is a node of the tree, and only the root has an empty way. So the search for the node at
a position answers a node of the tree (`node_resolve_mem_walk`), and its way tells whether that is
the root (`resolve_path_eq_nil_iff`).
-/

namespace TypeLens.Graph.Node

/-! ### Located nodes -/

mutual

/-- What is located below a node at a way is among its nodes, and not above the way. -/
theorem of_mem_locateFrom {path : List Nat} {parentKind : Option String} {l : Located} :
    ∀ {n : Node}, l ∈ n.locateFrom path parentKind →
      l.node ∈ n.walk ∧ path.length ≤ l.path.length
  | ⟨kind, start, stop, symbol, children⟩, h => by
    rw [locateFrom, List.mem_cons] at h
    rw [walk]
    rcases h with rfl | h
    · exact ⟨List.mem_cons_self, by simp⟩
    · obtain ⟨hwalk, hpath⟩ := of_mem_locateChildren h
      exact ⟨List.mem_cons_of_mem _ hwalk, Nat.le_of_lt hpath⟩

/-- What is located below a way is among the nodes of the children, and has a longer way. -/
theorem of_mem_locateChildren {path : List Nat} {kind : String} {l : Located} :
    ∀ {i : Nat} {ns : List Node}, l ∈ locateChildren path kind i ns →
      l.node ∈ walkAll ns ∧ path.length < l.path.length
  | i, [], h => by simp [locateChildren] at h
  | i, n :: ns, h => by
    rw [locateChildren, List.mem_append] at h
    rw [walkAll]
    rcases h with h | h
    · obtain ⟨hwalk, hpath⟩ := of_mem_locateFrom h
      exact ⟨List.mem_append_left _ hwalk, hpath⟩
    · obtain ⟨hwalk, hpath⟩ := of_mem_locateChildren h
      exact ⟨List.mem_append_right _ hwalk, hpath⟩

end

/-- A node below the root is among the nodes of the tree, and its way is not empty. -/
theorem of_mem_descendants {root : Node} {l : Located} (h : l ∈ root.descendants) :
    l.node ∈ root.walk ∧ l.path ≠ [] := by
  obtain ⟨hwalk, hpath⟩ := of_mem_locateChildren h
  obtain ⟨kind, start, stop, symbol, children⟩ := root
  refine ⟨?_, List.ne_nil_of_length_pos hpath⟩
  rw [walk]
  exact List.mem_cons_of_mem _ hwalk

theorem mem_walk_self (n : Node) : n ∈ n.walk := by
  obtain ⟨kind, start, stop, symbol, children⟩ := n
  rw [walk]
  exact List.mem_cons_self

/-! ### The search -/

/-- The search keeps the best node so far or takes another one of the list. -/
theorem foldl_better_mem (eofKinds : List String) (r : Range) (ls : List Located) (best : Located) :
    ls.foldl (better eofKinds r) best = best ∨ ls.foldl (better eofKinds r) best ∈ ls := by
  induction ls generalizing best with
  | nil => exact .inl rfl
  | cons l ls ih =>
    have hstep : better eofKinds r best l = best ∨ better eofKinds r best l = l := by
      unfold better
      split
      · exact .inr rfl
      · exact .inl rfl
    rw [List.foldl_cons]
    rcases ih (better eofKinds r best l) with hkept | htaken
    · rw [hkept]
      rcases hstep with hbest | hl
      · exact .inl hbest
      · rw [hl]
        exact .inr List.mem_cons_self
    · exact .inr (List.mem_cons_of_mem _ htaken)

variable (eofKinds : List String) (root : Node) (r : Range)

/-- **The node at a position is a node of the tree.** -/
theorem node_resolve_mem_walk : (root.resolve eofKinds r).node ∈ root.walk := by
  rcases foldl_better_mem eofKinds r root.descendants root.located with hroot | hbelow
  · rw [resolve, hroot]
    exact mem_walk_self root
  · exact (of_mem_descendants hbelow).1

/-- **The way to the node at a position is empty only if the node is the root.** -/
theorem resolve_path_eq_nil_iff :
    (root.resolve eofKinds r).path = [] ↔ root.resolve eofKinds r = root.located := by
  constructor
  · intro hpath
    rcases foldl_better_mem eofKinds r root.descendants root.located with hroot | hbelow
    · exact hroot
    · exact absurd hpath (of_mem_descendants hbelow).2
  · intro hroot
    rw [hroot]
    rfl

end TypeLens.Graph.Node
