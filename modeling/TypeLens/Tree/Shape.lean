import TypeLens.Tree.Basic

/-!
# The height of a tree

`Tree.branches` lists the trees directly below a node, whatever its kind. `Tree.height` is the
number of nodes on a longest way down; it tells whether a tree can be written and read, because only
so many nodes may lie inside each other.
-/

namespace TypeLens

/-- The types a signature is made of: its result, then its parameters. -/
def Signature.types {α : Type} (s : Signature α) : List α :=
  s.result :: s.parameters.map Parameter.type

namespace Tree

/-- The trees directly below a node. -/
def branches : Tree → List Tree
  | primitive _ | basic _ | reference _ | enumMember .. => []
  | union _ ms _ | intersection _ ms => ms
  | object _ ps _ => ps.map Property.type
  | array _ _ t | promise _ t => [t]
  | tuple _ _ ts | generic _ ts => ts
  | function _ ss _ => ss.flatMap Signature.types

/-! ### Recursion through the branches -/

private theorem sizeOf_parameter (p : Parameter Tree) : sizeOf p.type < sizeOf p := by
  cases p
  simp only [Parameter.mk.sizeOf_spec]
  omega

private theorem sizeOf_signature {s : Signature Tree} {c : Tree} (h : c ∈ s.types) :
    sizeOf c < sizeOf s := by
  obtain ⟨result, parameters⟩ := s
  simp only [Signature.types, List.mem_cons, List.mem_map] at h
  simp only [Signature.mk.sizeOf_spec]
  rcases h with rfl | ⟨p, hp, rfl⟩
  · omega
  · have hlist := List.sizeOf_lt_of_mem hp
    have hown := sizeOf_parameter p
    omega

/-- A tree directly below a node is smaller than the node. -/
theorem sizeOf_lt_of_mem_branches {t c : Tree} (h : c ∈ t.branches) : sizeOf c < sizeOf t := by
  cases t with
  | primitive | basic | reference | enumMember => simp [branches] at h
  | union _ ms _ | intersection _ ms | tuple _ _ ms | generic _ ms =>
    have hlist := List.sizeOf_lt_of_mem (show c ∈ ms from h)
    simp only [union.sizeOf_spec, intersection.sizeOf_spec, tuple.sizeOf_spec,
      generic.sizeOf_spec]
    omega
  | array _ _ t | promise _ t =>
    obtain rfl : c = t := by simpa [branches] using h
    simp only [array.sizeOf_spec, promise.sizeOf_spec]
    omega
  | object _ ps _ =>
    obtain ⟨p, hp, rfl⟩ := List.mem_map.1 (show c ∈ ps.map Property.type from h)
    have hlist := List.sizeOf_lt_of_mem hp
    obtain ⟨name, optional, readonly, type⟩ := p
    simp only [object.sizeOf_spec, Property.mk.sizeOf_spec] at hlist ⊢
    omega
  | function _ ss _ =>
    obtain ⟨s, hs, hc⟩ := List.mem_flatMap.1 (show c ∈ ss.flatMap Signature.types from h)
    have hlist := List.sizeOf_lt_of_mem hs
    have hown := sizeOf_signature hc
    simp only [function.sizeOf_spec]
    omega

/-- The number of nodes on a longest way from the root down; a leaf has height one. -/
def height (t : Tree) : Nat :=
  (t.branches.attach.map fun c ↦ c.1.height).foldr max 0 + 1
termination_by sizeOf t
decreasing_by exact sizeOf_lt_of_mem_branches c.2

theorem height_eq (t : Tree) : t.height = (t.branches.map height).foldr max 0 + 1 := by
  rw [height]
  simp

end Tree

end TypeLens
