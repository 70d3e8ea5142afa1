import Mathlib.Algebra.Ring.Nat
import Mathlib.Data.List.MinMax
import Mathlib.Order.Nat
import TypeLens.Tree.Shape

/-!
# The shape of a tree

What a tree is like as a tree, whatever the kinds of its nodes: `Tree.branches` lists the trees
directly below a node, and everything else goes through it. `Tree.height` is the number of nodes on
a longest way down, `Tree.entries` the number of properties shown in the whole tree, and
`Tree.Descent t above u` says that `u` is a node of `t` with the nodes `above` on the way to it, the
root first.

A node's label is no part of its shape: another label leaves the branches alone.
-/

namespace TypeLens

namespace Tree

/-- The number of properties a node shows itself. -/
def ownEntries : Tree → Nat
  | object _ ps _ => ps.length
  | _ => 0

/-- Whether a node is an object. -/
def isObject : Tree → Bool
  | object .. => true
  | _ => false

@[simp]
theorem branches_setLabel (l : Label) (t : Tree) : (t.setLabel l).branches = t.branches := by
  cases t <;> rfl

@[simp]
theorem ownEntries_setLabel (l : Label) (t : Tree) : (t.setLabel l).ownEntries = t.ownEntries := by
  cases t <;> rfl

@[simp]
theorem isObject_setLabel (l : Label) (t : Tree) : (t.setLabel l).isObject = t.isObject := by
  cases t <;> rfl

theorem isLeaf_setLabel (l : Label) (t : Tree) : (t.setLabel l).isLeaf = t.isLeaf := by
  cases t <;> rfl

theorem branches_of_isLeaf {t : Tree} (h : t.isLeaf = true) : t.branches = [] := by
  cases t with
  | primitive | basic | reference => rfl
  | _ => cases h

/-- The number of properties in all objects of a tree. -/
def entries (t : Tree) : Nat :=
  t.ownEntries + (t.branches.attach.map fun c ↦ c.1.entries).sum
termination_by sizeOf t
decreasing_by exact sizeOf_lt_of_mem_branches c.2

/-- A tree has the entries of its root and those of the trees below it. -/
theorem entries_eq (t : Tree) : t.entries = t.ownEntries + (t.branches.map entries).sum := by
  rw [entries]
  simp

/-- The properties of an object: each counts, with those below it. -/
theorem entries_object (l : Label) (ps : List (Property Tree)) (e : Int) :
    (object l ps e).entries = (ps.map fun p ↦ p.type.entries + 1).sum := by
  rw [entries_eq]
  simp only [ownEntries, branches, List.map_map]
  induction ps with
  | nil => rfl
  | cons p ps ih =>
    simp only [List.map_cons, List.sum_cons, List.length_cons, Function.comp_apply] at ih ⊢
    omega

/-- The properties in a function, signature by signature. -/
theorem entries_function (l : Label) (ss : List (Signature Tree)) (e : Int) :
    (function l ss e).entries = (ss.map fun s ↦ (s.types.map entries).sum).sum := by
  rw [entries_eq]
  simp only [ownEntries, branches, Nat.zero_add]
  induction ss with
  | nil => rfl
  | cons s ss ih =>
    rw [List.flatMap_cons, List.map_append, List.sum_append, ih, List.map_cons, List.sum_cons]

@[simp]
theorem entries_setLabel (l : Label) (t : Tree) : (t.setLabel l).entries = t.entries := by
  rw [entries_eq, entries_eq t, branches_setLabel, ownEntries_setLabel]

@[simp]
theorem height_setLabel (l : Label) (t : Tree) : (t.setLabel l).height = t.height := by
  rw [height_eq, height_eq t, branches_setLabel]

/-- A leaf has height one. -/
theorem height_of_isLeaf {t : Tree} (h : t.isLeaf = true) : t.height = 1 := by
  rw [height_eq, branches_of_isLeaf h]
  rfl

/-- A leaf has no properties. -/
theorem entries_of_isLeaf {t : Tree} (h : t.isLeaf = true) : t.entries = 0 := by
  cases t with
  | primitive | basic | reference => rw [entries_eq]; rfl
  | _ => cases h

/-- A bound on the heights below a node bounds the height of the node. -/
theorem height_le_succ {n : Nat} {t : Tree} (h : ∀ c ∈ t.branches, c.height ≤ n) :
    t.height ≤ n + 1 := by
  rw [height_eq]
  refine Nat.succ_le_succ (List.max_le_of_forall_le _ n ?_)
  intro x hx
  obtain ⟨c, hc, rfl⟩ := List.mem_map.1 hx
  exact h c hc

/-- The trees below a node are less high than the node. -/
theorem height_lt_of_mem_branches {t c : Tree} (h : c ∈ t.branches) : c.height < t.height := by
  rw [height_eq t, Nat.lt_succ_iff]
  exact List.le_max_of_le' 0 (List.mem_map_of_mem h) le_rfl

theorem height_pos (t : Tree) : 0 < t.height := by
  rw [height_eq]
  exact Nat.succ_pos _

/-- A node fits into some levels if it is above the last of them and the trees below it fit. -/
theorem height_le_of_branches {above levels : Nat} {t : Tree} (habove : above < levels)
    (h : ∀ b ∈ t.branches, above + 1 + b.height ≤ levels) : above + t.height ≤ levels := by
  have hbelow : ∀ b ∈ t.branches, b.height ≤ levels - (above + 1) := by
    intro b hb
    have hle := h b hb
    omega
  have hle := height_le_succ hbelow
  omega

/-! ### The nodes of a tree -/

/-- `Descent t above u`: going down from `t` through the nodes `above` leads to the node `u`. -/
inductive Descent : Tree → List Tree → Tree → Prop
  | here (t : Tree) : Descent t [] t
  | down {t c u : Tree} {above : List Tree} (hc : c ∈ t.branches) (hu : Descent c above u) :
    Descent t (t :: above) u

/-- What holds of every node of a tree. -/
def Everywhere (P : Tree → Prop) (t : Tree) : Prop :=
  ∀ above u, Descent t above u → P u

/-- **Induction over a tree**: what holds of a node once it holds of the trees directly below holds
of every tree. -/
theorem branch_induction {motive : Tree → Prop}
    (node : ∀ t, (∀ c ∈ t.branches, motive c) → motive t) (t : Tree) : motive t :=
  node t fun c _ ↦ branch_induction node c
termination_by sizeOf t
decreasing_by exact sizeOf_lt_of_mem_branches ‹_›

section

variable {P Q : Tree → Prop} {t : Tree}

/-- Something holds everywhere if it holds of the root and everywhere below it. -/
theorem everywhere_iff : t.Everywhere P ↔ P t ∧ ∀ c ∈ t.branches, c.Everywhere P := by
  constructor
  · intro h
    exact ⟨h [] t (.here t), fun c hc above u hu ↦ h (t :: above) u (.down hc hu)⟩
  · rintro ⟨hroot, hbelow⟩ above u hu
    cases hu with
    | here => exact hroot
    | down hc hu => exact hbelow _ hc _ _ hu

theorem Everywhere.root (h : t.Everywhere P) : P t :=
  (everywhere_iff.1 h).1

theorem Everywhere.branch (h : t.Everywhere P) {c : Tree} (hc : c ∈ t.branches) :
    c.Everywhere P :=
  (everywhere_iff.1 h).2 c hc

theorem Everywhere.imp (h : t.Everywhere P) (hPQ : ∀ u, P u → Q u) : t.Everywhere Q :=
  fun above u hu ↦ hPQ u (h above u hu)

/-- At a leaf everywhere is the root. -/
theorem everywhere_of_isLeaf (ht : t.isLeaf = true) (h : P t) : t.Everywhere P :=
  everywhere_iff.2 ⟨h, fun c hc ↦ by simp [branches_of_isLeaf ht] at hc⟩

end

end Tree

end TypeLens
