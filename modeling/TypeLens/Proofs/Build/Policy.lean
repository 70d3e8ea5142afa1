import TypeLens.Proofs.Build.Bounds

/-!
# Policies of an expansion

Apart from the caps, options say what is not to be expanded: types and instances of generic types by
their names, the elements of arrays, and the types of functions. A tree that an expansion answers
keeps to all of this, at every node (`tree_follows`).

A name is looked up in two places: the name of the type before anything else is asked about it, and
the name of the generic type only when the forms before it have been ruled out. That is enough,
because a node is shown under the second name only in the form of an instance that shows its
arguments, which `Form.nominal` puts behind the form of a suppressed instance.
-/

namespace TypeLens

namespace Tree

/-- Whether a node is the leaf of a type that is not expanded, without being suppressed by name. -/
def isPlainLeaf : Tree → Bool
  | primitive _ | basic _ => true
  | _ => false

/-- A node keeps to the policies. -/
structure Follows (opts : Options) (t : Tree) : Prop where
  /-- What is expanded is not skipped by its name. -/
  name : t.isLeaf = false → t.name ∉ opts.skippedNames
  /-- The elements of arrays are expanded only if they are unwrapped. -/
  element : opts.unwrapArrays = false → ∀ l r c, t = array l r c → c.isPlainLeaf = true
  /-- So are the types of functions. -/
  signatures : opts.unwrapFunctions = false → ∀ l ss e, t = function l ss e →
    ∀ s ∈ ss, ∀ c ∈ s.types, c.isPlainLeaf = true
  /-- An instance of a generic type is shown by its arguments only if it has some. -/
  arguments : ∀ l ts, t = generic l ts → ts ≠ []

theorem follows_of_isLeaf {opts : Options} {t : Tree} (h : t.isLeaf = true) : t.Follows opts where
  name hnot := by rw [h] at hnot; cases hnot
  element := by rintro - l r c rfl; cases h
  signatures := by rintro - l ss e rfl; cases h
  arguments := by rintro l ts rfl; cases h

/-- What a node is labelled with matters only by the name. -/
theorem Follows.setLabel {opts : Options} {t : Tree} (h : t.Follows opts) {l : Label}
    (hl : l.name = t.name) : (t.setLabel l).Follows opts where
  name := by
    rw [isLeaf_setLabel, Tree.name, label_setLabel, hl]
    exact h.name
  element hunwrap l' r c heq := by
    cases t with
    | array =>
      obtain ⟨-, -, rfl⟩ := array.inj heq
      exact h.element hunwrap _ _ _ rfl
    | _ => cases heq
  signatures hunwrap l' ss e heq := by
    cases t with
    | function =>
      obtain ⟨-, rfl, -⟩ := function.inj heq
      exact h.signatures hunwrap _ _ _ rfl
    | _ => cases heq
  arguments l' ts heq := by
    cases t with
    | generic =>
      obtain ⟨-, rfl⟩ := generic.inj heq
      exact h.arguments _ _ rfl
    | _ => cases heq

end Tree

namespace Build

open TypeLens.Graph TypeLens.Tree

theorem isPlainLeaf_stub (s : Snapshot) (t : TypeId) : (stub s t).isPlainLeaf = true := by
  unfold stub
  split
  · rfl
  · split_ifs <;> rfl

/-- Storing display parts with a node changes nothing about the policies. -/
theorem follows_decorate {opts : Options} {t : Tree} (h : t.Follows opts) (depth : Int) :
    (decorate opts depth t).Follows opts := by
  unfold decorate
  split
  · exact h.setLabel rfl
  · exact h

section

variable {s : Snapshot} {opts : Options} {r : TypeRecord} {child : TypeId → Int → Tree}
  {depth : Int}

/-- What is below a function or an array that is not unwrapped is no more than a name. -/
theorem isPlainLeaf_argumentTree {d : Int} (h : ∀ t, (child t d).isPlainLeaf = true)
    (unresolved : String) (x : Option TypeId) :
    (argumentTree child unresolved d x).isPlainLeaf = true := by
  cases x with
  | some t => exact h t
  | none => rfl

/-- An instance that shows its arguments has some, and is not of a generic type that is skipped. -/
theorem Form.of_ofRecord_eq_generic (h : ofRecord opts r = generic) :
    r.typeArguments ≠ [] ∧ r.targetName ∉ opts.skippedNames := by
  have hinstance : r.isInstance = true := by
    have hfits := fits_ofRecord opts r
    rw [h, fits, Bool.and_eq_true] at hfits
    exact hfits.1
  refine ⟨?_, fun hskipped ↦ ?_⟩
  · rw [TypeRecord.isInstance, Bool.and_eq_true] at hinstance
    simpa using hinstance.2
  · -- A suppressed instance is looked for before one that shows its arguments.
    rw [ofRecord, List.find?_append] at h
    rcases hF : structural.find? (fits opts r) with - | F
    · have hnominal := find?_nominal opts r
      rw [if_pos (by simp [hinstance, hskipped])] at hnominal
      rw [hF, Option.none_or, hnominal] at h
      cases h
    · have hmem := List.mem_of_find?_eq_some hF
      rw [hF, Option.some_or, Option.getD_some] at h
      rw [h] at hmem
      exact absurd hmem (by decide)

/-- **The step.** A type that is expanded in its form keeps to the policies, over leaves at the
greatest depth. -/
theorem Form.follows_tree (hname : r.name ∉ opts.skippedNames)
    (hlast : ∀ t, (child t opts.maxDepth).isPlainLeaf = true) :
    ((ofRecord opts r).tree child s opts r depth).Follows opts where
  name hleaf := by
    -- Each policy is about the nodes of one form, so the other forms do not matter.
    cases hF : ofRecord opts r with
    | suppressed | bare => rw [hF] at hleaf; cases hleaf
    | generic => exact (of_ofRecord_eq_generic hF).2
    | _ => exact hname
  element hunwrap l readonly c heq := by
    cases hF : ofRecord opts r with
    | array =>
      rw [hF, tree, hunwrap] at heq
      obtain ⟨-, -, rfl⟩ := Tree.array.inj heq
      exact isPlainLeaf_argumentTree hlast _ _
    | _ => rw [hF] at heq; cases heq
  signatures hunwrap l ss e heq q hq c hc := by
    cases hF : ofRecord opts r with
    | function =>
      rw [hF, tree, hunwrap] at heq
      obtain ⟨-, rfl, -⟩ := Tree.function.inj heq
      obtain ⟨x, -, rfl⟩ := List.mem_map.1 hq
      simp only [signatureTree, Signature.types, List.map_map, List.mem_cons, List.mem_map] at hc
      rcases hc with rfl | ⟨p, -, rfl⟩
      · exact isPlainLeaf_argumentTree hlast _ _
      · exact hlast p.type
    | _ => rw [hF] at heq; cases heq
  arguments l ts heq := by
    cases hF : ofRecord opts r with
    | generic =>
      rw [hF] at heq
      obtain ⟨-, rfl⟩ := Tree.generic.inj heq
      simpa using (of_ofRecord_eq_generic hF).1
    | _ => rw [hF] at heq; cases heq

end

/-- **The run.** Every node of an expansion keeps to the policies. -/
theorem follows_expansion (s : Snapshot) (opts : Options) (t : TypeId) (depth : Int)
    (way : List TypeId) : (expansion s opts t depth way).Everywhere (Follows opts) := by
  refine everywhere_expansion_decorate s opts (fun T ↦ follows_of_isLeaf)
    (fun t r depth way hr hleaf ↦ ?_) t depth way
  have hname : r.name ∉ opts.skippedNames := by
    unfold leaf? at hleaf
    split_ifs at hleaf with _ _ _ hskipped
    simpa using hskipped
  refine follows_decorate (Form.follows_tree hname fun t' ↦ ?_) depth
  rw [expansion_of_maxDepth_le (Int.le_refl _)]
  exact isPlainLeaf_stub s t'

/-- **The policies hold in the whole tree.** For a type of a snapshot that was read, at any depth,
below any types and under any schedule of cancellation: every node of the tree that is answered
keeps to the policies of the options. -/
theorem tree_follows {bytes : ByteArray} {o : Oracle}
    (hparse : Snapshot.parse bytes = .ok o.snapshot) (hb : o.broken = none) {opts : Options}
    {t : TypeId} {depth : Int} {way : List TypeId} {k k' : Nat} {T : Tree}
    (hrun : (tree o opts t depth way).run.run k = (.ok T, k')) : T.Everywhere (Follows opts) := by
  obtain ⟨-, rfl⟩ := eq_expansion_of_run hb (Snapshot.closed_of_parse hparse) hrun
  exact follows_expansion o.snapshot opts t depth way

/-- The list node, when the name of its link is skipped. -/
theorem tree_follows_sample : ∃ s k', Snapshot.parse Snapshot.sampleText.toUTF8 = .ok s ∧
    (tree ⟨s, "/", none, none⟩ { skippedNames := ["Node | undefined"] } "node" 0 []).run.run 0 =
      (.ok (.object (named "Node")
        [⟨"next", false, false, .reference (named "Node | undefined")⟩] 0), k') ∧
    (Tree.object (named "Node")
      [⟨"next", false, false, .reference (named "Node | undefined")⟩] 0).Everywhere
        (Follows { skippedNames := ["Node | undefined"] }) := by
  obtain ⟨s, hparse, htypes, ht⟩ := Snapshot.exists_parse_sampleText
  obtain ⟨hnode, hlink, -⟩ := Snapshot.type?_of_sampleTypes htypes
  have hreference : expansion s { skippedNames := ["Node | undefined"] } "link" 1 ["node"] =
      .reference (named "Node | undefined") := expansion_of_leaf hlink rfl
  have hobject : expansion s { skippedNames := ["Node | undefined"] } "node" 0 [] =
      .object (named "Node") [⟨"next", false, false, .reference (named "Node | undefined")⟩] 0 := by
    rw [expansion_of_form hnode rfl, decorate_of_displayParts_eq_false rfl,
      show Form.ofRecord _ _ = Form.object by decide]
    exact congrArg (fun c ↦ Tree.object (named "Node") [⟨"next", false, false, c⟩] 0) hreference
  have hrun := Oracle.run_after (o := ⟨s, "/", none, none⟩) rfl rfl
    (expansion s { skippedNames := ["Node | undefined"] } "node" 0 []).entries
    (expansion s { skippedNames := ["Node | undefined"] } "node" 0 []) 0
  rw [← tree_eq_after rfl (Snapshot.closed_of_parse hparse) ht, hobject] at hrun
  exact ⟨s, _, hparse, hrun, tree_follows (o := ⟨s, "/", none, none⟩) hparse rfl hrun⟩

end Build

end TypeLens
