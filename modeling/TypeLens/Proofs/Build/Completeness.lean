import TypeLens.Proofs.Build.Bounds

/-!
# Caps beyond the size of the graph

Caps that are larger than the graph have no effect: all options that agree in their policies and
whose caps are `Ample` for a snapshot expand a type alike, and leave nothing out (`tree_complete`).

For the width this is plain: a cap that is at least as large as a list does not shorten it. For the
depth it rests on the types on the way. A call at depth `d` has put at least `d` types of the
snapshot on the way, one for each level it went down, so that the depth and the number of types that
are not on the way are together at most the number of types. A type is expanded only if it is not on
the way; hence the depth is below a cap of one more than the number of types, and the question
whether a type is too deep is answered with no wherever it is asked. The one exception is where the
options say that arrays or functions are not unwrapped: what is below them is drawn at the greatest
depth, whatever that is, and comes out the same.
-/

namespace TypeLens

/-- The width of a snapshot is at most a bound: the lists of union members, of call signatures and
of properties with index signatures are no longer than it. -/
structure Graph.Snapshot.WidthLE (s : Snapshot) (m : Nat) : Prop where
  members : ∀ {t r}, s.type? t = some r → r.category = .union → r.members.length ≤ m
  signatures : ∀ {t r}, s.type? t = some r → r.callSignatures.length ≤ m
  properties : ∀ {t r}, s.type? t = some r → r.properties.length + r.indexSignatures.length ≤ m

/-- The caps are beyond a number of types and a width. -/
structure Options.Ample (opts : Options) (n m : Nat) : Prop where
  maxDepth : n + 1 ≤ opts.maxDepth
  maxProperties : m ≤ opts.maxProperties
  maxSubProperties : m ≤ opts.maxSubProperties
  maxUnionMembers : m ≤ opts.maxUnionMembers
  maxSignatures : m ≤ opts.maxSignatures

/-- The caps of the preset without bounds are beyond everything up to the greatest cap. -/
theorem Options.full_ample (opts : Options) {n m : Nat} (hn : n + 1 ≤ unbounded)
    (hm : m ≤ unbounded) : opts.full.Ample n m :=
  ⟨hn, hm, hm, hm, hm⟩

/-- The preset without bounds, when nothing in it is changed. -/
theorem Options.decodeFull_nil : decodeFull [] = .ok (full {}) :=
  rfl

/-- A depth that makes no more than the number of types, together with the number of types that are
left, is not too deep. -/
theorem Options.Ample.lt_maxDepth {opts : Options} {n m left : Nat} {depth : Int}
    (h : opts.Ample n m) (hdepth : depth + left ≤ n) : depth < opts.maxDepth := by
  have hmax := h.maxDepth
  omega

/-- The number of members, properties or signatures a node leaves out. -/
def Tree.leftOut : Tree → Int
  | .union _ _ e | .object _ _ e | .function _ _ e => e
  | _ => 0

@[simp]
theorem Tree.leftOut_setLabel (l : Label) (t : Tree) : (t.setLabel l).leftOut = t.leftOut := by
  cases t <;> rfl

theorem Tree.leftOut_of_isLeaf {t : Tree} (h : t.isLeaf = true) : t.leftOut = 0 := by
  cases t with
  | primitive | basic | reference => rfl
  | _ => cases h

namespace Build

open TypeLens.Graph TypeLens.Tree

/-! ### One type -/

section

variable {a b opts : Options} {f g : TypeId → Int → Tree} {s : Snapshot} {t : TypeId}
  {r : TypeRecord} {depth : Int} {n m : Nat}

/-- What a type has to show fits under ample caps. -/
structure Roomy (opts : Options) (r : TypeRecord) : Prop where
  members : r.category = .union → r.members.length ≤ opts.maxUnionMembers
  signatures : r.callables.length ≤ opts.maxSignatures
  properties : ∀ depth hidePrivate, (r.offered hidePrivate).length ≤ entryLimit opts depth

/-- Options that are ample for a snapshot leave room for each of its types. -/
theorem roomy_of_ample (hs : s.WidthLE m) (ha : opts.Ample n m) (hr : s.type? t = some r) :
    Roomy opts r where
  members hunion := (hs.members hr hunion).trans ha.maxUnionMembers
  signatures := by
    rw [TypeRecord.callables, List.length_map]
    exact (hs.signatures hr).trans ha.maxSignatures
  properties depth hidePrivate := by
    refine ((TypeRecord.length_offered_le hidePrivate).trans (hs.properties hr)).trans ?_
    unfold entryLimit
    split
    · exact ha.maxSubProperties
    · exact ha.maxProperties

/-- Nothing is left out of a type that fits under the caps. -/
theorem Form.leftOut_tree (h : Roomy opts r) {F : Form} (hF : F.fits opts r = true) :
    (F.tree f s opts r depth).leftOut = 0 := by
  cases F with
  | union =>
    have hunion : r.category = .union := by simpa using (Bool.and_eq_true_iff.1 hF).1
    exact Int.ofNat_eq_zero.2 (Nat.sub_eq_zero_of_le (h.members hunion))
  | function => exact Int.ofNat_eq_zero.2 (Nat.sub_eq_zero_of_le h.signatures)
  | object => exact Int.ofNat_eq_zero.2 (Nat.sub_eq_zero_of_le (h.properties _ _))
  | _ => rfl

theorem argumentTree_congr {da db : Int} (h : ∀ t, f t da = g t db) (unresolved : String) :
    argumentTree f unresolved da = argumentTree g unresolved db :=
  funext fun x ↦ rel_argumentTree h (fun _ ↦ rfl) unresolved x

/-- The trees of a signature are equal if the children are equal at the two depths. -/
theorem signatureTree_congr {da db : Int} (h : ∀ t, f t da = g t db) :
    signatureTree f da = signatureTree g db := by
  have hparameter : parameterTree f da = parameterTree g db := by
    funext x
    rw [parameterTree, parameterTree, h]
  funext c
  rw [signatureTree, signatureTree, argumentTree_congr h, hparameter]

/-- **The step.** A type that fits under both caps is drawn alike when the types below are. -/
theorem Form.tree_congr (hpolicies : a.SamePolicies b) (ha : Roomy a r) (hb : Roomy b r)
    (hsame : ∀ t, f t depth = g t depth) (hnext : ∀ t, f t (depth + 1) = g t (depth + 1))
    (hlast : ∀ t, f t a.maxDepth = g t b.maxDepth) {F : Form} (hF : F.fits a r = true) :
    F.tree f s a r depth = F.tree g s b r depth := by
  have hbelow := rel_depthBelow (R := Eq) hsame hlast
  -- Under both caps `take` takes everything and nothing is subtracted.
  cases F with
  | enumMember | suppressed | bare => rfl
  | union =>
    have hunion : r.category = .union := by simpa using (Bool.and_eq_true_iff.1 hF).1
    simp only [Form.tree, List.take_of_length_le (ha.members hunion),
      List.take_of_length_le (hb.members hunion), Nat.sub_eq_zero_of_le (ha.members hunion),
      Nat.sub_eq_zero_of_le (hb.members hunion), hsame]
  | intersection => simp only [Form.tree, hsame]
  | promise => rw [Form.tree, Form.tree, argumentTree_congr hsame]
  | tuple => rw [Form.tree, Form.tree, argumentTree_congr hsame]
  | generic => rw [Form.tree, Form.tree, argumentTree_congr hsame]
  | array =>
    rw [Form.tree, Form.tree, hpolicies.unwrapArrays, argumentTree_congr (hbelow b.unwrapArrays)]
  | function =>
    rw [Form.tree, Form.tree, hpolicies.unwrapFunctions,
      signatureTree_congr (hbelow b.unwrapFunctions), List.take_of_length_le ha.signatures,
      List.take_of_length_le hb.signatures, Nat.sub_eq_zero_of_le ha.signatures,
      Nat.sub_eq_zero_of_le hb.signatures]
  | object =>
    have hproperty : propertyTree f depth = propertyTree g depth := by
      funext p
      rw [propertyTree, propertyTree, hnext]
    have hroom := ha.properties depth b.hidePrivate
    have hroom' := hb.properties depth b.hidePrivate
    rw [Form.tree, Form.tree, hpolicies.hidePrivate, hproperty, List.take_of_length_le hroom,
      List.take_of_length_le hroom', Nat.sub_eq_zero_of_le hroom, Nat.sub_eq_zero_of_le hroom']

end

/-! ### The whole tree -/

section

variable {s : Snapshot} {n m : Nat}

/-- **Nothing is left out under ample caps**, at any depth and below any types. -/
theorem leftOut_expansion {opts : Options} (hs : s.WidthLE m) (hopts : opts.Ample n m) (t : TypeId)
    (depth : Int) (way : List TypeId) {above : List Tree} {u : Tree}
    (hu : Descent (expansion s opts t depth way) above u) : u.leftOut = 0 := by
  refine everywhere_expansion s opts (P := fun u ↦ u.leftOut = 0) (fun T ↦ leftOut_of_isLeaf) ?_
    t depth way above u hu
  intro t r depth way l hr
  rw [leftOut_setLabel]
  exact Form.leftOut_tree (roomy_of_ample hs hopts hr) (Form.fits_ofRecord opts r)

/-- **Ample caps do not show**, wherever the depth and the number of types that are not on the way
are together at most the number of types. -/
theorem expansion_eq_of_ample {a b : Options} (hpolicies : a.SamePolicies b) (hs : s.WidthLE m)
    (ha : a.Ample n m) (hb : b.Ample n m) (t : TypeId) (depth : Int) (way : List TypeId)
    (h : depth + (typeIds s \ way.toFinset).card ≤ n) :
    expansion s a t depth way = expansion s b t depth way := by
  -- The sum is the invariant: it keeps the depth below both greatest depths in every call.
  induction t, depth, way using expansion_induction s a with
  | missing t depth way hr => rw [expansion_of_none hr, expansion_of_none hr]
  | leaf t r depth way leaf hr hleaf =>
    have hleaf' := hleaf
    rw [leaf?_congr hpolicies (ha.lt_maxDepth h) (hb.lt_maxDepth h)] at hleaf'
    rw [expansion_of_leaf hr hleaf, expansion_of_leaf hr hleaf',
      decorate_congr hpolicies (ha.lt_maxDepth h) (hb.lt_maxDepth h)]
  | form t r depth way hr hleaf ih =>
    have hleaf' := hleaf
    rw [leaf?_congr hpolicies (ha.lt_maxDepth h) (hb.lt_maxDepth h)] at hleaf'
    -- Going down costs a type that is not on the way, so the sum does not grow.
    have hway : t ∉ way := of_decide_eq_false (of_leaf?_eq_none hleaf).2
    have hlt := card_typeIds_sdiff_cons_lt (s := s) (by simp [hr]) hway
    rw [expansion_of_form hr hleaf, expansion_of_form hr hleaf',
      decorate_congr hpolicies (ha.lt_maxDepth h) (hb.lt_maxDepth h),
      ← Form.ofRecord_congr hpolicies]
    refine congrArg _ (Form.tree_congr hpolicies (roomy_of_ample hs ha hr) (roomy_of_ample hs hb hr)
      ?_ ?_ ?_ (Form.fits_ofRecord a r))
    · intro t'
      exact ih t' depth (by omega)
    · intro t'
      exact ih t' (depth + 1) (by omega)
    · intro t'
      rw [expansion_of_maxDepth_le (Int.le_refl _), expansion_of_maxDepth_le (Int.le_refl _)]

end

/-- **Caps beyond the size of the graph have no effect.** For a type of a snapshot that was read,
all options with the same policies and with caps beyond the number of types and the width of the
snapshot give the same computation; unless it is cancelled, it answers a tree in which nothing is
left out. In particular this holds of the preset without bounds, as long as the snapshot is no
larger than the greatest cap. -/
theorem tree_complete {bytes : ByteArray} {o : Oracle}
    (hparse : Snapshot.parse bytes = .ok o.snapshot) (hb : o.broken = none) {m : Nat}
    (hwidth : o.snapshot.WidthLE m) {t : TypeId} (ht : (o.snapshot.type? t).isSome)
    {opts opts' : Options} (hpolicies : opts.SamePolicies opts')
    (hopts : opts.Ample (typeIds o.snapshot).card m)
    (hopts' : opts'.Ample (typeIds o.snapshot).card m) :
    tree o opts t 0 [] = tree o opts' t 0 [] ∧
    (∃ T, (∀ k, ((tree o opts t 0 []).run.run k).1 = .ok T ∨
        o.cancelFrom.isSome ∧ ((tree o opts t 0 []).run.run k).1 = .error .cancelled) ∧
      ∀ above u, Descent T above u → u.leftOut = 0) ∧
    ((typeIds o.snapshot).card + 1 ≤ Options.unbounded → m ≤ Options.unbounded →
      ∀ base : Options, opts.SamePolicies base.full →
        tree o opts t 0 [] = tree o base.full t 0 []) := by
  have hclosed := Snapshot.closed_of_parse hparse
  have heq : ∀ {other : Options}, opts.SamePolicies other →
      other.Ample (typeIds o.snapshot).card m → tree o opts t 0 [] = tree o other t 0 [] := by
    intro other hother hample
    rw [tree_eq_after hb hclosed ht, tree_eq_after hb hclosed ht,
      expansion_eq_of_ample hother hwidth hopts hample t 0 [] (by simp)]
  refine ⟨heq hpolicies hopts', ⟨expansion o.snapshot opts t 0 [], fun k ↦ ?_, fun above u hu ↦
    leftOut_expansion hwidth hopts t 0 [] hu⟩, fun hn hm base hbase ↦
    heq hbase (base.full_ample hn hm)⟩
  rw [tree_eq_after hb hclosed ht]
  exact Oracle.answers_or_cancelled hb _ _ k

/-- The list node under caps that are just beyond the sample, and under none. -/
theorem tree_complete_sample : ∃ s, Snapshot.parse Snapshot.sampleText.toUTF8 = .ok s ∧
    s.WidthLE 2 ∧ (typeIds s).card = 3 ∧ (s.type? "node").isSome ∧
    Options.decodeFull [] = .ok (Options.full {}) ∧
    tree ⟨s, "/", none, none⟩ { maxDepth := 4 } "node" 0 [] =
      tree ⟨s, "/", none, none⟩ (Options.full {}) "node" 0 [] ∧
    ∃ T, ((tree ⟨s, "/", none, none⟩ (Options.full {}) "node" 0 []).run.run 0).1 = .ok T ∧
      ∀ above u, Descent T above u → u.leftOut = 0 := by
  obtain ⟨s, hparse, htypes, ht⟩ := Snapshot.exists_parse_sampleText
  have hcard : (typeIds s).card = 3 := by
    rw [typeIds, htypes]
    decide
  have hwidth : s.WidthLE 2 := by
    have hall : ∀ p ∈ Snapshot.sampleTypes, (p.2.category = .union → p.2.members.length ≤ 2) ∧
        p.2.callSignatures.length ≤ 2 ∧ p.2.properties.length + p.2.indexSignatures.length ≤ 2 := by
      decide
    have hentry : ∀ {t r}, s.type? t = some r → (t, r) ∈ Snapshot.sampleTypes := fun hr ↦
      htypes ▸ Snapshot.mem_types hr
    exact ⟨fun hr ↦ (hall _ (hentry hr)).1, fun hr ↦ (hall _ (hentry hr)).2.1,
      fun hr ↦ (hall _ (hentry hr)).2.2⟩
  have hfull : (Options.full {}).Ample (typeIds s).card 2 := by
    rw [hcard]
    exact Options.full_ample _ (by decide) (by decide)
  have hcaps : Options.Ample { maxDepth := 4 } (typeIds s).card 2 := by
    rw [hcard]
    exact ⟨by decide, by decide, by decide, by decide, by decide⟩
  have hpolicies : Options.SamePolicies { maxDepth := 4 } (Options.full {}) :=
    ⟨rfl, rfl, rfl, rfl, rfl, rfl⟩
  obtain ⟨heq, ⟨T, hrun, hleft⟩, -⟩ := tree_complete (o := ⟨s, "/", none, none⟩) hparse rfl
    hwidth ht hpolicies hcaps hfull
  refine ⟨s, hparse, hwidth, hcard, ht, Options.decodeFull_nil, heq, T, ?_, hleft⟩
  rcases hrun 0 with hok | ⟨hcancelled, -⟩
  · rw [← heq]
    exact hok
  · cases hcancelled

end Build

end TypeLens
