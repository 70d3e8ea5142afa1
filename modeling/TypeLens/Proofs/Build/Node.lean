import TypeLens.Proofs.Build.Form
import TypeLens.Proofs.Graph.Answer
import TypeLens.Proofs.Tree.Shape

/-!
# The expansion of one type

The expansion of a type finds its form by asking one question after the other, and expands the
pieces of the form as it goes. For an intact oracle it comes out as the tree of the form: if the
expansions of the types below are in normal form, then so is that of the type (`node_eq_after`). It
checks for cancellation once for each property of its tree, and answers the tree.

Every form has its lemma, and the order in which forms are tried is handled once, in
`firstOf_attempts`.
-/

namespace TypeLens.Build

open TypeLens.Graph

/-! ### The pieces of a form -/

/-- Types whose expansion is in normal form: it checks for cancellation once for each property of
the tree, and answers the tree. -/
def Settled (o : Oracle) (child : TypeId → Int → Asked Tree) (f : TypeId → Int → Tree)
    (ts : List TypeId) : Prop :=
  ∀ t ∈ ts, ∀ depth, child t depth = o.after (f t depth).entries (f t depth)

section

variable {o : Oracle} {opts : Options} {child : TypeId → Int → Asked Tree}
  {f : TypeId → Int → Tree} {ts : List TypeId}

/-- An argument is built as its tree, after one check for each entry in it. -/
theorem argument_eq_after (hc : Settled o child f ts) {x : Option TypeId}
    (hx : ∀ t, x = some t → t ∈ ts) (unresolved : String) (depth : Int) :
    argument child unresolved depth x =
      o.after (argumentTree f unresolved depth x).entries (argumentTree f unresolved depth x) := by
  cases x with
  | some t => exact hc t (hx t rfl) depth
  | none => rw [argumentTree, Tree.entries_of_isLeaf rfl, Oracle.after_zero, argument]

/-- A parameter is built as its tree, after one check for each entry in it. -/
theorem parameter_eq_after (hc : Settled o child f ts) {a : Argument} (ha : a.type ∈ ts)
    (depth : Int) :
    parameter child depth a =
      o.after (f a.type depth).entries (parameterTree f depth a) := by
  rw [parameter, hc a.type ha depth, bind_pure_comp, Oracle.map_after]
  rfl

/-- Expanding a signature: the result first, then the parameters. -/
theorem signature_eq_after (hc : Settled o child f ts) {s : Callable}
    (hresult : ∀ t, s.result = some t → t ∈ ts) (hparameters : ∀ a ∈ s.parameters, a.type ∈ ts)
    (depth : Int) :
    signature child depth s =
      o.after (((signatureTree f depth s).types.map Tree.entries).sum)
        (signatureTree f depth s) := by
  have hmap := Oracle.mapM_eq_after (fun a : Argument ↦ (f a.type depth).entries)
    (parameterTree f depth) fun a ha ↦ parameter_eq_after hc (hparameters a ha) depth
  rw [signature, argument_eq_after hc hresult]
  refine (Oracle.after_bind_after (n := (s.parameters.map fun a ↦ (f a.type depth).entries).sum)
    (b := signatureTree f depth s) ?_).trans ?_
  · rw [hmap, bind_pure_comp, Oracle.map_after]
    rfl
  · simp [signatureTree, Signature.types, parameterTree, Function.comp_def]

/-- The rank of a type that exists. -/
theorem rank_eq (hb : o.broken = none) {t : TypeId} (ht : (o.snapshot.type? t).isSome) :
    rank o t = pure (o.snapshot.rank t) := by
  obtain ⟨r, hr⟩ := Option.isSome_iff_exists.1 ht
  simp only [rank, Oracle.isPrimitive, Oracle.typeName, Oracle.ofType_eq hb hr, pure_bind,
    Snapshot.rank, hr]
  by_cases hp : r.category = .primitive <;> simp [hp]

/-- The members of a union are sorted by rank, without a check. -/
theorem sortMembers_eq (hb : o.broken = none) {members : List TypeId}
    (hm : ∀ t ∈ members, (o.snapshot.type? t).isSome) :
    sortMembers o members = pure (o.snapshot.sortByRank members) := by
  have hranked : members.mapM (fun t ↦ do return (← rank o t, t)) =
      o.after 0 (members.map fun t ↦ (o.snapshot.rank t, t)) := by
    refine (Oracle.mapM_eq_after (o := o) (fun _ ↦ 0) (fun t ↦ (o.snapshot.rank t, t))
      fun t ht ↦ ?_).trans ?_
    · simp [rank_eq hb (hm t ht)]
    · simp
  rw [sortMembers, hranked, Oracle.after_zero, pure_bind]
  rfl

/-! ### The forms -/

variable {t : TypeId} {r : TypeRecord}

/-- Tries a form: answers its tree when the form fits, and declines otherwise. -/
def Form.attempt (o : Oracle) (opts : Options) (f : TypeId → Int → Tree) (r : TypeRecord)
    (depth : Int) (F : Form) : Asked (Option Tree) :=
  if F.fits opts r then
    o.after (F.tree f o.snapshot opts r depth).entries (some (F.tree f o.snapshot opts r depth))
  else pure none

/-- An attempt at a form that fits ends with the tree of the form. -/
theorem Form.attempt_of_fits {F : Form} (h : F.fits opts r = true) (depth : Int) :
    F.attempt o opts f r depth =
      o.after (F.tree f o.snapshot opts r depth).entries
        (some (F.tree f o.snapshot opts r depth)) :=
  if_pos h

theorem Form.attempt_of_not_fits {F : Form} (h : F.fits opts r = false) (depth : Int) :
    F.attempt o opts f r depth = pure none := by
  rw [attempt, h]
  rfl

/-- Trying forms in order finds the first that fits. -/
theorem firstOf_attempts (forms : List Form) (last : Asked Tree) (depth : Int) :
    firstOf (forms.map (Form.attempt o opts f r depth)) last =
      match forms.find? (Form.fits opts r) with
      | some F =>
        o.after (F.tree f o.snapshot opts r depth).entries (F.tree f o.snapshot opts r depth)
      | none => last := by
  induction forms with
  | nil => rfl
  | cons F forms ih =>
    rw [List.map_cons, firstOf, List.find?_cons]
    rcases hF : F.fits opts r with - | -
    · rw [Form.attempt_of_not_fits hF, pure_bind]
      exact ih
    · rw [Form.attempt_of_fits hF]
      exact Oracle.after_bind_after (n := 0) (Oracle.after_zero _).symm

/-- Building an enum member is the attempt at its form. -/
theorem enumForm_eq (hb : o.broken = none) (hr : o.snapshot.type? t = some r) (depth : Int) :
    enumForm o t r.name = Form.attempt o opts f r depth .enumMember := by
  simp only [enumForm, Oracle.enumMemberName, Oracle.ofType_eq hb hr, pure_bind, Form.attempt,
    Form.fits, Form.tree, Tree.entries_eq, Tree.ownEntries, Tree.branches]
  cases r.enumMemberName? with
  | none => rfl
  | some member => by_cases hm : member = "" <;> simp [hm]

/-- A type of which the members are expanded in order. -/
theorem mapM_child_eq_after (hc : Settled o child f ts) {members : List TypeId}
    (hsub : ∀ m ∈ members, m ∈ ts) (depth : Int) :
    members.mapM (child · depth) =
      o.after ((members.map (f · depth)).map Tree.entries).sum (members.map (f · depth)) := by
  rw [Oracle.mapM_eq_after (fun m ↦ (f m depth).entries) (f · depth)
    fun m hm ↦ hc m (hsub m hm) depth, List.map_map]
  rfl

theorem mem_sortByRank {s : Snapshot} {members : List TypeId} {m : TypeId} :
    m ∈ s.sortByRank members ↔ m ∈ members := by
  simp [Snapshot.sortByRank]

theorem length_sortByRank (s : Snapshot) (xs : List TypeId) :
    (s.sortByRank xs).length = xs.length := by
  simp [Snapshot.sortByRank]

/-- Building a union is the attempt at its form. -/
theorem unionForm_eq (hb : o.broken = none) (hr : o.snapshot.type? t = some r)
    (hs : ∀ ref ∈ r.references, (o.snapshot.type? ref).isSome)
    (hc : Settled o child f r.references) (depth : Int) :
    unionForm o opts child t r.name depth = Form.attempt o opts f r depth .union := by
  have hshown : ∀ m ∈ r.members.take opts.maxUnionMembers, m ∈ r.references := fun m hm ↦
    TypeRecord.mem_references_of_members (List.mem_of_mem_take hm)
  have hsort := sortMembers_eq hb fun m hm ↦ hs m (hshown m hm)
  have hsorted : ∀ m ∈ o.snapshot.sortByRank (r.members.take opts.maxUnionMembers),
      m ∈ r.references := fun m hm ↦ hshown m (mem_sortByRank.1 hm)
  have hmap := mapM_child_eq_after hc hsorted depth
  simp only [unionForm, Oracle.unionMembers, Oracle.ofType_eq hb hr, pure_bind]
  by_cases hcat : r.category = .union
  · rw [if_pos hcat]
    split
    · next h => cases h
    · next h =>
      have hnil : r.members = [] := Option.some.inj h
      rw [Form.attempt_of_not_fits (by simp [Form.fits, hnil])]
    · next members hne h =>
      obtain rfl : r.members = members := Option.some.inj h
      have hmembers : r.members ≠ [] := hne
      rw [hsort, pure_bind, hmap, bind_pure_comp, Oracle.map_after,
        Form.attempt_of_fits (by simp [Form.fits, hcat, hmembers]), Tree.entries_eq (Form.tree ..)]
      simp [Form.tree, Tree.ownEntries, Tree.branches]
  · rw [if_neg hcat, Form.attempt_of_not_fits (by simp [Form.fits, hcat])]

/-- Building an intersection is the attempt at its form. -/
theorem intersectionForm_eq (hb : o.broken = none) (hr : o.snapshot.type? t = some r)
    (hc : Settled o child f r.references) (depth : Int) :
    intersectionForm o child t r.name depth = Form.attempt o opts f r depth .intersection := by
  have hmap := mapM_child_eq_after hc
    (fun m hm ↦ TypeRecord.mem_references_of_members (r := r) hm) depth
  simp only [intersectionForm, Oracle.intersectionMembers, Oracle.ofType_eq hb hr, pure_bind]
  by_cases hcat : r.category = .intersection
  · rw [if_pos hcat]
    split
    · next h => cases h
    · next h =>
      have hnil : r.members = [] := Option.some.inj h
      rw [Form.attempt_of_not_fits (by simp [Form.fits, hnil])]
    · next members hne h =>
      obtain rfl : r.members = members := Option.some.inj h
      have hmembers : r.members ≠ [] := hne
      rw [hmap, bind_pure_comp, Oracle.map_after,
        Form.attempt_of_fits (by simp [Form.fits, hcat, hmembers]), Tree.entries_eq (Form.tree ..)]
      simp [Form.tree, Tree.ownEntries, Tree.branches]
  · rw [if_neg hcat, Form.attempt_of_not_fits (by simp [Form.fits, hcat])]

theorem promiseForm_eq (hb : o.broken = none) (hr : o.snapshot.type? t = some r)
    (hc : Settled o child f r.references) (depth : Int) :
    promiseForm o child t r.name depth = Form.attempt o opts f r depth .promise := by
  have harg := argument_eq_after hc
    (fun t ht ↦ TypeRecord.mem_references_of_firstArgument (r := r) ht) "void" depth
  simp only [promiseForm, Oracle.isPromise, Oracle.typeArguments, Oracle.ofType_eq hb hr, pure_bind]
  by_cases hcat : r.category = .promise
  · rw [if_pos (beq_iff_eq.2 hcat), ← TypeRecord.firstArgument, harg, bind_pure_comp,
      Oracle.map_after,
      Form.attempt_of_fits (by simp [Form.fits, hcat]), Tree.entries_eq (Form.tree ..)]
    simp [Form.tree, Tree.ownEntries, Tree.branches]
  · rw [if_neg (by simpa using hcat), Form.attempt_of_not_fits (by simp [Form.fits, hcat])]

/-- Building a function is the attempt at its form. -/
theorem functionForm_eq (hb : o.broken = none) (hr : o.snapshot.type? t = some r)
    (hc : Settled o child f r.references) (depth : Int) :
    functionForm o opts child t r.name depth = Form.attempt o opts f r depth .function := by
  have hmap := Oracle.mapM_eq_after (o := o)
    (fun s ↦ ((signatureTree f (depthBelow opts opts.unwrapFunctions depth) s).types.map
      Tree.entries).sum)
    (signatureTree f (depthBelow opts opts.unwrapFunctions depth))
    fun s (hs : s ∈ r.callables.take opts.maxSignatures) ↦
      have hrefs := TypeRecord.mem_references_of_callables (List.mem_of_mem_take hs)
      signature_eq_after hc hrefs.1 hrefs.2 (depthBelow opts opts.unwrapFunctions depth)
  simp only [functionForm, Oracle.callSignatures, Oracle.ofType_eq hb hr, pure_bind]
  split
  · next h =>
    rw [Form.attempt_of_not_fits (by simp [Form.fits, List.map_eq_nil_iff.1 h])]
  · next hne =>
    have hcallables : r.callables ≠ [] := hne
    have hfits : Form.function.fits opts r = true := by
      simpa [Form.fits, TypeRecord.callables] using hcallables
    rw [← TypeRecord.callables, ← depthBelow, hmap, bind_pure_comp, Oracle.map_after,
      Form.attempt_of_fits hfits, Form.tree, Tree.entries_function, List.map_map]
    rfl

theorem arrayForm_eq (hb : o.broken = none) (hr : o.snapshot.type? t = some r)
    (hc : Settled o child f r.references) (depth : Int) :
    arrayForm o opts child t r.name depth = Form.attempt o opts f r depth .array := by
  have harg := argument_eq_after hc
    (fun t ht ↦ TypeRecord.mem_references_of_firstArgument (r := r) ht) "any"
    (depthBelow opts opts.unwrapArrays depth)
  simp only [arrayForm, Oracle.isArray, Oracle.typeArguments, Oracle.isReadonly,
    Oracle.ofType_eq hb hr, pure_bind]
  by_cases hcat : r.category = .array
  · rw [if_pos (beq_iff_eq.2 hcat), ← TypeRecord.firstArgument, ← depthBelow, harg,
      bind_pure_comp, Oracle.map_after,
      Form.attempt_of_fits (by simp [Form.fits, hcat]), Tree.entries_eq (Form.tree ..)]
    simp [Form.tree, Tree.ownEntries, Tree.branches]
  · rw [if_neg (by simpa using hcat), Form.attempt_of_not_fits (by simp [Form.fits, hcat])]

/-- Type arguments are expanded in order. -/
theorem mapM_argument_eq_after (hc : Settled o child f r.references) (unresolved : String)
    (depth : Int) :
    r.typeArguments.mapM (argument child unresolved depth) =
      o.after ((r.typeArguments.map (argumentTree f unresolved depth)).map Tree.entries).sum
        (r.typeArguments.map (argumentTree f unresolved depth)) := by
  rw [List.map_map]
  refine Oracle.mapM_eq_after _ _ fun x hx ↦ argument_eq_after hc ?_ unresolved depth
  rintro t rfl
  exact TypeRecord.mem_references_of_typeArguments hx

theorem tupleForm_eq (hb : o.broken = none) (hr : o.snapshot.type? t = some r)
    (hc : Settled o child f r.references) (depth : Int) :
    tupleForm o child t r.name depth = Form.attempt o opts f r depth .tuple := by
  simp only [tupleForm, Oracle.isTuple, Oracle.typeArguments, Oracle.isReadonly,
    Oracle.ofType_eq hb hr, pure_bind]
  by_cases hcat : r.category = .tuple
  · rw [if_pos (beq_iff_eq.2 hcat), mapM_argument_eq_after hc, bind_pure_comp, Oracle.map_after,
      Form.attempt_of_fits (by simp [Form.fits, hcat]), Tree.entries_eq (Form.tree ..)]
    simp [Form.tree, Tree.ownEntries, Tree.branches]
  · rw [if_neg (by simpa using hcat), Form.attempt_of_not_fits (by simp [Form.fits, hcat])]

/-! ### Objects, instances of generic types and the rest -/

/-- An index signature takes one check more than its type has entries. -/
theorem indexProperty_eq_after (hc : Settled o child f ts) {s : IndexSignature} (hs : s.type ∈ ts)
    (depth : Int) :
    indexProperty o child depth s =
      o.after ((propertyTree f depth s.property).type.entries + 1)
        (propertyTree f depth s.property) := by
  rw [indexProperty, hc s.type hs, bind_pure_comp, Oracle.map_after, Oracle.poll_bind_after]
  rfl

/-- A member takes one check more than its type has entries. -/
theorem memberProperty_eq_after (hc : Settled o child f ts) {m : Member} (hm : m.type ∈ ts)
    (depth : Int) :
    memberProperty o child depth m =
      o.after ((propertyTree f depth m.property).type.entries + 1)
        (propertyTree f depth m.property) := by
  rw [memberProperty, hc m.type hm, bind_pure_comp, Oracle.map_after, Oracle.poll_bind_after]
  rfl

/-- Taking from the index signatures first, and from the members what is left, is taking from both
in a row. -/
theorem take_offered (r : TypeRecord) (hidePrivate : Bool) (limit : Nat) :
    (r.offered hidePrivate).take limit =
      (r.indexSignatures.take limit).map IndexSignature.property ++
        ((r.visibleMembers hidePrivate).take
          (limit - (r.indexSignatures.take limit).length)).map Member.property := by
  rw [TypeRecord.offered, List.take_append, List.map_take, List.map_take, List.length_map,
    List.length_take]
  congr 2
  omega

/-- Expanding an object: its index signatures, then its members, up to the limit. -/
theorem object_eq_after (hb : o.broken = none) (hr : o.snapshot.type? t = some r)
    (hc : Settled o child f r.references) (depth : Int) :
    object o opts child t r.name depth =
      o.after (Form.object.tree f o.snapshot opts r depth).entries
        (Form.object.tree f o.snapshot opts r depth) := by
  have hrefs : ∀ p ∈ r.offered opts.hidePrivate, p.type ∈ r.references := fun p hp ↦
    TypeRecord.mem_references_of_offered hp
  have hindexes := Oracle.mapM_eq_after (o := o)
    (fun s ↦ (propertyTree f depth s.property).type.entries + 1)
    (fun s ↦ propertyTree f depth s.property)
    fun s (hs : s ∈ r.indexSignatures.take (entryLimit opts depth)) ↦
      indexProperty_eq_after hc (hrefs s.property (List.mem_append_left _
        (List.mem_map_of_mem (List.mem_of_mem_take hs)))) depth
  have hmembers := Oracle.mapM_eq_after (o := o)
    (fun m ↦ (propertyTree f depth m.property).type.entries + 1)
    (fun m ↦ propertyTree f depth m.property)
    fun m (hm : m ∈ (r.visibleMembers opts.hidePrivate).take
        (entryLimit opts depth - (r.indexSignatures.take (entryLimit opts depth)).length)) ↦
      memberProperty_eq_after hc (hrefs m.property (List.mem_append_right _
        (List.mem_map_of_mem (List.mem_of_mem_take hm)))) depth
  have hlength : (r.visibleMembers opts.hidePrivate).length + r.indexSignatures.length =
      (r.offered opts.hidePrivate).length := by
    rw [TypeRecord.offered, List.length_append, List.length_map, List.length_map, Nat.add_comm]
  simp only [object, Oracle.properties, Oracle.indexSignatures, Oracle.ofType_eq hb hr, pure_bind]
  rw [← TypeRecord.visibleMembers, hindexes, Form.tree, Tree.entries_object, take_offered,
    hlength, List.map_append, List.map_append, List.sum_append]
  simp only [List.map_map]
  refine Oracle.after_bind_after ?_
  rw [hmembers, bind_pure_comp, Oracle.map_after]
  rfl

/-- The last forms in order: a suppressed instance, an instance that shows its arguments, an object
and anything else. -/
theorem Form.find?_nominal (opts : Options) (r : TypeRecord) :
    (nominal.find? (fits opts r)).getD .bare =
      if r.isInstance && opts.skippedNames.contains r.targetName then .suppressed
      else if r.isInstance && opts.unwrappedGenerics.contains r.targetName then .generic
      else if r.category == .object then .object
      else if r.isInstance then .generic
      else .bare := by
  simp only [nominal, List.find?_cons, List.find?_nil, fits, bne]
  generalize r.isInstance = a
  generalize opts.skippedNames.contains r.targetName = b
  generalize opts.unwrappedGenerics.contains r.targetName = c
  generalize (r.category == Category.object) = d
  cases a <;> cases b <;> cases c <;> cases d <;> rfl

/-- Expanding what has none of the forms that are tried first. -/
theorem genericForm_eq_after (hb : o.broken = none) (hr : o.snapshot.type? t = some r)
    (hc : Settled o child f r.references) (depth : Int) {F : Form}
    (hF : (Form.nominal.find? (Form.fits opts r)).getD .bare = F) :
    genericForm o opts child t r.name depth =
      o.after (F.tree f o.snapshot opts r depth).entries (F.tree f o.snapshot opts r depth) := by
  have hobject : object o opts child t r.name depth = _ := object_eq_after hb hr hc depth
  have hgeneric : Tree.generic (named r.targetName) <$>
        r.typeArguments.mapM (argument child "unknown" depth) =
      o.after (Form.generic.tree f o.snapshot opts r depth).entries
        (Form.generic.tree f o.snapshot opts r depth) := by
    rw [mapM_argument_eq_after hc, Oracle.map_after, Tree.entries_eq (Form.tree ..)]
    simp [Form.tree, Tree.ownEntries, Tree.branches]
  have hleaf : ∀ leaf : Tree, leaf.isLeaf = true → o.after leaf.entries leaf = pure leaf := by
    intro leaf hleaf
    rw [Tree.entries_of_isLeaf hleaf, Oracle.after_zero]
  simp only [genericForm, Oracle.genericTarget, Oracle.typeArguments, Oracle.isObject,
    Oracle.ofType_eq hb hr, pure_bind, bind_pure_comp]
  rw [← TypeRecord.targetName, hobject]
  rw [Form.find?_nominal] at hF
  by_cases hinst : r.isInstance = true
  · obtain ⟨htarget, harguments⟩ : r.targetName ≠ "" ∧ r.typeArguments.isEmpty = false := by
      simpa [TypeRecord.isInstance] using hinst
    rw [if_neg htarget, harguments, hgeneric]
    simp only [hinst, Bool.true_and, Bool.not_false, if_true] at hF ⊢
    split_ifs at hF ⊢ <;> subst hF
    · exact (hleaf _ rfl).symm
    · rfl
    · rfl
    · rfl
  · -- Without a target no arguments are asked for; without arguments a target does not matter.
    have hrest : (if (r.category == .object) = true then
          o.after (Form.object.tree f o.snapshot opts r depth).entries
            (Form.object.tree f o.snapshot opts r depth)
        else pure (.basic (named r.name))) =
        o.after (F.tree f o.snapshot opts r depth).entries (F.tree f o.snapshot opts r depth) := by
      simp only [hinst, Bool.false_and, Bool.false_eq_true, if_false] at hF
      split_ifs at hF ⊢ <;> subst hF
      · rfl
      · exact (hleaf _ rfl).symm
    by_cases htarget : r.targetName = ""
    · simpa [htarget] using hrest
    · have harguments : r.typeArguments.isEmpty = true := by
        simpa [TypeRecord.isInstance, htarget] using hinst
      rw [if_neg htarget, harguments]
      simpa using hrest

/-- **Expanding a type is answering the tree of its form**, after one cancellation check for each
property of that tree, when the types below are expanded so. -/
theorem node_eq_after (hb : o.broken = none) (hr : o.snapshot.type? t = some r)
    (hs : ∀ ref ∈ r.references, (o.snapshot.type? ref).isSome)
    (hc : Settled o child f r.references) (depth : Int) :
    node o opts child t r.name depth =
      o.after ((Form.ofRecord opts r).tree f o.snapshot opts r depth).entries
        ((Form.ofRecord opts r).tree f o.snapshot opts r depth) := by
  have hforms : [enumForm o t r.name, unionForm o opts child t r.name depth,
        intersectionForm o child t r.name depth, promiseForm o child t r.name depth,
        functionForm o opts child t r.name depth, arrayForm o opts child t r.name depth,
        tupleForm o child t r.name depth] =
      Form.structural.map (Form.attempt o opts f r depth) := by
    rw [enumForm_eq hb hr, unionForm_eq hb hr hs hc, intersectionForm_eq hb hr hc,
      promiseForm_eq hb hr hc, functionForm_eq hb hr hc, arrayForm_eq hb hr hc,
      tupleForm_eq hb hr hc]
    rfl
  rw [node, hforms, firstOf_attempts, Form.ofRecord, List.find?_append]
  rcases hF : Form.structural.find? (Form.fits opts r) with - | F
  · exact genericForm_eq_after hb hr hc depth rfl
  · rfl

end

end TypeLens.Build
