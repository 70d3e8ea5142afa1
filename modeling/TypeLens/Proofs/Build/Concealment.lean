import TypeLens.Build

/-!
# Private members leave no trace

Leaving private members out while a type is expanded is the same as having taken them out of the
type graph before. `Oracle.openPart` asks the graph without its private members, and expanding with
private members left out is, as a computation, expanding *that* graph with nothing left out
(`tree_conceals`). Equal computations show the same tree with the same counts and display parts,
stop in the same cases and check for cancellation equally often; so a private member decides neither
which members fall under a cap, nor how many are counted as left out, nor when a cancellation is
noticed.

Only the question for the members of a type sees a difference (`properties_openPart`), and only the
expansion of objects asks it (`object_openPart`). Nothing is assumed of the oracle: the graph need
not be closed, and the oracle may be broken or cancel.
-/

namespace TypeLens

namespace Graph

/-! ### The graph without its private members -/

/-- A type without its private members. -/
def TypeRecord.openPart (r : TypeRecord) : TypeRecord :=
  { r with properties := r.properties.filter fun p ↦ p.member.isPublic }

/-- A snapshot whose types have lost their private members. -/
def Snapshot.openPart (s : Snapshot) : Snapshot :=
  { s with types := s.types.map fun (id, r) ↦ (id, r.openPart) }

/-- An oracle that is asked about the snapshot without private members. -/
def Oracle.openPart (o : Oracle) : Oracle :=
  { o with snapshot := o.snapshot.openPart }

/-- A type is looked up in the open part of a snapshot as the open part of what it was. -/
theorem Snapshot.type?_openPart (s : Snapshot) (id : TypeId) :
    s.openPart.type? id = (s.type? id).map TypeRecord.openPart := by
  unfold type? openPart
  induction s.types with
  | nil => rfl
  | cons entry entries ih =>
    obtain ⟨key, r⟩ := entry
    rw [List.map_cons, List.lookup_cons, List.lookup_cons, ih]
    cases id == key <;> rfl

namespace Oracle

variable (o : Oracle) {α : Type}

/-- A question about a type, asked without private members. -/
theorem ofType_openPart (q : Query) (t : TypeId) (f : TypeRecord → α) :
    o.openPart.ofType q t f = o.ofType q t (f ∘ TypeRecord.openPart) := by
  have htype : o.openPart.snapshot.type? t = (o.snapshot.type? t).map TypeRecord.openPart :=
    o.snapshot.type?_openPart t
  unfold ofType
  rw [htype]
  cases o.snapshot.type? t <;> rfl

/-- A question whose answer does not depend on members is answered the same. -/
theorem ofType_openPart_of_eq (q : Query) (t : TypeId) {f : TypeRecord → α}
    (hf : ∀ r : TypeRecord, f r.openPart = f r) : o.openPart.ofType q t f = o.ofType q t f := by
  rw [ofType_openPart, Function.comp_def, funext hf]

/-- Asked for the members of a type, the oracle answers those that are not private. -/
theorem properties_openPart (t : TypeId) :
    o.openPart.properties t = List.filter Member.isPublic <$> o.properties t := by
  have hmembers : ∀ r : TypeRecord, r.openPart.properties.map PropertyRecord.member =
      (r.properties.map PropertyRecord.member).filter Member.isPublic := by
    intro r
    rw [List.filter_map]
    rfl
  rw [properties, ofType_openPart, properties, Function.comp_def]
  simp only [hmembers]
  unfold ofType
  by_cases hbroken : o.broken = some .properties
  · rw [if_pos hbroken, if_pos hbroken]
    rfl
  · rw [if_neg hbroken, if_neg hbroken]
    cases o.snapshot.type? t <;> rfl

end Oracle

end Graph

namespace Build

open TypeLens.Graph

/-! ### One type -/

section

variable (o : Oracle) (opts : Options) (child : TypeId → Int → Asked Tree) (t : TypeId)
  (name : String) (depth : Int)

/-- Members of a union are sorted alike in the open part, since types keep their ranks. -/
theorem sortMembers_openPart (members : List TypeId) :
    sortMembers o.openPart members = sortMembers o members := by
  have hrank : rank o.openPart = rank o := by
    funext t
    simp only [rank, Oracle.isPrimitive, Oracle.typeName]
    rw [o.ofType_openPart_of_eq _ _ fun _ ↦ rfl, o.ofType_openPart_of_eq _ _ fun _ ↦ rfl]
  rw [sortMembers, sortMembers, hrank]

/-- **The step.** An object shows the same entries, whether private members are left out of it or
are not there at all. -/
theorem object_openPart :
    object o.openPart { opts with hidePrivate := false } child t name depth =
      object o { opts with hidePrivate := true } child t name depth := by
  have hindex : o.openPart.indexSignatures t = o.indexSignatures t :=
    o.ofType_openPart_of_eq _ _ fun _ ↦ rfl
  simp only [object, o.properties_openPart, hindex, bind_map_left, if_true, Bool.false_eq_true,
    if_false]
  rfl

/-- A type is expanded in the same form. What is asked to find the form does not depend on
members. -/
theorem node_openPart :
    node o.openPart { opts with hidePrivate := false } child t name depth =
      node o { opts with hidePrivate := true } child t name depth := by
  simp only [node, enumForm, unionForm, intersectionForm, promiseForm, functionForm, arrayForm,
    tupleForm, genericForm, object_openPart, sortMembers_openPart, Oracle.enumMemberName,
    Oracle.unionMembers, Oracle.intersectionMembers, Oracle.isPromise, Oracle.callSignatures,
    Oracle.isArray, Oracle.isTuple, Oracle.isReadonly, Oracle.typeArguments, Oracle.genericTarget,
    Oracle.isObject, Oracle.ofType_openPart]
  rfl

theorem leafOr_openPart (way : List TypeId) (expand : String → Asked Tree) :
    leafOr o.openPart { opts with hidePrivate := false } t depth way expand =
      leafOr o { opts with hidePrivate := true } t depth way expand := by
  simp only [leafOr, Oracle.typeName, Oracle.isPrimitive, Oracle.ofType_openPart]
  rfl

end

/-! ### The whole tree -/

/-- As many types remain. -/
theorem remaining_openPart (s : Snapshot) (way : List TypeId) :
    remaining s.openPart way = remaining s way := by
  unfold remaining Snapshot.openPart
  rw [List.filter_map, List.length_map]
  rfl

/-- **The run.** The recursion makes the same calls at every level. -/
theorem treeWithin_openPart (o : Oracle) (opts : Options) (levels : Nat) (t : TypeId) (depth : Int)
    (way : List TypeId) :
    treeWithin o.openPart { opts with hidePrivate := false } levels t depth way =
      treeWithin o { opts with hidePrivate := true } levels t depth way := by
  induction levels generalizing t depth way with
  | zero =>
    rw [treeWithin, treeWithin, leafOr_openPart]
    rfl
  | succ levels ih =>
    simp only [treeWithin, leafOr_openPart, node_openPart, ih]
    rfl

/-- **Private members leave no trace.** For every oracle, every type, depth, types on the way and
options: expanding with private members left out is, as a computation, expanding the graph that has
no private members, with nothing left out. Whatever the number of cancellation checks so far, both
answer the same tree with the same counts and display parts, or stop in the same way after the same
number of checks. -/
theorem tree_conceals (o : Oracle) (opts : Options) (t : TypeId) (depth : Int)
    (way : List TypeId) :
    tree o { opts with hidePrivate := true } t depth way =
      tree o.openPart { opts with hidePrivate := false } t depth way := by
  have hlevels : remaining o.openPart.snapshot way = remaining o.snapshot way :=
    remaining_openPart o.snapshot way
  rw [tree, tree, hlevels, treeWithin_openPart]

end Build

end TypeLens
