import TypeLens.Build

/-!
# The form of a type

A type is expanded in one of eleven forms. Which one depends on the record of the type and on the
policies of the options, and on nothing else: not on the caps, the depth or the types on the way
(`Form.ofRecord_congr`). `Form.ofRecord` reads the form off the record, and `Form.tree` is the tree
of a form, given the trees of the types below it. The caps and the depth enter only there.

The expansion itself finds the form by asking one question after the other; that it arrives at the
same form and the same tree is the subject of `TypeLens.Proofs.Build.Node`.
-/

namespace TypeLens

/-! ### Policies and caps -/

namespace Options

/-- Options that agree in everything an expansion takes from them but the caps. -/
structure SamePolicies (a b : Options) : Prop where
  hidePrivate : a.hidePrivate = b.hidePrivate
  skippedNames : a.skippedNames = b.skippedNames
  unwrapArrays : a.unwrapArrays = b.unwrapArrays
  unwrapFunctions : a.unwrapFunctions = b.unwrapFunctions
  unwrappedGenerics : a.unwrappedGenerics = b.unwrappedGenerics
  displayParts : a.displayParts = b.displayParts

/-- No cap of the first options is above that of the second. -/
structure CapsLE (a b : Options) : Prop where
  maxDepth : a.maxDepth ≤ b.maxDepth
  maxProperties : a.maxProperties ≤ b.maxProperties
  maxSubProperties : a.maxSubProperties ≤ b.maxSubProperties
  maxUnionMembers : a.maxUnionMembers ≤ b.maxUnionMembers
  maxSignatures : a.maxSignatures ≤ b.maxSignatures

end Options

/-! ### What a record offers to an expansion -/

namespace Graph

/-- An index signature as a property. -/
def IndexSignature.property (s : IndexSignature) : Property TypeId :=
  ⟨"[" ++ s.keyName ++ ": " ++ s.keyType ++ "]", false, s.readonly, s.type⟩

/-- A member as a property. -/
def Member.property (m : Member) : Property TypeId :=
  ⟨m.name, m.isOptional, m.isReadonly, m.type⟩

namespace TypeRecord

variable (r : TypeRecord)

/-- The name of the generic type a type is an instance of, or nothing. -/
def targetName : String :=
  r.target.getD ""

/-- Whether a type is an instance of a generic type. -/
def isInstance : Bool :=
  r.targetName != "" && !r.typeArguments.isEmpty

/-- The first type argument, if there is one and it could be resolved. -/
def firstArgument : Option TypeId :=
  r.typeArguments.head?.getD none

/-- The call signatures with the declarations of their parameters. -/
def callables : List Callable :=
  r.callSignatures.map SignatureRecord.callable

/-- The members that are not left out as private. -/
def visibleMembers (hidePrivate : Bool) : List Member :=
  let all := r.properties.map PropertyRecord.member
  if hidePrivate then all.filter Member.isPublic else all

/-- The properties an object has to show: its index signatures, then its members. -/
def offered (hidePrivate : Bool) : List (Property TypeId) :=
  r.indexSignatures.map IndexSignature.property ++
    (r.visibleMembers hidePrivate).map Member.property

/-! All of this is among the references of the record. -/

variable {r}

theorem mem_references_of_members {t : TypeId} (h : t ∈ r.members) : t ∈ r.references := by
  simp [references, h]

theorem mem_references_of_typeArguments {t : TypeId} (h : some t ∈ r.typeArguments) :
    t ∈ r.references := by
  simp [references, h]

/-- The first type argument, on which arrays and promises go, is among the references. -/
theorem mem_references_of_firstArgument {t : TypeId} (h : r.firstArgument = some t) :
    t ∈ r.references := by
  refine mem_references_of_typeArguments ?_
  unfold firstArgument at h
  cases harguments : r.typeArguments with
  | nil => simp [harguments] at h
  | cons x xs =>
    obtain rfl : x = some t := by simpa [harguments] using h
    exact List.mem_cons_self

/-- The type of every property that is offered is among the references, whether the property is a
member or an index signature. -/
theorem mem_references_of_offered {hidePrivate : Bool} {p : Property TypeId}
    (h : p ∈ r.offered hidePrivate) : p.type ∈ r.references := by
  rcases List.mem_append.1 h with hindex | hmember
  · obtain ⟨s, hs, rfl⟩ := List.mem_map.1 hindex
    have : s.type ∈ r.indexSignatures.map IndexSignature.type := List.mem_map_of_mem hs
    simp [references, IndexSignature.property, this]
  · obtain ⟨m, hm, rfl⟩ := List.mem_map.1 hmember
    have hall : m ∈ r.properties.map PropertyRecord.member := by
      unfold visibleMembers at hm
      cases hidePrivate with
      | true => exact (List.mem_filter.1 hm).1
      | false => exact hm
    obtain ⟨q, hq, rfl⟩ := List.mem_map.1 hall
    have htype : q.member.property.type = q.type := by
      unfold PropertyRecord.member
      split <;> rfl
    have : q.type ∈ r.properties.map PropertyRecord.type := List.mem_map_of_mem hq
    simp [references, htype, this]

/-- No more properties are offered than the record has. -/
theorem length_offered_le (hidePrivate : Bool) :
    (r.offered hidePrivate).length ≤ r.properties.length + r.indexSignatures.length := by
  have hvisible : (r.visibleMembers hidePrivate).length ≤ r.properties.length := by
    have hall : (r.properties.map PropertyRecord.member).length = r.properties.length :=
      List.length_map _
    unfold visibleMembers
    split
    · exact hall ▸ List.length_filter_le _ _
    · exact hall ▸ Nat.le_refl _
  rw [offered, List.length_append, List.length_map, List.length_map]
  omega

/-- The types of a signature are among the references of its record, whether it is a call or a
construct signature. -/
theorem mem_references_of_signature {s : SignatureRecord}
    (hs : s ∈ r.callSignatures ++ r.constructSignatures) :
    (∀ t, s.callable.result = some t → t ∈ r.references) ∧
      ∀ a ∈ s.callable.parameters, a.type ∈ r.references := by
  have hsub : ∀ t ∈ signatureReferences s, t ∈ r.references := fun t ht ↦
    List.mem_append_right _ (List.mem_flatMap.2 ⟨s, hs, ht⟩)
  constructor
  · intro t ht
    have hresult : s.returnType = some t := ht
    exact hsub t (by simp [signatureReferences, hresult])
  · intro a ha
    have hmem : a ∈ s.parameters.map ParameterRecord.argument := ha
    obtain ⟨q, hq, rfl⟩ := List.mem_map.1 hmem
    have htype : q.type ∈ s.parameters.map ParameterRecord.type := List.mem_map_of_mem hq
    exact hsub _ (List.mem_append_right _ htype)

theorem mem_references_of_callables {c : Callable} (h : c ∈ r.callables) :
    (∀ t, c.result = some t → t ∈ r.references) ∧ ∀ a ∈ c.parameters, a.type ∈ r.references := by
  obtain ⟨s, hs, rfl⟩ := List.mem_map.1 h
  exact mem_references_of_signature (List.mem_append_left _ hs)

end TypeRecord

/-- The rank of a type among the members of a union. -/
def Snapshot.rank (s : Snapshot) (t : TypeId) : Nat :=
  match s.type? t with
  | some r => if r.category = .primitive then Build.primitiveRank r.name else Build.middleRank
  | none => Build.middleRank

/-- The members of a union in the order they are shown. -/
def Snapshot.sortByRank (s : Snapshot) (members : List TypeId) : List TypeId :=
  ((members.map fun t ↦ (s.rank t, t)).mergeSort fun a b ↦ a.1 ≤ b.1).map Prod.snd

end Graph

namespace Build

open TypeLens.Graph

/-! ### Forms -/

/-- The forms a type can be expanded in. -/
inductive Form where
  | enumMember
  | union
  | intersection
  | promise
  | function
  | array
  | tuple
  /-- An instance of a generic type that is not expanded. -/
  | suppressed
  /-- An instance of a generic type that shows its arguments. -/
  | generic
  | object
  /-- A type of which only the name is shown. -/
  | bare
deriving Repr, DecidableEq

namespace Form

/-- Whether a type can be expanded in a form, when no form before it is possible. -/
def fits (opts : Options) (r : TypeRecord) : Form → Bool
  | enumMember => r.enumMemberName?.any (· != "")
  | union => r.category == .union && !r.members.isEmpty
  | intersection => r.category == .intersection && !r.members.isEmpty
  | promise => r.category == .promise
  | function => !r.callSignatures.isEmpty
  | array => r.category == .array
  | tuple => r.category == .tuple
  | suppressed => r.isInstance && opts.skippedNames.contains r.targetName
  | generic =>
    r.isInstance && (opts.unwrappedGenerics.contains r.targetName || r.category != .object)
  | object => r.category == .object
  | bare => true

/-- The forms that are tried first, in order. -/
def structural : List Form :=
  [enumMember, union, intersection, promise, function, array, tuple]

/-- The forms that are tried last, in order. -/
def nominal : List Form :=
  [suppressed, generic, object]

/-- The form a type is expanded in. -/
def ofRecord (opts : Options) (r : TypeRecord) : Form :=
  ((structural ++ nominal).find? (fits opts r)).getD .bare

/-- The form a type is expanded in fits it. -/
theorem fits_ofRecord (opts : Options) (r : TypeRecord) : (ofRecord opts r).fits opts r = true := by
  rw [ofRecord]
  rcases hF : (structural ++ nominal).find? (fits opts r) with - | F
  · rfl
  · exact List.find?_some hF

/-- The caps do not decide on the form. -/
theorem ofRecord_congr {a b : Options} (h : a.SamePolicies b) (r : TypeRecord) :
    ofRecord a r = ofRecord b r := by
  have hfits : fits a r = fits b r := by
    funext F
    cases F <;> simp only [fits, h.skippedNames, h.unwrappedGenerics]
  rw [ofRecord, ofRecord, hfits]

end Form

/-! ### Trees of forms -/

section

variable (child : TypeId → Int → Tree)

/-- The tree of a type argument. -/
def argumentTree (unresolved : String) (depth : Int) : Option TypeId → Tree
  | some t => child t depth
  | none => .basic (named unresolved)

/-- A parameter with its tree. -/
def parameterTree (depth : Int) (a : Argument) : Parameter Tree :=
  ⟨a.name, a.isOptional, a.isRest, child a.type depth⟩

/-- A signature with its trees. -/
def signatureTree (depth : Int) (s : Callable) : Signature Tree :=
  ⟨argumentTree child "void" depth s.result, s.parameters.map (parameterTree child depth)⟩

/-- A property with its tree. -/
def propertyTree (depth : Int) (p : Property TypeId) : Property Tree :=
  ⟨p.name, p.optional, p.readonly, child p.type (depth + 1)⟩

/-- The depth of what is below a function or an array: the depth of the type itself, unless the
policy is to show no more than names there. -/
def depthBelow (opts : Options) (unwrap : Bool) (depth : Int) : Int :=
  if unwrap then depth else opts.maxDepth

/-- The tree of a type in a form. -/
def Form.tree (s : Snapshot) (opts : Options) (r : TypeRecord) (depth : Int) : Form → Tree
  | enumMember => .enumMember (named r.name) (r.enumMemberName?.getD "")
  | union =>
    .union (named r.name) ((s.sortByRank (r.members.take opts.maxUnionMembers)).map (child · depth))
      (r.members.length - opts.maxUnionMembers : Nat)
  | intersection => .intersection (named r.name) (r.members.map (child · depth))
  | promise => .promise (named r.name) (argumentTree child "void" depth r.firstArgument)
  | function =>
    .function (named r.name)
      ((r.callables.take opts.maxSignatures).map
        (signatureTree child (depthBelow opts opts.unwrapFunctions depth)))
      (r.callables.length - opts.maxSignatures : Nat)
  | array =>
    .array (named r.name) r.readonly
      (argumentTree child "any" (depthBelow opts opts.unwrapArrays depth) r.firstArgument)
  | tuple =>
    .tuple (named r.name) r.readonly (r.typeArguments.map (argumentTree child "unknown" depth))
  | suppressed => .reference (named (r.targetName ++ "<...>"))
  | generic =>
    .generic (named r.targetName) (r.typeArguments.map (argumentTree child "unknown" depth))
  | object =>
    .object (named r.name)
      (((r.offered opts.hidePrivate).take (entryLimit opts depth)).map (propertyTree child depth))
      ((r.offered opts.hidePrivate).length - entryLimit opts depth : Nat)
  | bare => .basic (named r.name)

end

/-! Two drawings of the types below, under two options. Whatever relates the drawings at the depth
of a type and at the greatest depth relates what a form draws of them. -/

section

variable {R : Tree → Tree → Prop} {f g : TypeId → Int → Tree} {a b : Options} {depth : Int}

/-- Children that are related at a depth and at the greatest depth are related at the depth below
it, whichever of the two that is. -/
theorem rel_depthBelow (hsame : ∀ t, R (f t depth) (g t depth))
    (hlast : ∀ t, R (f t a.maxDepth) (g t b.maxDepth)) (unwrap : Bool) (t : TypeId) :
    R (f t (depthBelow a unwrap depth)) (g t (depthBelow b unwrap depth)) := by
  cases unwrap with
  | true => exact hsame t
  | false => exact hlast t

/-- The trees of an argument are related if the children are, and if leaves are related to
themselves. -/
theorem rel_argumentTree {da db : Int} (h : ∀ t, R (f t da) (g t db))
    (hleaf : ∀ l, R (.basic l) (.basic l)) (unresolved : String) (x : Option TypeId) :
    R (argumentTree f unresolved da x) (argumentTree g unresolved db x) := by
  cases x with
  | some t => exact h t
  | none => exact hleaf _

end

end Build

end TypeLens
