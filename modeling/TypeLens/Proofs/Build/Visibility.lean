import TypeLens.Proofs.Build.Bounds

/-!
# Visible members

Options may ask that private members are left out. A member is private by its name, or because it is
declared and every declaration carries `private` or `protected` (`Member.Withheld`). Its name alone
hides a member. Its declarations do so only where they are of certain kinds (`Member.hidingKinds`):
`Member.isPublic_iff` says exactly which members stay visible, and among them are withheld ones with
a declaration of another kind, such as an accessor.

The entries of an object anywhere in a tree are drawn from one type of the snapshot: its first index
signatures, then its first visible members (`drawn_expansion`). So what is said of the visible
members of a type is said of the whole tree.
-/

namespace TypeLens

/-! ### Members -/

namespace Graph.Member

/-- The declarations of a member. -/
def sites (m : Member) : List DeclarationSite :=
  m.declarations.getD []

/-- A member is declared, and every declaration is private or protected. -/
def Withheld (m : Member) : Prop :=
  m.sites ≠ [] ∧ ∀ d ∈ m.sites, "private" ∈ d.modifiers ∨ "protected" ∈ d.modifiers

instance (m : Member) : Decidable m.Withheld :=
  inferInstanceAs (Decidable (_ ∧ _))

theorem hasPrivateName_iff (m : Member) : m.hasPrivateName = true ↔
    m.name.toList.head? = some '_' ∨ m.name.toList.head? = some '#' := by
  unfold hasPrivateName
  split <;> simp_all

theorem hides_iff (d : DeclarationSite) : hides d = true ↔
    ("private" ∈ d.modifiers ∨ "protected" ∈ d.modifiers) ∧ d.kind ∈ hidingKinds := by
  simp [hides, and_comm]

/-- A member is hidden by its name, or by all its declarations if there are any. -/
theorem isPublic_eq (m : Member) :
    m.isPublic = !(m.hasPrivateName || (!m.sites.isEmpty && m.sites.all hides)) := by
  unfold isPublic sites
  rcases m.hasPrivateName with - | -
  · rcases m.declarations with - | - | ⟨d, ds⟩ <;> rfl
  · rfl

/-- **The members that are left out**: those with a private name, and those that are withheld and
only have declarations of the kinds that hide. -/
theorem isPublic_eq_false_iff (m : Member) : m.isPublic = false ↔
    (m.name.toList.head? = some '_' ∨ m.name.toList.head? = some '#') ∨
      m.Withheld ∧ ∀ d ∈ m.sites, d.kind ∈ hidingKinds := by
  have hdeclared : (!m.sites.isEmpty && m.sites.all hides) = true ↔
      m.Withheld ∧ ∀ d ∈ m.sites, d.kind ∈ hidingKinds := by
    simp only [Bool.and_eq_true, Bool.not_eq_true', List.isEmpty_eq_false_iff, List.all_eq_true,
      hides_iff, forall_and, Withheld, and_assoc]
  rw [isPublic_eq, Bool.not_eq_false', Bool.or_eq_true, hasPrivateName_iff, hdeclared]

end Graph.Member

namespace Build

open TypeLens.Graph TypeLens.Tree

/-! ### Entries -/

/-- The entries of an object are drawn from a record: the first index signatures, then the first
visible members. The others are counted. -/
structure DrawnFrom (r : TypeRecord) (hidePrivate : Bool)
    (draw : Property TypeId → Property Tree) (ps : List (Property Tree)) (e : Int) : Prop where
  entries : ∃ xs ms, xs <+: r.indexSignatures ∧ ms <+: r.visibleMembers hidePrivate ∧
    ps = (xs.map IndexSignature.property ++ ms.map Member.property).map draw
  count : ps.length + e = r.indexSignatures.length + (r.visibleMembers hidePrivate).length

/-- The entries up to a limit are drawn from the record. -/
theorem drawnFrom_take (r : TypeRecord) (hidePrivate : Bool)
    (draw : Property TypeId → Property Tree) (n : Nat) :
    DrawnFrom r hidePrivate draw (((r.offered hidePrivate).take n).map draw)
      ((r.offered hidePrivate).length - n : Nat) where
  entries := by
    refine ⟨r.indexSignatures.take n,
      (r.visibleMembers hidePrivate).take (n - r.indexSignatures.length), List.take_prefix _ _,
      List.take_prefix _ _, ?_⟩
    rw [TypeRecord.offered, List.take_append, List.map_take, List.map_take, List.length_map]
  count := by
    have hlength : (r.offered hidePrivate).length =
        r.indexSignatures.length + (r.visibleMembers hidePrivate).length := by
      rw [TypeRecord.offered, List.length_append, List.length_map, List.length_map]
    rw [List.length_map, List.length_take]
    omega

/-- An object is drawn from a type of the snapshot, over the expansions below it. -/
def Drawn (s : Snapshot) (opts : Options) : Tree → Prop
  | .object _ ps e => ∃ t r depth way, s.type? t = some r ∧
      DrawnFrom r opts.hidePrivate
        (propertyTree (fun t' depth' ↦ expansion s opts t' depth' (t :: way)) depth) ps e
  | _ => True

/-- **Every object of an expansion is drawn from a type of the snapshot.** -/
theorem drawn_expansion (s : Snapshot) (opts : Options) (t : TypeId) (depth : Int)
    (way : List TypeId) : (expansion s opts t depth way).Everywhere (Drawn s opts) := by
  refine everywhere_expansion s opts ?_ ?_ t depth way
  · intro T hT
    cases T with
    | object => cases hT
    | _ => trivial
  · intro t r depth way l hr
    cases Form.ofRecord opts r with
    | object => exact ⟨t, r, depth, way, hr, drawnFrom_take ..⟩
    | _ => trivial

/-- **Private members are left out**, as far as their declarations can hide them. For a type of a
snapshot that was read, at any depth, below any types and under any schedule of cancellation: when
private members are to be left out, every object of the tree is drawn from a type of the snapshot,
by its index signatures and its visible members and nothing else. The visible members are those that
neither have a private name, nor are withheld by declarations that are all of the kinds that
hide. -/
theorem tree_hides_private {bytes : ByteArray} {o : Oracle}
    (hparse : Snapshot.parse bytes = .ok o.snapshot) (hb : o.broken = none) {opts : Options}
    (hopts : opts.hidePrivate = true) {t : TypeId} {depth : Int} {way : List TypeId} {k k' : Nat}
    {T : Tree} (hrun : (tree o opts t depth way).run.run k = (.ok T, k')) {above : List Tree}
    {l : Label} {ps : List (Property Tree)} {e : Int} (hu : Descent T above (.object l ps e)) :
    ∃ u r depth' way', o.snapshot.type? u = some r ∧
      DrawnFrom r true
        (propertyTree (fun t' d ↦ expansion o.snapshot opts t' d (u :: way')) depth') ps e ∧
      ∀ m, m ∈ r.visibleMembers true ↔ m ∈ r.properties.map PropertyRecord.member ∧
        ¬((m.name.toList.head? = some '_' ∨ m.name.toList.head? = some '#') ∨
          m.Withheld ∧ ∀ d ∈ m.sites, d.kind ∈ Member.hidingKinds) := by
  obtain ⟨-, rfl⟩ := eq_expansion_of_run hb (Snapshot.closed_of_parse hparse) hrun
  obtain ⟨u, r, depth', way', hr, hdrawn⟩ := drawn_expansion _ _ _ _ _ _ _ hu
  rw [hopts] at hdrawn
  refine ⟨u, r, depth', way', hr, hdrawn, fun m ↦ ?_⟩
  rw [TypeRecord.visibleMembers, if_pos rfl, List.mem_filter, ← Member.isPublic_eq_false_iff,
    Bool.not_eq_false]

/-! ### A sample

A vault with a private name, a private property, a private accessor and an open property. -/

/-- The members of the sample. -/
def vaultMembers : List PropertyRecord :=
  [{ name := "_id", type := "text" },
    { name := "code", type := "text", modifiers := ["private"],
      declarationKind := "PropertyDeclaration" },
    { name := "key", type := "text", modifiers := ["private"], declarationKind := "GetAccessor" },
    { name := "owner", type := "text" }]

/-- The type of the sample. -/
def vaultRecord : TypeRecord :=
  { name := "Vault", category := .object, properties := vaultMembers }

/-- The types of the sample. -/
def vaultTypes : List (TypeId × TypeRecord) :=
  [("vault", vaultRecord), ("text", { name := "string", category := .primitive })]

/-- The lines of the sample as a file. -/
def vaultLines : List String :=
  ["\x7b\"types\": \x7b", "\"vault\": \x7b\"name\": \"Vault\",", "\"category\": \"object\",",
    "\"properties\": [", "\x7b\"name\": \"_id\", \"type\": \"text\"\x7d,",
    "\x7b\"name\": \"code\", \"type\": \"text\",", "\"modifiers\": [\"private\"],",
    "\"declarationKind\":", "\"PropertyDeclaration\"\x7d,",
    "\x7b\"name\": \"key\", \"type\": \"text\",", "\"modifiers\": [\"private\"],",
    "\"declarationKind\": \"GetAccessor\"\x7d,", "\x7b\"name\": \"owner\",",
    "\"type\": \"text\"\x7d]\x7d,", "\"text\": \x7b\"name\": \"string\",",
    "\"category\": \"primitive\"\x7d\x7d\x7d"]

/-- The sample as a file. -/
def vaultText : String :=
  .ofList (vaultLines.flatMap fun line ↦ line.toList ++ ['\n'])

/-- The tree of the sample, when private members are to be left out. -/
def vaultTree : Tree :=
  .object (named "Vault")
    [⟨"key", false, false, .primitive (named "string")⟩,
      ⟨"owner", false, false, .primitive (named "string")⟩] 0

theorem exists_parse_vaultText : ∃ s, Snapshot.parse vaultText.toUTF8 = .ok s ∧
    s.types = vaultTypes := by
  obtain ⟨s, hs, htest⟩ : ∃ s, Snapshot.parse vaultText.toUTF8 = .ok s ∧
      (s.types == vaultTypes) = true := Snapshot.exists_of_parse_toUTF8 (by decide +kernel)
  exact ⟨s, hs, eq_of_beq htest⟩

/-- Of the private members the accessor is shown. -/
theorem expansion_vault {s : Snapshot} (htypes : s.types = vaultTypes) :
    expansion s {} "vault" 0 [] = vaultTree := by
  have hvault : s.type? "vault" = some vaultRecord := by
    rw [Snapshot.type?, htypes]
    rfl
  have htext : s.type? "text" = some { name := "string", category := .primitive } := by
    rw [Snapshot.type?, htypes]
    rfl
  have hleaf : expansion s {} "text" 1 ["vault"] = .primitive (named "string") :=
    expansion_of_leaf htext rfl
  have hform : Form.ofRecord {} vaultRecord = .object := by decide
  have hoffered : vaultRecord.offered true =
      [⟨"key", false, false, "text"⟩, ⟨"owner", false, false, "text"⟩] := by decide
  rw [expansion_of_form hvault rfl, decorate_of_displayParts_eq_false rfl, hform, Form.tree,
    hoffered]
  simp [entryLimit, propertyTree, hleaf, vaultTree, vaultRecord]

/-- The sample is expanded. -/
theorem exists_run_vault {s : Snapshot} (hparse : Snapshot.parse vaultText.toUTF8 = .ok s)
    (htypes : s.types = vaultTypes) :
    ∃ k', (tree ⟨s, "/", none, none⟩ {} "vault" 0 []).run.run 0 = (.ok vaultTree, k') := by
  have hsome : (s.type? "vault").isSome := by
    rw [Snapshot.type?, htypes]
    rfl
  rw [tree_eq_after rfl (Snapshot.closed_of_parse hparse) hsome, expansion_vault htypes]
  exact ⟨_, Oracle.run_after rfl rfl _ _ _⟩

/-- The tree of the sample shows two of its four members. -/
theorem tree_hides_private_sample : ∃ s k', Snapshot.parse vaultText.toUTF8 = .ok s ∧
    (tree ⟨s, "/", none, none⟩ {} "vault" 0 []).run.run 0 = (.ok vaultTree, k') ∧
    ∃ u r depth way ps, vaultTree = .object (named "Vault") ps 0 ∧ s.type? u = some r ∧
      DrawnFrom r true (propertyTree (fun t d ↦ expansion s {} t d (u :: way)) depth) ps 0 ∧
      ∀ m, m ∈ r.visibleMembers true ↔ m ∈ r.properties.map PropertyRecord.member ∧
        ¬((m.name.toList.head? = some '_' ∨ m.name.toList.head? = some '#') ∨
          m.Withheld ∧ ∀ d ∈ m.sites, d.kind ∈ Member.hidingKinds) := by
  obtain ⟨s, hparse, htypes⟩ := exists_parse_vaultText
  obtain ⟨k', hrun⟩ := exists_run_vault hparse htypes
  obtain ⟨u, r, depth, way, hr, hdrawn, hvisible⟩ := tree_hides_private
    (o := ⟨s, "/", none, none⟩) hparse rfl rfl hrun (.here vaultTree)
  exact ⟨s, k', hparse, hrun, u, r, depth, way, _, rfl, hr, hdrawn, hvisible⟩

/-- **A private accessor is shown**, although private members are to be left out: its only
declaration is private, but of no kind that hides. -/
theorem private_accessor_shown : ∃ s k' m, Snapshot.parse vaultText.toUTF8 = .ok s ∧
    s.type? "vault" = some vaultRecord ∧
    m ∈ vaultRecord.properties.map PropertyRecord.member ∧ m.name = "key" ∧ m.Withheld ∧
    ({} : Options).hidePrivate = true ∧
    (tree ⟨s, "/", none, none⟩ {} "vault" 0 []).run.run 0 =
      (.ok (.object (named "Vault")
        [⟨"key", false, false, .primitive (named "string")⟩,
          ⟨"owner", false, false, .primitive (named "string")⟩] 0), k') := by
  obtain ⟨s, hparse, htypes⟩ := exists_parse_vaultText
  obtain ⟨k', hrun⟩ := exists_run_vault hparse htypes
  refine ⟨s, k', ⟨"key", "text", some [⟨"GetAccessor", ["private"], false, false⟩]⟩, hparse, ?_,
    by decide, rfl, by decide, rfl, hrun⟩
  rw [Snapshot.type?, htypes]
  rfl

end Build

end TypeLens
