import Mathlib.Data.List.Nodup
import Mathlib.Data.List.Perm.Subperm
import Mathlib.Logic.Relation
import TypeLens.Graph.Oracle
import TypeLens.Proofs.Graph.Closed

/-!
# Aliases

A symbol may be an alias of another one, which may be an alias again, and the links may lead in a
circle. An alias is resolved by a walk along its links that ends where the next link would lead to a
symbol it has passed, or where there is no link (`Walk`, `LinksInto`).

A walk passes no symbol twice, so it has at most one step for each symbol (`Walk.length_le`). **The
budget of the search is never used up**: with any budget that is large enough it finds the end of a
walk (`exists_walk_of_closed`).

Where no symbol on the way can be reached from itself, a walk ends at a symbol that is no alias
(`Walk.proper`), and only there (`acyclicFrom_of_proper`). A symbol is an alias of one other at
most, so there is no other such symbol to be reached, and all symbols on the way resolve to it
(`aliasedSymbol_canonical`).
-/

namespace TypeLens.Graph

open Relation

namespace Snapshot

/-! ### Links -/

/-- A symbol is an alias of another one. -/
def AliasOf (s : Snapshot) (a b : SymbolId) : Prop :=
  ∃ r, s.symbol? a = some r ∧ r.aliasOf = some b

/-- A symbol that is no alias. -/
def Proper (s : Snapshot) (a : SymbolId) : Prop :=
  ∀ next, ¬s.AliasOf a next

/-- No symbol that can be reached from a symbol can be reached from itself by a link. -/
def AcyclicFrom (s : Snapshot) (id : SymbolId) : Prop :=
  ∀ a, ReflTransGen s.AliasOf id a → ¬TransGen s.AliasOf a a

section

variable {s : Snapshot} {id a b c : SymbolId}

/-- A symbol is an alias of one symbol only. -/
theorem AliasOf.unique (hb : s.AliasOf a b) (hc : s.AliasOf a c) : b = c := by
  obtain ⟨r, hr, hlink⟩ := hb
  obtain ⟨r', hr', hlink'⟩ := hc
  obtain rfl := Option.some.inj (hr.symm.trans hr')
  exact Option.some.inj (hlink.symm.trans hlink')

theorem Closed.isSome_of_aliasOf (h : s.Closed) (hlink : s.AliasOf a b) : (s.symbol? b).isSome := by
  obtain ⟨r, hr, hb⟩ := hlink
  exact h.aliasOf hr b hb

/-- In a closed snapshot no chain of aliases leads to a missing symbol. -/
theorem Closed.isSome_of_reflTransGen (h : s.Closed) (ha : (s.symbol? a).isSome)
    (hreach : ReflTransGen s.AliasOf a b) : (s.symbol? b).isSome := by
  induction hreach with
  | refl => exact ha
  | tail _ hlink _ => exact h.isSome_of_aliasOf hlink

/-- From a symbol that is no alias only the symbol itself is reached. -/
theorem Proper.eq_of_reflTransGen (h : s.Proper a) (hreach : ReflTransGen s.AliasOf a b) :
    a = b := by
  rcases hreach.cases_head with rfl | ⟨next, hlink, -⟩
  · rfl
  · exact absurd hlink (h next)

/-- A symbol that is no alias is reached from everything on the way to it, and there is nothing
behind it. -/
theorem Proper.reached (h : s.Proper b) (hb : ReflTransGen s.AliasOf id b)
    (ha : ReflTransGen s.AliasOf id a) : ReflTransGen s.AliasOf a b := by
  have hunique : Relator.RightUnique s.AliasOf := fun _ _ _ ↦ AliasOf.unique
  rcases ReflTransGen.total_of_right_unique hunique ha hb with hbefore | hbehind
  · exact hbefore
  · rw [h.eq_of_reflTransGen hbehind]

/-- There are no circles on the way to a symbol that is no alias. -/
theorem acyclicFrom_of_proper (hproper : s.Proper b) (hb : ReflTransGen s.AliasOf id b) :
    s.AcyclicFrom id := by
  intro a ha
  -- A circle through a symbol goes through the next one too, and so on until the last.
  induction hproper.reached hb ha using ReflTransGen.head_induction_on with
  | refl =>
    intro hcircle
    obtain ⟨next, hlink, -⟩ := TransGen.head'_iff.1 hcircle
    exact hproper next hlink
  | @head a next hlink _ ih =>
    intro hcircle
    obtain ⟨next', hlink', hback⟩ := TransGen.head'_iff.1 hcircle
    obtain rfl := hlink.unique hlink'
    exact ih (ha.tail hlink) (.tail' hback hlink)

end

/-! ### Walks -/

/-- A walk along links from a symbol, with the symbols it has passed, the latest first, and the one
it has come to. -/
inductive Walk (s : Snapshot) (id : SymbolId) : List SymbolId → SymbolId → Prop
  /-- A walk begins at its first symbol. -/
  | start : Walk s id [id] id
  /-- A walk goes on to a symbol it has not passed. -/
  | step {seen : List SymbolId} {a b : SymbolId} : Walk s id seen a → s.AliasOf a b → b ∉ seen →
      Walk s id (b :: seen) b

/-- A symbol that is no alias, or an alias of one that was passed. A walk that has come to it is at
its end. -/
def LinksInto (s : Snapshot) (seen : List SymbolId) (a : SymbolId) : Prop :=
  ∀ next, s.AliasOf a next → next ∈ seen

section

variable {s : Snapshot} {id a : SymbolId} {seen : List SymbolId}

theorem Walk.nodup (h : Walk s id seen a) : seen.Nodup := by
  induction h with
  | start => exact List.nodup_singleton id
  | step _ _ hnew ih => exact List.nodup_cons.2 ⟨hnew, ih⟩

/-- The symbols of a walk come one after the other. -/
theorem Walk.reaches (h : Walk s id seen a) :
    ∀ b ∈ seen, ReflTransGen s.AliasOf id b ∧ ReflTransGen s.AliasOf b a := by
  induction h with
  | start => simp [ReflTransGen.refl]
  | @step seen a b hwalk hlink _ ih =>
    have hfirst : ReflTransGen s.AliasOf id a := by
      cases hwalk with
      | start => exact .refl
      | step => exact (ih _ List.mem_cons_self).1
    exact List.forall_mem_cons.2 ⟨⟨hfirst.tail hlink, .refl⟩,
      fun c hc ↦ ⟨(ih c hc).1, (ih c hc).2.tail hlink⟩⟩

theorem Walk.mem (h : Walk s id seen a) : a ∈ seen := by
  cases h with
  | start => exact List.mem_singleton_self id
  | step => exact List.mem_cons_self

/-- A walk has at most one step for each symbol. -/
theorem Walk.length_le (h : Walk s id seen a) (hclosed : s.Closed) (hid : (s.symbol? id).isSome) :
    seen.length ≤ s.symbols.length := by
  have hkeys : seen ⊆ s.symbols.map Prod.fst := by
    intro b hb
    have hsome := hclosed.isSome_of_reflTransGen hid (h.reaches b hb).1
    obtain ⟨entry, hentry, hkey⟩ := List.lookup_isSome_iff.1 hsome
    exact List.mem_map.2 ⟨entry, hentry, (eq_of_beq hkey).symm⟩
  simpa using (List.subperm_of_subset h.nodup hkeys).length_le

/-- A walk without circles ends at a symbol that is no alias: a link into what it has passed would
close a circle. -/
theorem Walk.proper (h : Walk s id seen a) (hend : s.LinksInto seen a)
    (hacyclic : s.AcyclicFrom id) : s.Proper a := by
  intro next hlink
  have hback : ReflTransGen s.AliasOf next a := (h.reaches next (hend next hlink)).2
  exact hacyclic a (h.reaches a h.mem).1 (.head' hlink hback)

end

end Snapshot

namespace Oracle

open Snapshot

variable {s : Snapshot} {id here : SymbolId} {seen : List SymbolId}

/-- **The search follows a walk to its end.** The more symbols it has seen, the less budget it
needs. -/
theorem exists_walk_of_closed (hclosed : s.Closed) (hid : (s.symbol? id).isSome)
    (hwalk : Walk s id seen here) {budget : Nat}
    (hbudget : s.symbols.length < seen.length + budget) :
    ∃ target passed, (∀ extra, aliasFrom s (budget + extra) seen here = .ok target) ∧
      Walk s id passed target ∧ s.LinksInto passed target := by
  -- A walk sees no symbol twice, so the budget lasts until it has seen all of them.
  induction budget generalizing seen here with
  | zero => exact absurd (hwalk.length_le hclosed hid) (Nat.not_le.2 hbudget)
  | succ budget ih =>
    obtain ⟨r, hr⟩ := Option.isSome_iff_exists.1
      (hclosed.isSome_of_reflTransGen hid (hwalk.reaches here hwalk.mem).1)
    rcases halias : r.aliasOf with - | next
    · refine ⟨here, seen, fun extra ↦ ?_, hwalk, ?_⟩
      · rw [aliasFrom, hr]
        simp only [halias]
      · rintro next ⟨r', hr', hnext⟩
        obtain rfl := Option.some.inj (hr.symm.trans hr')
        rw [halias] at hnext
        cases hnext
    · have hlink : s.AliasOf here next := ⟨r, hr, halias⟩
      by_cases hseen : next ∈ seen
      · refine ⟨here, seen, fun extra ↦ ?_, hwalk, fun other hother ↦ ?_⟩
        · rw [aliasFrom, hr]
          simp only [halias, if_pos hseen]
        · rwa [hother.unique hlink]
      · obtain ⟨target, passed, htarget, hends⟩ := ih (hwalk.step hlink hseen)
          (by rw [List.length_cons]; omega)
        refine ⟨target, passed, fun extra ↦ ?_, hends⟩
        rw [Nat.add_right_comm, aliasFrom, hr]
        simp only [halias, if_neg hseen]
        exact htarget extra

/-- The last symbol before a circle closes is the one that is found. -/
example : aliasFrom
    { symbols := [("x", { name := "x", type := "t", aliasOf := some "y" }),
        ("y", { name := "y", type := "t", aliasOf := some "z" }),
        ("z", { name := "z", type := "t", aliasOf := some "y" })] } 3 ["x"] "x" = .ok "z" := by
  decide

variable {o : Oracle}

/-- A symbol of a closed snapshot resolves to a symbol where a walk from it ends, with any larger
budget too. -/
theorem exists_aliasedSymbol (hclosed : o.snapshot.Closed)
    (hintact : o.broken ≠ some .aliasedSymbol) (hid : (o.snapshot.symbol? id).isSome) :
    ∃ target, o.aliasedSymbol id = pure target ∧ (o.snapshot.symbol? target).isSome ∧
      (∀ extra, aliasFrom o.snapshot (o.snapshot.symbols.length + extra) [id] id = .ok target) ∧
      ∃ passed, Walk o.snapshot id passed target ∧ o.snapshot.LinksInto passed target := by
  obtain ⟨target, passed, htarget, hwalk, hends⟩ := exists_walk_of_closed hclosed hid .start
    (show o.snapshot.symbols.length < [id].length + o.snapshot.symbols.length by simp)
  have hbudget : aliasFrom o.snapshot o.snapshot.symbols.length [id] id = .ok target := htarget 0
  refine ⟨target, by rw [aliasedSymbol, if_neg hintact, hbudget], ?_, htarget, passed, hwalk, hends⟩
  exact hclosed.isSome_of_reflTransGen hid (hwalk.reaches target hwalk.mem).1

/-- Without circles, a symbol resolves to whatever it leads to that is no alias. -/
theorem aliasedSymbol_of_proper (hclosed : o.snapshot.Closed)
    (hintact : o.broken ≠ some .aliasedSymbol) (hid : (o.snapshot.symbol? id).isSome)
    (hacyclic : o.snapshot.AcyclicFrom id) {a : SymbolId}
    (ha : ReflTransGen o.snapshot.AliasOf id a) (hproper : o.snapshot.Proper a) :
    o.aliasedSymbol id = pure a := by
  obtain ⟨target, hanswer, -, -, passed, hwalk, hends⟩ := exists_aliasedSymbol hclosed hintact hid
  have htarget : ReflTransGen o.snapshot.AliasOf target a :=
    hproper.reached ha (hwalk.reaches target hwalk.mem).1
  rw [hanswer, (hwalk.proper hends hacyclic).eq_of_reflTransGen htarget]

/-- **Aliases resolve, and without circles they have one meaning.** A symbol of a snapshot that was
read resolves to a symbol, at the end of a walk along the links, and no budget would be too large.
If nothing on the way can be reached from itself, that symbol is the only one on the way that is no
alias, and all of the way resolves to it, it itself too. -/
theorem aliasedSymbol_canonical {bytes : ByteArray}
    (hparse : Snapshot.parse bytes = .ok o.snapshot) (hintact : o.broken ≠ some .aliasedSymbol)
    (hid : (o.snapshot.symbol? id).isSome) :
    ∃ target, o.aliasedSymbol id = pure target ∧ (o.snapshot.symbol? target).isSome ∧
      (∀ extra, aliasFrom o.snapshot (o.snapshot.symbols.length + extra) [id] id = .ok target) ∧
      (∃ passed, Walk o.snapshot id passed target ∧ o.snapshot.LinksInto passed target) ∧
      (o.snapshot.AcyclicFrom id →
        (∀ a, ReflTransGen o.snapshot.AliasOf id a → (o.snapshot.Proper a ↔ a = target)) ∧
        (∀ a, ReflTransGen o.snapshot.AliasOf id a → o.aliasedSymbol a = pure target) ∧
        o.aliasedSymbol target = pure target) := by
  have hclosed := closed_of_parse hparse
  obtain ⟨target, hanswer, hsome, hbudget, passed, hwalk, hends⟩ :=
    exists_aliasedSymbol hclosed hintact hid
  have hreach : ReflTransGen o.snapshot.AliasOf id target := (hwalk.reaches target hwalk.mem).1
  refine ⟨target, hanswer, hsome, hbudget, ⟨passed, hwalk, hends⟩, fun hacyclic ↦ ?_⟩
  have hproper : o.snapshot.Proper target := hwalk.proper hends hacyclic
  have hresolves : ∀ a, ReflTransGen o.snapshot.AliasOf id a → o.aliasedSymbol a = pure target := by
    intro a ha
    exact aliasedSymbol_of_proper hclosed hintact (hclosed.isSome_of_reflTransGen hid ha)
      (fun b hb ↦ hacyclic b (ha.trans hb)) (hproper.reached hreach ha) hproper
  refine ⟨fun a ha ↦ ⟨fun hend ↦ ?_, ?_⟩, hresolves, hresolves target hreach⟩
  · exact hend.eq_of_reflTransGen (hproper.reached hreach ha)
  · rintro rfl
    exact hproper

/-! ### A sample -/

/-- The symbols of a sample: two aliases of `c`, one through the other, and an alias of itself. -/
def sampleSymbols : List (SymbolId × SymbolRecord) :=
  [("a", { name := "A", type := "t", aliasOf := some "b" }),
    ("b", { name := "B", type := "t", aliasOf := some "c" }),
    ("c", { name := "C", type := "t" }),
    ("self", { name := "S", type := "t", aliasOf := some "self" })]

/-- The lines of the sample as a file. -/
def aliasLines : List String :=
  ["\x7b\"types\": \x7b\"t\":", "\x7b\"name\": \"T\",", "\"category\": \"primitive\"\x7d\x7d,",
    "\"symbols\": \x7b", "\"a\": \x7b\"name\": \"A\",", "\"type\": \"t\", \"aliasOf\": \"b\"\x7d,",
    "\"b\": \x7b\"name\": \"B\",", "\"type\": \"t\", \"aliasOf\": \"c\"\x7d,",
    "\"c\": \x7b\"name\": \"C\",", "\"type\": \"t\"\x7d,",
    "\"self\": \x7b\"name\": \"S\",", "\"type\": \"t\", \"aliasOf\": \"self\"\x7d\x7d,",
    "\"documents\": \x7b\x7d\x7d"]

/-- The sample as a file. -/
def aliasText : String :=
  .ofList (aliasLines.flatMap fun line ↦ line.toList ++ ['\n'])

/-- The aliases of the sample resolve to the symbol at the end of the links. -/
theorem aliasedSymbol_canonical_sample : ∃ s, parse aliasText.toUTF8 = .ok s ∧
    s.AcyclicFrom "a" ∧ ¬s.AcyclicFrom "self" ∧
    (⟨s, "/", none, none⟩ : Oracle).aliasedSymbol "a" = pure "c" ∧
    (⟨s, "/", none, none⟩ : Oracle).aliasedSymbol "b" = pure "c" ∧
    (⟨s, "/", none, none⟩ : Oracle).aliasedSymbol "c" = pure "c" := by
  obtain ⟨s, hparse, htest⟩ : ∃ s, parse aliasText.toUTF8 = .ok s ∧
      (s.symbols == sampleSymbols) = true := exists_of_parse_toUTF8 (by decide +kernel)
  have hsymbols : s.symbols = sampleSymbols := eq_of_beq htest
  have hab : s.AliasOf "a" "b" := ⟨_, by rw [symbol?, hsymbols]; rfl, rfl⟩
  have hbc : s.AliasOf "b" "c" := ⟨_, by rw [symbol?, hsymbols]; rfl, rfl⟩
  have hself : s.AliasOf "self" "self" := ⟨_, by rw [symbol?, hsymbols]; rfl, rfl⟩
  have hproper : s.Proper "c" := by
    rintro next ⟨r, hr, hlink⟩
    rw [symbol?, hsymbols] at hr
    obtain rfl : { name := "C", type := "t" } = r := Option.some.inj hr
    cases hlink
  have hb : ReflTransGen s.AliasOf "a" "b" := .single hab
  have hc : ReflTransGen s.AliasOf "a" "c" := hb.tail hbc
  have hacyclic : s.AcyclicFrom "a" := acyclicFrom_of_proper hproper hc
  have hid : (s.symbol? "a").isSome := by rw [symbol?, hsymbols]; rfl
  obtain ⟨target, -, -, -, -, hcanonical⟩ :=
    aliasedSymbol_canonical (o := ⟨s, "/", none, none⟩) hparse (by simp) hid
  obtain ⟨honly, hresolves, -⟩ := hcanonical hacyclic
  obtain rfl : "c" = target := (honly "c" hc).1 hproper
  exact ⟨s, hparse, hacyclic, fun h ↦ h "self" .refl (.single hself), hresolves "a" .refl,
    hresolves "b" hb, hresolves "c" hc⟩

end Oracle

end TypeLens.Graph
