import TypeLens.Proofs.Text.Cut
import TypeLens.Proofs.Tree.Shape
import TypeLens.Tree.Text

/-!
# Plain trees

A *plain* tree is made of words, arrays, unions and intersections (`Tree.Plain`). Its text is a sum
of products: a union joins its *summands* with `|`, an intersection its *factors* with `&`, and an
array is a chain of brackets and `readonly` around a *core*, which stands in parentheses unless it
is a word (`Tree.spellClosed_eq_chain`).

The text does not show all of the structure. A union inside an intersection has no parentheses, and
a read-only array inside one that is not read-only has none either. A tree without those two is
*grouped* (`Tree.Grouped`). **A grouped plain tree is known from its text**, up to the labels of its
nodes and the display parts of its leaves (`Tree.everywhere_readable`). The proof cuts the text at
each level (summands, factors, chains) in the only possible way, and goes on with the cores.
-/

namespace TypeLens

open TypeLens.Text

namespace Tree

/-- A word of letters that has no meaning of its own in a text. -/
structure IsWord (s : String) : Prop where
  ne_empty : s ≠ ""
  letters : ∀ c ∈ s.toList, c.isAlpha = true
  not_reserved : s ∉ ["true", "false", "readonly", "undefined"]

/-- Whether a node is a union. -/
def isUnion : Tree → Bool
  | union .. => true
  | _ => false

/-- Whether a node is an intersection. -/
def isIntersection : Tree → Bool
  | intersection .. => true
  | _ => false

/-- Whether a node is a read-only array. -/
def isFrozen : Tree → Bool
  | array _ r _ => r
  | _ => false

/-- The nodes of plain trees. -/
def PlainNode : Tree → Prop
  | primitive l => IsWord l.name
  | array .. => True
  | union _ ms e => e = 0 ∧ 2 ≤ ms.length ∧ ∀ m ∈ ms, m.isUnion = false
  | intersection _ ms => 2 ≤ ms.length ∧ ∀ m ∈ ms, m.isIntersection = false
  | _ => False

/-- A tree of words, arrays, unions and intersections. No union is a member of a union, and no
intersection one of an intersection. -/
def Plain (t : Tree) : Prop :=
  t.Everywhere PlainNode

/-- The nodes whose structure shows in the text. -/
def GroupedNode : Tree → Prop
  | intersection _ ms => ∀ m ∈ ms, m.isUnion = false
  | array _ false t => t.isFrozen = false
  | _ => True

/-- No union is a member of an intersection, and no read-only array is the element of an array that
is not read-only. -/
def Grouped (t : Tree) : Prop :=
  t.Everywhere GroupedNode

/-! ### Texts -/

/-- The characters of the text of a tree. -/
def spell (t : Tree) : List Char :=
  t.text.toList

/-- The characters of a core in a chain. -/
def spellClosed (t : Tree) : List Char :=
  if t.bindsLoosely then '(' :: (t.spell ++ [')']) else t.spell

/-- What stands between the members of a union. -/
def bar : List Char := [' ', '|', ' ']

/-- What stands between the members of an intersection. -/
def ampersand : List Char := [' ', '&', ' ']

/-- What stands before a read-only array. -/
def frozenMark : List Char := "readonly ".toList

/-- What stands behind an element. -/
def brackets : List Char := ['[', ']']

/-- An array spells its items, with parentheses where they bind loosely. -/
theorem spell_array (l : Label) (r : Bool) (t : Tree) :
    (array l r t).spell = (if r then frozenMark else []) ++ t.spellClosed ++ brackets := by
  have htext : (array l r t).text = arrayText r t.bindsLoosely t.text := by
    rw [text, textIn, text]
  have hmark : (readonlyText r).toList = if r then frozenMark else [] := by
    cases r <;> rfl
  rw [spell, htext, arrayText, String.toList_append, String.toList_append, hmark, spellClosed,
    spell]
  generalize t.text = element
  cases t.bindsLoosely <;> simp [brackets]

theorem closed_operand {t : Tree} (h : t.isArrow = false) : t.operand.closed = t.text := by
  rw [Operand.closed, operand, if_neg (by simp [h]), text]

/-- A plain union spells its members with bars between them. -/
theorem spell_union (l : Label) {ms : List Tree} (harrow : ∀ m ∈ ms, m.isArrow = false)
    (htrue : ∀ m ∈ ms, m.text ≠ "true") :
    (union l ms 0).spell = bar.intercalate (ms.map spell) := by
  have hclosed : (operands ms).map Operand.closed = ms.map text := by
    rw [operands_eq_map, List.map_map]
    exact List.map_congr_left fun m hm ↦ closed_operand (harrow m hm)
  have hfold : foldBooleans (ms.map text) = ms.map text := by
    rw [foldBooleans, if_neg]
    rintro ⟨hmem, -⟩
    obtain ⟨m, hm, heq⟩ := List.mem_map.1 hmem
    exact htrue m hm heq
  rw [spell, text, textIn, slotUnionText, hclosed, if_pos (by simp), unionText, hfold,
    if_neg (by decide), List.append_nil, String.toList_intercalate, List.map_map]
  rfl

/-- A plain intersection spells its members with ampersands between them. -/
theorem spell_intersection (l : Label) {ms : List Tree} (harrow : ∀ m ∈ ms, m.isArrow = false)
    (hobject : ∀ m ∈ ms, m.isObject = false) :
    (intersection l ms).spell = ampersand.intercalate (ms.map spell) := by
  have hsegments : segments ms = ms.map fun m ↦ .text m.text := by
    rw [segments_eq_map]
    refine List.map_congr_left fun m hm ↦ ?_
    rw [← closed_operand (harrow m hm)]
    cases m with
    | object => cases hobject _ hm
    | _ => rfl
  have hplaced : ∀ merged, placeMerged merged (ms.map fun m ↦ .text m.text) = ms.map text := by
    intro merged
    clear hsegments harrow hobject
    induction ms with
    | nil => rfl
    | cons m ms ih => rw [List.map_cons, List.map_cons, placeMerged, ih]
  rw [spell, text, textIn, intersectionText, hsegments, hplaced, String.toList_intercalate,
    List.map_map]
  rfl

theorem PlainNode.isArrow_eq_false {t : Tree} (h : t.PlainNode) : t.isArrow = false := by
  cases t with
  | function => cases h
  | _ => rfl

theorem PlainNode.isObject_eq_false {t : Tree} (h : t.PlainNode) : t.isObject = false := by
  cases t with
  | object => cases h
  | _ => rfl

theorem text_ne_of_mem_spell {t : Tree} {c : Char} {word : String} (hc : c ∈ t.spell)
    (hword : c ∉ word.toList) : t.text ≠ word := by
  rintro rfl
  exact hword hc

/-- No plain tree is taken for a truth value. -/
theorem Plain.text_ne_true {t : Tree} (h : t.Plain) : t.text ≠ "true" := by
  induction t using branch_induction with
  | node t ih =>
    have hroot := h.root
    have harrow : ∀ m ∈ t.branches, m.isArrow = false := fun m hm ↦
      (h.branch hm).root.isArrow_eq_false
    have hobject : ∀ m ∈ t.branches, m.isObject = false := fun m hm ↦
      (h.branch hm).root.isObject_eq_false
    -- A word is excluded as a name; any other plain text has a bracket or a blank in it.
    cases t with
    | primitive l =>
      intro heq
      exact hroot.not_reserved (by rw [show l.name = "true" from heq]; decide)
    | array l r t =>
      refine text_ne_of_mem_spell (c := ']') ?_ (by decide)
      rw [spell_array]
      exact List.mem_append_right _ (by decide)
    | union l ms e =>
      obtain ⟨rfl, hlength, -⟩ := hroot
      refine text_ne_of_mem_spell (c := ' ') ?_ (by decide)
      have hspell : (union l ms 0).spell = bar.intercalate (ms.map spell) :=
        spell_union l harrow fun m hm ↦ ih m hm (h.branch hm)
      rw [hspell]
      exact mem_intercalate_of_mem_sep (by rwa [List.length_map]) (by decide)
    | intersection l ms =>
      refine text_ne_of_mem_spell (c := ' ') ?_ (by decide)
      have hspell : (intersection l ms).spell = ampersand.intercalate (ms.map spell) :=
        spell_intersection l harrow hobject
      rw [hspell]
      exact mem_intercalate_of_mem_sep (by rw [List.length_map]; exact hroot.1) (by decide)
    | _ => cases hroot

/-! ### Sums and products -/

/-- The members of a union; any other tree is the only summand of itself. -/
def summands : Tree → List Tree
  | union _ ms _ => ms
  | t => [t]

/-- The members of an intersection; any other tree is the only factor of itself. -/
def factors : Tree → List Tree
  | intersection _ ms => ms
  | t => [t]

section

variable {t u : Tree}

/-- A plain tree is one summand, or a union of two members at least. -/
theorem Plain.union_cases (h : t.Plain) :
    t.isUnion = false ∧ t.summands = [t] ∨ ∃ l ms, t = union l ms 0 ∧ 2 ≤ ms.length := by
  cases t with
  | union l ms e =>
    obtain ⟨rfl, hlength, -⟩ := h.root
    exact .inr ⟨l, ms, rfl, hlength⟩
  | _ => exact .inl ⟨rfl, rfl⟩

/-- A plain tree is one factor, or an intersection of two members at least. -/
theorem Plain.intersection_cases (h : t.Plain) :
    t.isIntersection = false ∧ t.factors = [t] ∨
      ∃ l ms, t = intersection l ms ∧ 2 ≤ ms.length := by
  cases t with
  | intersection l ms => exact .inr ⟨l, ms, rfl, h.root.1⟩
  | _ => exact .inl ⟨rfl, rfl⟩

/-- What holds everywhere in a tree holds everywhere in its summands. -/
theorem Everywhere.summands {P : Tree → Prop} (h : t.Everywhere P) :
    ∀ m ∈ t.summands, m.Everywhere P := by
  intro m hm
  cases t with
  | union l ms e => exact h.branch hm
  | _ => rwa [List.mem_singleton.1 hm]

/-- What holds everywhere in a tree holds everywhere in its factors. -/
theorem Everywhere.factors {P : Tree → Prop} (h : t.Everywhere P) :
    ∀ m ∈ t.factors, m.Everywhere P := by
  intro m hm
  cases t with
  | intersection l ms => exact h.branch hm
  | _ => rwa [List.mem_singleton.1 hm]

theorem Plain.summands_ne_nil (h : t.Plain) : t.summands ≠ [] := by
  rcases h.union_cases with ⟨-, hsummands⟩ | ⟨l, ms, rfl, hms⟩
  · rw [hsummands]
    exact List.cons_ne_nil _ _
  · exact List.ne_nil_of_length_pos (by rw [summands]; omega)

theorem Plain.factors_ne_nil (h : t.Plain) : t.factors ≠ [] := by
  rcases h.intersection_cases with ⟨-, hfactors⟩ | ⟨l, ms, rfl, hms⟩
  · rw [hfactors]
    exact List.cons_ne_nil _ _
  · exact List.ne_nil_of_length_pos (by rw [factors]; omega)

/-- A tree is spelled summand by summand. -/
theorem Plain.spell_eq_summands (h : t.Plain) :
    t.spell = bar.intercalate (t.summands.map spell) := by
  rcases h.union_cases with ⟨-, hsummands⟩ | ⟨l, ms, rfl, -⟩
  · rw [hsummands, List.map_singleton, List.intercalate_singleton]
  · exact spell_union l (fun m hm ↦ (h.branch hm).root.isArrow_eq_false)
      fun m hm ↦ Plain.text_ne_true (h.branch hm)

/-- A tree is spelled factor by factor. -/
theorem Plain.spell_eq_factors (h : t.Plain) :
    t.spell = ampersand.intercalate (t.factors.map spell) := by
  rcases h.intersection_cases with ⟨-, hfactors⟩ | ⟨l, ms, rfl, -⟩
  · rw [hfactors, List.map_singleton, List.intercalate_singleton]
  · exact spell_intersection l (fun m hm ↦ (h.branch hm).root.isArrow_eq_false)
      fun m hm ↦ (h.branch hm).root.isObject_eq_false

/-! ### Chains -/

/-- What is left of a tree without the arrays around it. -/
def core : Tree → Tree
  | array _ _ t => t.core
  | t => t

/-- The number of arrays around the core. -/
def rank : Tree → Nat
  | array _ _ t => t.rank + 1
  | _ => 0

/-- The number of read-only arrays around the core. -/
def frozen : Tree → Nat
  | array _ r t => t.frozen + r.toNat
  | _ => 0

theorem spellClosed_of_bindsLoosely (h : t.bindsLoosely = true) :
    t.spellClosed = '(' :: (t.spell ++ [')']) := by
  rw [spellClosed, if_pos h]

theorem spellClosed_of_bindsLoosely_eq_false (h : t.bindsLoosely = false) :
    t.spellClosed = t.spell := by
  rw [spellClosed, if_neg (by simp [h])]

/-- **The text of a chain**: the marks of all read-only arrays, the core and the brackets of all
arrays. -/
theorem spellClosed_eq_chain (t : Tree) :
    t.spellClosed = again frozenMark t.frozen ++ t.core.spellClosed ++ again brackets t.rank := by
  induction t using branch_induction with
  | node t ih =>
    cases t with
    | array l r t =>
      rw [spellClosed_of_bindsLoosely_eq_false rfl, spell_array, ih t (List.mem_singleton_self t),
        core, rank, frozen, ← again_append_word]
      cases r with
      | false => simp [List.append_assoc]
      | true => simp [again_succ, List.append_assoc]
    | _ => simp [core, rank, frozen, again]

/-- The core of a tree is what is left when all brackets are taken off, so it is no array. -/
theorem core_ne_array (t : Tree) (l : Label) (r : Bool) (u : Tree) : t.core ≠ array l r u := by
  induction t using branch_induction with
  | node t ih =>
    cases t with
    | array l' r' t => exact ih t (List.mem_singleton_self t)
    | _ => nofun

theorem Everywhere.core {P : Tree → Prop} (h : t.Everywhere P) : t.core.Everywhere P := by
  induction t using branch_induction with
  | node t ih =>
    cases t with
    | array l r t =>
      have ht : t ∈ (array l r t).branches := List.mem_singleton_self t
      exact ih t ht (h.branch ht)
    | _ => exact h

end

/-! ### Skeletons -/

mutual

/-- A plain tree without the labels of its nodes and the display parts of its leaves. -/
def skeleton : Tree → Tree
  | primitive l => primitive ⟨l.name, none⟩
  | union _ ms e => union ⟨"", none⟩ (skeletons ms) e
  | intersection _ ms => intersection ⟨"", none⟩ (skeletons ms)
  | array _ r t => array ⟨"", none⟩ r t.skeleton
  | t => t

/-- The skeletons of several trees. -/
def skeletons : List Tree → List Tree
  | [] => []
  | t :: ts => t.skeleton :: skeletons ts

end

theorem skeletons_eq_map (ts : List Tree) : skeletons ts = ts.map skeleton := by
  induction ts with
  | nil => rfl
  | cons t ts ih => rw [skeletons, ih, List.map_cons]

section

variable {t u : Tree}

/-- Trees with several parts are alike if their parts are, and so are trees without any. -/
theorem skeleton_eq_of_parts {parts : Tree → List Tree} (whole : List Tree → Tree)
    (ht : parts t = [t] ∨ 2 ≤ (parts t).length ∧ t.skeleton = whole ((parts t).map skeleton))
    (hu : parts u = [u] ∨ 2 ≤ (parts u).length ∧ u.skeleton = whole ((parts u).map skeleton))
    (h : (parts t).map skeleton = (parts u).map skeleton) : t.skeleton = u.skeleton := by
  have hlength := congrArg List.length h
  rw [List.length_map, List.length_map] at hlength
  rcases ht with ht | ⟨ht, hwhole⟩ <;> rcases hu with hu | ⟨hu, hwhole'⟩
  · rw [ht, hu] at h
    exact List.singleton_inj.1 h
  · rw [ht, List.length_singleton] at hlength
    omega
  · rw [hu, List.length_singleton] at hlength
    omega
  · rw [hwhole, hwhole', h]

/-- Plain trees with the same skeletons of summands have the same skeleton. -/
theorem Plain.skeleton_eq_of_summands (ht : t.Plain) (hu : u.Plain)
    (h : t.summands.map skeleton = u.summands.map skeleton) : t.skeleton = u.skeleton := by
  have hparts : ∀ {x : Tree}, x.Plain → x.summands = [x] ∨ 2 ≤ x.summands.length ∧
      x.skeleton = union ⟨"", none⟩ (x.summands.map skeleton) 0 := by
    intro x hx
    rcases hx.union_cases with ⟨-, hsummands⟩ | ⟨l, ms, rfl, hms⟩
    · exact .inl hsummands
    · exact .inr ⟨hms, by rw [skeleton, skeletons_eq_map, summands]⟩
  exact skeleton_eq_of_parts (union ⟨"", none⟩ · 0) (hparts ht) (hparts hu) h

/-- Plain trees with the same skeletons of factors have the same skeleton. -/
theorem Plain.skeleton_eq_of_factors (ht : t.Plain) (hu : u.Plain)
    (h : t.factors.map skeleton = u.factors.map skeleton) : t.skeleton = u.skeleton := by
  have hparts : ∀ {x : Tree}, x.Plain → x.factors = [x] ∨ 2 ≤ x.factors.length ∧
      x.skeleton = intersection ⟨"", none⟩ (x.factors.map skeleton) := by
    intro x hx
    rcases hx.intersection_cases with ⟨-, hfactors⟩ | ⟨l, ms, rfl, hms⟩
    · exact .inl hfactors
    · exact .inr ⟨hms, by rw [skeleton, skeletons_eq_map, factors]⟩
  exact skeleton_eq_of_parts (intersection ⟨"", none⟩) (hparts ht) (hparts hu) h

/-- A grouped tree whose outermost array is not read-only has no read-only arrays. -/
theorem Grouped.frozen_eq_zero (h : t.Grouped) (hfrozen : t.isFrozen = false) : t.frozen = 0 := by
  induction t using branch_induction with
  | node t ih =>
    cases t with
    | array l r t =>
      obtain rfl : r = false := hfrozen
      have ht : t ∈ (array l false t).branches := List.mem_singleton_self t
      rw [frozen, ih t ht (h.branch ht) h.root]
      rfl
    | _ => rfl

/-- Grouped trees are alike if their cores and the numbers of their arrays are. -/
theorem Grouped.skeleton_eq_of_chain (ht : t.Grouped) (hu : u.Grouped)
    (hfrozen : t.frozen = u.frozen) (hrank : t.rank = u.rank)
    (hcore : t.core.skeleton = u.core.skeleton) : t.skeleton = u.skeleton := by
  induction t using branch_induction generalizing u with
  | node t ih =>
    cases t with
    | array l r t =>
      cases u with
      | array l' r' u =>
        have hbelow : t ∈ (array l r t).branches := List.mem_singleton_self t
        have hbelow' : u ∈ (array l' r' u).branches := List.mem_singleton_self u
        -- Below an array that is not read-only a grouped tree has no marks to count.
        obtain rfl : r = r' := by
          cases r <;> cases r'
          · rfl
          · have hzero := Grouped.frozen_eq_zero (ht.branch hbelow) ht.root
            simp [frozen, hzero] at hfrozen
          · have hzero := Grouped.frozen_eq_zero (hu.branch hbelow') hu.root
            simp [frozen, hzero] at hfrozen
          · rfl
        rw [skeleton, skeleton, ih t hbelow (ht.branch hbelow) (hu.branch hbelow')
          (Nat.add_right_cancel hfrozen) (Nat.add_right_cancel hrank) hcore]
      | _ => cases hrank
    | _ =>
      cases u with
      | array => cases hrank
      | _ => exact hcore

/-! ### Unique reading -/

/-- A text behind a whole tree: nothing, or the end of a group. -/
def Closes (r : List Char) : Prop :=
  ∀ c ∈ r.head?, c = ')'

/-- A text behind a summand. -/
def EndsSummand (r : List Char) : Prop :=
  Closes r ∨ bar <+: r

/-- A text behind a factor. -/
def EndsFactor (r : List Char) : Prop :=
  EndsSummand r ∨ ampersand <+: r

/-- A grouped plain tree that is known from its text. -/
def Readable (t : Tree) : Prop :=
  t.Plain → t.Grouped → ∀ u : Tree, u.Plain → u.Grouped → ∀ r s, Closes r → Closes s →
    t.spell ++ r = u.spell ++ s → t.skeleton = u.skeleton ∧ r = s

theorem EndsFactor.head_eq {r : List Char} (h : EndsFactor r) :
    ∀ c ∈ r.head?, c = ')' ∨ c = ' ' := by
  intro c hc
  rcases h with (h | ⟨_, rfl⟩) | ⟨_, rfl⟩
  · exact .inl (h c hc)
  · exact .inr (Option.some.inj hc).symm
  · exact .inr (Option.some.inj hc).symm

/-- What stands behind the core of a chain continues no word. -/
theorem EndsFactor.stops {r : List Char} (h : EndsFactor r) (n : Nat) :
    Stops Char.isAlpha (again brackets n ++ r) := by
  intro c hc
  cases n with
  | zero => rcases h.head_eq c hc with rfl | rfl <;> decide
  | succ n =>
    obtain rfl : '[' = c := Option.some.inj hc
    decide

theorem EndsFactor.not_brackets {r : List Char} (h : EndsFactor r) : ¬brackets <+: r := by
  rintro ⟨rest, rfl⟩
  rcases h.head_eq '[' rfl with h | h <;> exact absurd h (by decide)

/-- The core of a plain tree is a word or stands in parentheses. -/
theorem Plain.core_cases (h : t.Plain) :
    (∃ l, IsWord l.name ∧ t.core = primitive l) ∨ t.core.bindsLoosely = true := by
  have hroot := (Everywhere.core h).root
  cases hcore : t.core with
  | primitive l => exact .inl ⟨l, by rwa [hcore] at hroot, rfl⟩
  | array l r u => exact absurd hcore (core_ne_array t l r u)
  | union | intersection => exact .inr rfl
  | _ => rw [hcore] at hroot; cases hroot

/-- A core is not taken for the mark of a read-only array. -/
theorem Plain.not_frozenMark (h : t.Plain) {r : List Char} (hr : Stops Char.isAlpha r) :
    ¬frozenMark <+: t.core.spellClosed ++ r := by
  rintro ⟨rest, hrest⟩
  rcases h.core_cases with ⟨l, hword, hcore⟩ | hloose
  · rw [hcore] at hrest
    have hcut : "readonly".toList = l.name.toList ∧ ' ' :: rest = r :=
      cut_run (List.all_eq_true.1 rfl) hword.letters (by simp [Stops]) hr hrest
    refine hword.not_reserved ?_
    rw [← String.toList_inj.1 hcut.1]
    decide
  · rw [spellClosed_of_bindsLoosely hloose] at hrest
    exact absurd (List.cons.inj hrest).1 (by decide)

/-- A core is cut in one way from a text that continues no word. -/
theorem cut_core (ht : t.Plain) (hu : u.Plain) (htg : t.Grouped) (hug : u.Grouped)
    (hread : t.core.bindsLoosely = true → t.core.Readable) {r s : List Char}
    (hr : Stops Char.isAlpha r) (hs : Stops Char.isAlpha s)
    (h : t.core.spellClosed ++ r = u.core.spellClosed ++ s) :
    t.core.skeleton = u.core.skeleton ∧ r = s := by
  have hword : ∀ {l : Label} {q cs : List Char}, IsWord l.name →
      (primitive l).spellClosed ++ q ≠ '(' :: cs := by
    intro l q cs hl heq
    obtain ⟨c, word, hname⟩ :=
      List.exists_cons_of_ne_nil (mt String.toList_eq_nil_iff.1 hl.ne_empty)
    have hspell : (primitive l).spellClosed = c :: word := hname
    rw [hspell] at heq
    have hc := hl.letters c (by rw [hname]; exact List.mem_cons_self)
    rw [(List.cons.inj heq).1] at hc
    exact absurd hc (by decide)
  -- The first character tells a word from a group.
  rcases ht.core_cases with ⟨l, hl, hcore⟩ | hloose <;>
    rcases hu.core_cases with ⟨l', hl', hcore'⟩ | hloose'
  · rw [hcore, hcore'] at h ⊢
    obtain ⟨hname, rfl⟩ := cut_run hl.letters hl'.letters hr hs h
    rw [skeleton, skeleton, String.toList_inj.1 hname]
    exact ⟨rfl, rfl⟩
  · rw [hcore, spellClosed_of_bindsLoosely hloose'] at h
    exact absurd h (hword hl)
  · rw [hcore', spellClosed_of_bindsLoosely hloose] at h
    exact absurd h.symm (hword hl')
  · rw [spellClosed_of_bindsLoosely hloose, spellClosed_of_bindsLoosely hloose', List.cons_append,
      List.cons_append, List.append_assoc, List.append_assoc] at h
    obtain ⟨hskeleton, hrest⟩ := hread hloose (Everywhere.core ht) (Everywhere.core htg) u.core
      (Everywhere.core hu) (Everywhere.core hug) ([')'] ++ r) ([')'] ++ s) (by simp [Closes])
      (by simp [Closes]) (List.cons.inj h).2
    exact ⟨hskeleton, List.append_cancel_left hrest⟩

/-- A factor is cut in one way. -/
theorem cut_factor (ht : t.Plain) (hu : u.Plain) (htg : t.Grouped) (hug : u.Grouped)
    (hloose : t.bindsLoosely = false) (hloose' : u.bindsLoosely = false)
    (hread : t.core.bindsLoosely = true → t.core.Readable) {r s : List Char} (hr : EndsFactor r)
    (hs : EndsFactor s) (h : t.spell ++ r = u.spell ++ s) : t.skeleton = u.skeleton ∧ r = s := by
  rw [← spellClosed_of_bindsLoosely_eq_false hloose, ← spellClosed_of_bindsLoosely_eq_false hloose',
    spellClosed_eq_chain t, spellClosed_eq_chain u] at h
  simp only [List.append_assoc] at h
  obtain ⟨hfrozen, h⟩ :=
    cut_repeat (ht.not_frozenMark (hr.stops _)) (hu.not_frozenMark (hs.stops _)) h
  obtain ⟨hcore, h⟩ := cut_core ht hu htg hug hread (hr.stops _) (hs.stops _) h
  obtain ⟨hrank, rfl⟩ := cut_repeat hr.not_brackets hs.not_brackets h
  exact ⟨htg.skeleton_eq_of_chain hug hfrozen hrank hcore, rfl⟩

/-- A plain node that is no union and no intersection binds tightly. -/
theorem PlainNode.bindsLoosely_eq_false (h : t.PlainNode) (hunion : t.isUnion = false)
    (hintersection : t.isIntersection = false) : t.bindsLoosely = false := by
  cases t with
  | union => cases hunion
  | intersection => cases hintersection
  | function => cases h
  | _ => rfl

/-- The factors of a grouped summand are words and arrays. -/
theorem Plain.bindsLoosely_factor (h : t.Plain) (hgrouped : t.Grouped) (hunion : t.isUnion = false)
    {a : Tree} (ha : a ∈ t.factors) : a.bindsLoosely = false := by
  rcases h.intersection_cases with ⟨hintersection, hfactors⟩ | ⟨l, ms, rfl, -⟩
  · rw [hfactors] at ha
    rw [List.mem_singleton.1 ha]
    exact h.root.bindsLoosely_eq_false hunion hintersection
  · exact (h.branch ha).root.bindsLoosely_eq_false (hgrouped.root a ha) (h.root.2 a ha)

/-- No summand is a union. -/
theorem Plain.isUnion_summand (h : t.Plain) {m : Tree} (hm : m ∈ t.summands) :
    m.isUnion = false := by
  rcases h.union_cases with ⟨hunion, hsummands⟩ | ⟨l, ms, rfl, -⟩
  · rw [hsummands] at hm
    rwa [List.mem_singleton.1 hm]
  · exact h.root.2.2 m hm

/-- A summand is cut in one way. -/
theorem cut_summand (ht : t.Plain) (hu : u.Plain) (htg : t.Grouped) (hug : u.Grouped)
    (hunion : t.isUnion = false) (hunion' : u.isUnion = false)
    (hread : ∀ a ∈ t.factors, a.core.bindsLoosely = true → a.core.Readable) {r s : List Char}
    (hr : EndsSummand r) (hs : EndsSummand s) (h : t.spell ++ r = u.spell ++ s) :
    t.skeleton = u.skeleton ∧ r = s := by
  rw [ht.spell_eq_factors, hu.spell_eq_factors] at h
  have hstop : ∀ r, EndsSummand r → ¬ampersand <+: r := by
    rintro r hr ⟨rest, rfl⟩
    rcases hr with hr | ⟨rest', hrest⟩
    · exact absurd (hr ' ' rfl) (by decide)
    · simp [bar, ampersand] at hrest
  obtain ⟨hfactors, rfl⟩ := cut_intercalate hstop (fun a ha b hb r s hr hs h ↦
    cut_factor (ht.factors a ha) (hu.factors b hb) (htg.factors a ha) (hug.factors b hb)
      (ht.bindsLoosely_factor htg hunion ha) (hu.bindsLoosely_factor hug hunion' hb) (hread a ha)
      hr hs h) ht.factors_ne_nil hu.factors_ne_nil hr hs h
  exact ⟨ht.skeleton_eq_of_factors hu hfactors, rfl⟩

/-- The cores of a tree that stand in parentheses lie below it. -/
theorem readable_core (h : ∀ c ∈ t.branches, c.Everywhere Readable) {m a : Tree}
    (hm : m ∈ t.summands) (ha : a ∈ m.factors) (hloose : a.bindsLoosely = false)
    (hcore : a.core.bindsLoosely = true) : a.core.Readable := by
  have hinner : ∀ {c : Tree}, c.Everywhere Readable → c.core.Readable :=
    fun hc ↦ (Everywhere.core hc).root
  cases t with
  | union l ms e => exact hinner ((h m hm).factors a ha)
  | intersection l ms =>
    obtain rfl := List.mem_singleton.1 hm
    exact hinner (h a ha)
  | array l r t =>
    obtain rfl := List.mem_singleton.1 hm
    obtain rfl := List.mem_singleton.1 ha
    show t.core.Readable
    exact hinner (h t (List.mem_singleton_self t))
  | _ =>
    obtain rfl := List.mem_singleton.1 hm
    obtain rfl := List.mem_singleton.1 ha
    exact nomatch hloose.symm.trans hcore

/-- **A grouped plain tree is known from its text**, also if the end of a group follows. -/
theorem everywhere_readable (t : Tree) : t.Everywhere Readable := by
  -- The next group is the core of a factor of a summand, so several levels down: the induction
  -- carries `Readable` for all trees below, not only for the branches.
  induction t using branch_induction with
  | node t ih =>
    refine everywhere_iff.2 ⟨?_, ih⟩
    intro ht htg u hu hug r s hr hs h
    rw [ht.spell_eq_summands, hu.spell_eq_summands] at h
    have hstop : ∀ r, Closes r → ¬bar <+: r := by
      rintro r hr ⟨rest, rfl⟩
      exact absurd (hr ' ' rfl) (by decide)
    obtain ⟨hsummands, rfl⟩ := cut_intercalate hstop (fun m hm m' hm' r s hr hs h ↦
      cut_summand (ht.summands m hm) (hu.summands m' hm') (htg.summands m hm) (hug.summands m' hm')
        (ht.isUnion_summand hm) (hu.isUnion_summand hm')
        (fun a ha ↦ readable_core ih hm ha (Plain.bindsLoosely_factor (ht.summands m hm)
          (htg.summands m hm) (ht.isUnion_summand hm) ha)) hr hs h)
      ht.summands_ne_nil hu.summands_ne_nil hr hs h
    exact ⟨ht.skeleton_eq_of_summands hu hsummands, rfl⟩

/-- Grouped plain trees with the same text are alike. -/
theorem Plain.skeleton_eq_of_text (ht : t.Plain) (htg : t.Grouped) (hu : u.Plain) (hug : u.Grouped)
    (h : t.text = u.text) : t.skeleton = u.skeleton := by
  have hread : t.Readable := (everywhere_readable t).root
  refine (hread ht htg u hu hug [] [] nofun nofun ?_).1
  rw [spell, spell, h]

end

end Tree

end TypeLens
