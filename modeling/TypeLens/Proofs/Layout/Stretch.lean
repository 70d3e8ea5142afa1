import TypeLens.Proofs.Layout.Idempotence
import TypeLens.Proofs.Text.Infix

/-!
# Words in a text that is laid out

The lines of a text are stretches of it (`infix_of_mem_memberLines`). Rewriting a member and nesting
lines put new characters next to each other, but only next to a blank, a line feed or one of the
marks of a member, so a *rigid* word that the draft of a text has was in the text before
(`Rigid.infix_of_draft`). The two words that layout looks for outside members are rigid: the opening
of an import and that of a placeholder.

Hence a text without imports is laid out from the draft of its members alone
(`reflow_of_no_import`), and a text that does not mention `undefined` either is only reflowed.
-/

namespace TypeLens.Layout

open Text

/-- The characters of a type that is laid out. -/
theorem toList_pretty {indentation : Int} (h : 1 ≤ indentation) (text : String) :
    (pretty text indentation).toList = reflow indentation.toNat text.toList := by
  rw [pretty, if_neg (by omega), String.toList_ofList]

/-! ### Lines -/

/-- The lines of a text are stretches of it. -/
theorem infix_of_mem_memberLines {cs line : List Char} (h : line ∈ memberLines cs) :
    line <:+: cs := by
  obtain ⟨hmem, -⟩ := List.mem_filter.1 h
  obtain ⟨piece, hpiece, rfl⟩ := List.mem_map.1 hmem
  obtain ⟨front, back, hsplit, -, -⟩ := exists_append_trim isBlank piece
  refine List.IsInfix.trans ⟨front, back, hsplit.symm⟩ ?_
  -- The first piece stands at the start of the text, because a break may come before it is over.
  suffices hfirst : ∃ first rest, splitAll '\n' (breakMembers cs) = first :: rest ∧
      first <+: cs ∧ ∀ piece ∈ rest, piece <:+: cs by
    obtain ⟨first, rest, hall, hstart, hrest⟩ := hfirst
    rw [hall] at hpiece
    rcases List.mem_cons.1 hpiece with rfl | hmem
    · exact hstart.isInfix
    · exact hrest piece hmem
  clear hpiece hmem h hsplit
  induction cs with
  | nil => exact ⟨[], [], rfl, List.prefix_rfl, by simp⟩
  | cons c cs ih =>
    obtain ⟨first, rest, hsplit, hstart, hrest⟩ := ih
    have hfeed : splitAll '\n' ('\n' :: breakMembers cs) = [] :: first :: rest := by
      rw [splitAll_cons_self, hsplit]
    have hlater : ∀ piece ∈ first :: rest, piece <:+: c :: cs :=
      List.forall_mem_cons.2 ⟨List.infix_cons hstart.isInfix,
        fun piece hpiece ↦ List.infix_cons (hrest piece hpiece)⟩
    have hlonger : c :: first <+: c :: cs := List.prefix_cons_inj c |>.2 hstart
    by_cases hend : c = '{' ∨ c = ';'
    · refine ⟨[c], first :: rest, ?_, by simp, hlater⟩
      rcases hend with rfl | rfl
      all_goals exact splitAll_cons_of_ne (by decide) hfeed
    by_cases hclose : c = '}'
    · subst hclose
      refine ⟨[], ('}' :: first) :: rest, ?_, List.nil_prefix, List.forall_mem_cons.2
        ⟨hlonger.isInfix, fun piece hpiece ↦ List.infix_cons (hrest piece hpiece)⟩⟩
      have hline : splitAll '\n' ('}' :: breakMembers cs) = ('}' :: first) :: rest :=
        splitAll_cons_of_ne (by decide) hsplit
      exact (splitAll_cons_self '\n' _).trans (congrArg _ hline)
    have hbreak : breakMembers (c :: cs) = c :: breakMembers cs := by
      obtain ⟨hopen, hsemicolon⟩ := not_or.1 hend
      simp [breakMembers, hopen, hclose, hsemicolon]
    rw [hbreak]
    rcases eq_or_ne c '\n' with rfl | hne
    · exact ⟨[], first :: rest, hfeed, List.nil_prefix, hlater⟩
    · exact ⟨c :: first, rest, splitAll_cons_of_ne hne hsplit, hlonger,
        fun piece hpiece ↦ List.infix_cons (hrest piece hpiece)⟩

/-- A nested line is a line behind some number of spaces. -/
theorem mem_nest {width depth : Nat} {lines : List (List Char)} {nested : List Char}
    (h : nested ∈ nest width depth lines) :
    ∃ line ∈ lines, ∃ n, nested = List.replicate n ' ' ++ line := by
  induction lines generalizing depth with
  | nil => simp [nest] at h
  | cons line lines ih =>
    rw [nest, List.mem_cons] at h
    rcases h with rfl | h
    · exact ⟨line, List.mem_cons_self, _, rfl⟩
    · obtain ⟨line', hline', hnested⟩ := ih h
      exact ⟨line', List.mem_cons_of_mem _ hline', hnested⟩

/-! ### Rigid words -/

/-- A word that neither starts with a blank nor has a character that layout brings in. -/
structure Rigid (word : List Char) : Prop where
  /-- It starts with something visible. -/
  starts : ∃ c rest, word = c :: rest ∧ isBlank c = false
  /-- It lacks the marks of members and the line feed. -/
  lacks : ∀ c ∈ "?:;\n".toList, c ∉ word

theorem rigid_importOpening : Rigid importOpening where
  starts := ⟨'t', _, rfl, by decide⟩
  lacks := by simp [importOpening]

/-- How a placeholder starts. -/
def placeholderOpening : List Char :=
  ['$', '{']

theorem rigid_placeholderOpening : Rigid placeholderOpening where
  starts := ⟨'$', _, rfl, by decide⟩
  lacks := by simp [placeholderOpening]

namespace Rigid

variable {word : List Char}

/-- A rigid word does not start at a blank. -/
theorem infix_of_cons (h : Rigid word) {c : Char} (hc : isBlank c = true) {cs : List Char}
    (hword : word <:+: c :: cs) : word <:+: cs := by
  refine (List.infix_cons_iff.1 hword).resolve_left ?_
  obtain ⟨d, rest, rfl, hd⟩ := h.starts
  rintro ⟨back, hback⟩
  rw [← List.head_eq_of_cons_eq hback] at hc
  simp [hd] at hc

theorem infix_of_replicate (h : Rigid word) {n : Nat} {cs : List Char}
    (hword : word <:+: List.replicate n ' ' ++ cs) : word <:+: cs := by
  induction n with
  | zero => exact hword
  | succ n ih => exact ih (h.infix_of_cons (by decide) hword)

/-- Rewriting a member does not bring a rigid word in. -/
theorem infix_of_sugar (h : Rigid word) {line : List Char} (hword : word <:+: sugar line) :
    word <:+: line := by
  rcases sugar_cases line with hsame | hsugars
  · rwa [hsame] at hword
  generalize sugar line = new at hsugars hword
  obtain @⟨front, mark, cut, core, gap, terminator, -, -, -, -, -, -, -, hterminator⟩ := hsugars
  have hquestion : '?' ∉ word := h.lacks _ (by decide)
  have hcolon : ':' ∉ word := h.lacks _ (by decide)
  have hsemicolon : ';' ∉ word := h.lacks _ (by decide)
  have hempty : ¬word <:+: [] := by
    obtain ⟨d, rest, rfl, -⟩ := h.starts
    simp
  -- What is new stands between the front and the core, or behind the core.
  rcases (infix_append_cons_iff hquestion).1 hword with hfront | hword
  · exact List.infix_append_of_infix_left hfront
  have hbehind : word <:+: [] ++ ':' :: (' ' :: (core ++ terminator)) := hword
  have hcore : word <:+: core ++ terminator :=
    h.infix_of_cons (by decide)
      (((infix_append_cons_iff hcolon).1 hbehind).resolve_left hempty)
  have hinner : word <:+: core := by
    rcases hterminator with rfl | rfl
    · simpa using hcore
    · exact ((infix_append_cons_iff hsemicolon).1 hcore).resolve_right hempty
  refine hinner.trans ⟨front ++ (mark ++ (": ".toList ++ cut)), gap ++ terminator, ?_⟩
  simp

/-- Nesting lines does not bring a rigid word in. -/
theorem exists_infix_of_draft (h : Rigid word) {width depth : Nat} {lines : List (List Char)}
    (hword : word <:+: draft width depth lines) : ∃ line ∈ lines, word <:+: line := by
  rcases eq_or_ne lines [] with rfl | hlines
  · obtain ⟨d, rest, rfl, -⟩ := h.starts
    simp [draft, nest, joinAll] at hword
  · have hfeed : '\n' ∉ word := h.lacks _ (by decide)
    obtain ⟨nested, hmem, hnested⟩ :=
      (infix_joinAll_iff hfeed (mt nest_eq_nil_iff.1 hlines)).1 hword
    obtain ⟨line, hline, n, rfl⟩ := mem_nest hmem
    exact ⟨line, hline, h.infix_of_replicate hnested⟩

/-- **A rigid word in the draft of a text comes from the text.** -/
theorem infix_of_draft (h : Rigid word) {width depth : Nat} {cs : List Char}
    (hword : word <:+: draft width depth ((memberLines cs).map sugar)) : word <:+: cs := by
  obtain ⟨_, hmem, hline⟩ := h.exists_infix_of_draft hword
  obtain ⟨line, hmember, rfl⟩ := List.mem_map.1 hmem
  exact (h.infix_of_sugar hline).trans (infix_of_mem_memberLines hmember)

end Rigid

/-! ### Texts without imports -/

/-- Where there is no import, none opens. -/
theorem after?_importOpening_of_no_import {cs : List Char} (h : ¬importOpening <:+: cs) :
    after? importOpening cs = none := by
  rcases hstart : after? importOpening cs with - | rest
  · rfl
  · rw [after?_eq_some_iff.1 hstart] at h
    exact absurd (List.prefix_append _ _).isInfix h

theorem importsComplete_of_no_import {cs : List Char} (h : ¬importOpening <:+: cs) :
    ImportsComplete cs := by
  induction cs with
  | nil => exact .nil
  | cons c cs ih =>
    exact .char (after?_importOpening_of_no_import h) (ih fun hword ↦ h (List.infix_cons hword))

/-- Where there is no import, none is shortened. -/
theorem shortenImports_of_no_import {cs : List Char} (h : ¬importOpening <:+: cs) :
    shortenImports cs = cs := by
  induction cs with
  | nil => rfl
  | cons c cs ih =>
    rw [shortenImports_cons (after?_importOpening_of_no_import h),
      ih fun hword ↦ h (List.infix_cons hword)]

/-- **A text without imports is laid out from the draft of its members.** -/
theorem reflow_of_no_import (width : Nat) {cs : List Char} (h : ¬importOpening <:+: cs) :
    reflow width cs =
      dropBlankLines (closeBraces (draft width 0 ((memberLines cs).map sugar))) := by
  have hdraft : ¬importOpening <:+: draft width 0 ((memberLines cs).map sugar) :=
    mt rigid_importOpening.infix_of_draft h
  rw [reflow, indentFrom_eq]
  exact congrArg (fun cs ↦ dropBlankLines (closeBraces cs)) (shortenImports_of_no_import hdraft)

/-! ### Texts without `undefined` -/

theorem dropWords_of_after?_eq_none {word cs : List Char} (h : after? word cs = none)
    (budget : Nat) : dropWords word budget cs = cs := by
  cases budget with
  | zero => rfl
  | succ => rw [dropWords, h]

/-- A type without the word loses nothing. -/
theorem withoutUndefined_of_no_undefined {type : List Char} (h : ¬"undefined".toList <:+: type) :
    withoutUndefined type = type := by
  have hend : after? " | undefined".toList.reverse type.reverse = none := by
    rcases hcut : after? " | undefined".toList.reverse type.reverse with - | rest
    · rfl
    · refine absurd ⟨rest.reverse ++ " | ".toList, [], ?_⟩ h
      have hsplit := congrArg List.reverse (after?_eq_some_iff.1 hcut)
      simpa using hsplit.symm
  have hstart : after? "undefined | ".toList type = none := by
    rcases hcut : after? "undefined | ".toList type with - | rest
    · rfl
    · refine absurd ⟨[], " | ".toList ++ rest, ?_⟩ h
      simpa using (after?_eq_some_iff.1 hcut).symm
  have htail : dropWords " | undefined".toList.reverse type.length type.reverse = type.reverse :=
    dropWords_of_after?_eq_none hend _
  rw [withoutUndefined, htail, List.reverse_reverse]
  exact dropWords_of_after?_eq_none hstart _

/-- A line that does not mention `undefined` stays as it is. -/
theorem sugar_of_no_undefined {line : List Char} (h : ¬"undefined".toList <:+: line) :
    sugar line = line := by
  rw [sugar]
  split
  · rfl
  · next m hread =>
    obtain ⟨hchars, -⟩ := Member.chars_of_read? hread
    have htype : m.type <:+: line := by
      rw [← hchars, Member.chars]
      exact List.infix_append _ _ _
    have hsame : withoutUndefined m.type = m.type :=
      withoutUndefined_of_no_undefined fun hword ↦ h (hword.trans htype)
    simp [hsame]

end TypeLens.Layout
