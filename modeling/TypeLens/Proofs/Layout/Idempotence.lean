import Mathlib.Algebra.Order.BigOperators.Group.List
import Mathlib.Algebra.Order.Group.Nat
import Mathlib.Algebra.Ring.Nat
import TypeLens.Proofs.Layout.Member

/-!
# Laying out a laid-out text

Two steps of the layout rewrite more than spacing: members that admit `undefined` are written as
optional members, and import paths are shortened. Together they *finish* a line (`finish`). A text
whose imports are complete on their lines is laid out as the draft of its finished lines, with its
braces closed (`reflow_eq`).

**Laying out is idempotent on a text exactly if finishing is idempotent on each of its lines**
(`pretty_idempotent_iff`). One direction rests on `closeBraces_draft_closeBraces`: what a laid-out
text is broken into differs from the finished lines in its notes only. For the other, a line that
finishing changes gets strictly shorter, and nothing else changes the length of a text without its
spacing.

Finishing is not idempotent on every line. Behind the last `undefined` of a union blanks are cut
off, which may uncover one more, and the module part of an import path may have a module part of its
own (`pretty_not_idempotent`).
-/

namespace TypeLens.Layout

open Text

/-- A line with its member and its import paths rewritten. -/
def finish (line : List Char) : List Char :=
  shortenImports (sugar line)

/-! ### Finished lines -/

theorem Whole.finish {line : List Char} (h : Whole line) : Whole (finish line) :=
  h.sugar.shortenImports

/-- A finished line stays as it is in both steps. -/
theorem sugar_eq_of_finish_eq {line : List Char} (h : finish line = line) :
    sugar line = line ∧ shortenImports line = line := by
  have hsugar : sugar line = line := by
    by_contra hne
    have hless : weight (sugar line) < weight line := (weight_sugar line).resolve_right hne
    have hshort : weight (finish line) ≤ weight (sugar line) :=
      weight_le_of_lt_or_eq (weight_shortenImports _)
    rw [h] at hshort
    omega
  refine ⟨hsugar, ?_⟩
  rw [finish, hsugar] at h
  exact h

/-- Lines without a colon and without quotes are finished. -/
theorem finish_of_not_mem {line : List Char} (hcolon : ':' ∉ line) (hquote : '"' ∉ line) :
    finish line = line := by
  rw [finish, sugar_of_not_mem hcolon, shortenImports_of_not_mem hquote]

/-! ### The layout as a draft -/

/-- The lines of a text that is laid out, up to notes. -/
def finishedLines (cs : List Char) : List (List Char) :=
  (memberLines cs).map finish

theorem whole_finishedLines (cs : List Char) : ∀ line ∈ finishedLines cs, Whole line :=
  List.forall_mem_map.2 fun _ hline ↦ (whole_of_mem_memberLines hline).finish

/-- **A text is laid out as the draft of its finished lines.** -/
theorem reflow_eq (width : Nat) {cs : List Char}
    (h : ∀ line ∈ memberLines cs, ImportsComplete (sugar line)) :
    reflow width cs = dropBlankLines (closeBraces (draft width 0 (finishedLines cs))) := by
  have hwhole : ∀ line ∈ (memberLines cs).map sugar, Whole line :=
    List.forall_mem_map.2 fun _ hline ↦ (whole_of_mem_memberLines hline).sugar
  have hshort := shortenImports_draft width 0 hwhole (List.forall_mem_map.2 h)
  rw [List.map_map] at hshort
  rw [reflow, indentFrom_eq]
  exact congrArg (fun cs ↦ dropBlankLines (closeBraces cs)) hshort

/-- What holds of lines without a colon and without quotes anyway holds of the lines of a laid-out
text exactly if it holds of the finished lines. -/
theorem forall_memberLines_reflow (width : Nat) {cs : List Char}
    (h : ∀ line ∈ memberLines cs, ImportsComplete (sugar line)) {P : List Char → Prop}
    (hP : ∀ line, ':' ∉ line → '"' ∉ line → P line) :
    (∀ line ∈ memberLines (reflow width cs), P line) ↔ ∀ line ∈ finishedLines cs, P line := by
  rw [reflow_eq width h, memberLines_dropBlankLines, forall_memberLines_closeBraces hP,
    memberLines_draft width 0 (whole_finishedLines cs)]

/-- The imports of a laid-out text are complete on their lines. -/
theorem importsComplete_reflow (width : Nat) {cs : List Char}
    (h : ∀ line ∈ memberLines cs, ImportsComplete (sugar line)) :
    ∀ line ∈ memberLines (reflow width cs), ImportsComplete line := by
  refine (forall_memberLines_reflow width h fun line _ ↦ importsComplete_of_not_mem).2 ?_
  exact List.forall_mem_map.2 fun line hline ↦ (h line hline).shortenImports

/-! ### Laying out twice -/

/-- A text whose lines are finished once and for all. -/
theorem reflow_reflow_of_finished (first second : Nat) {cs : List Char}
    (h : ∀ line ∈ memberLines cs, ImportsComplete (sugar line))
    (hfinished : ∀ line ∈ finishedLines cs, finish line = line) :
    reflow second (reflow first cs) = reflow second cs := by
  have hlines : ∀ line ∈ memberLines (reflow first cs), finish line = line :=
    (forall_memberLines_reflow first h fun line ↦ finish_of_not_mem).2 hfinished
  have hcomplete : ∀ line ∈ memberLines (reflow first cs), ImportsComplete (sugar line) := by
    intro line hline
    rw [(sugar_eq_of_finish_eq (hlines line hline)).1]
    exact importsComplete_reflow first h line hline
  have hsame : finishedLines (reflow first cs) = memberLines (reflow first cs) :=
    (List.map_congr_left hlines).trans (List.map_id _)
  -- The lines of the laid-out text are the finished lines up to notes, which closing evens out.
  have hdraft : closeBraces (draft second 0 (memberLines (reflow first cs))) =
      closeBraces (draft second 0 (finishedLines cs)) := by
    rw [reflow_eq first h, memberLines_dropBlankLines, closeBraces_draft_closeBraces,
      memberLines_draft first 0 (whole_finishedLines cs)]
  rw [reflow_eq second hcomplete, hsame, hdraft, reflow_eq second h]

theorem weight_draft (width depth : Nat) (lines : List (List Char)) :
    weight (draft width depth lines) = (lines.map weight).sum := by
  rw [weight, dropSpacing_draft, List.length_flatMap]
  rfl

theorem weight_eq_sum (cs : List Char) : weight cs = ((memberLines cs).map weight).sum := by
  rw [weight, ← dropSpacing_memberLines, List.length_flatMap]
  rfl

theorem weight_reflow (width : Nat) {cs : List Char}
    (h : ∀ line ∈ memberLines cs, ImportsComplete (sugar line)) :
    weight (reflow width cs) = ((finishedLines cs).map weight).sum := by
  rw [reflow_eq width h, ← weight_draft width 0, weight, lineByLine_dropSpacing.dropBlankLines,
    dropSpacing_closeBraces, weight]

/-- Lines that lose no weight are no members to be rewritten. -/
theorem sugar_eq_of_sum_le {lines : List (List Char)}
    (h : (lines.map weight).sum ≤ (lines.map fun line ↦ weight (sugar line)).sum) :
    ∀ line ∈ lines, sugar line = line := by
  intro line hline
  by_contra hne
  have hless : weight (sugar line) < weight line := (weight_sugar line).resolve_right hne
  have hle : ∀ line ∈ lines, weight (sugar line) ≤ weight line :=
    fun line _ ↦ weight_le_of_lt_or_eq (weight_sugar line)
  have hsum := List.sum_lt_sum _ _ hle ⟨line, hline, hless⟩
  omega

/-- A text that loses no weight was finished. -/
theorem finished_of_weight_eq (width : Nat) {cs : List Char}
    (h : ∀ line ∈ memberLines cs, ImportsComplete line)
    (hweight : weight (reflow width cs) = weight cs) :
    ∀ line ∈ memberLines cs, finish line = line := by
  -- The layout is as heavy as the text, so neither of the two steps took any weight.
  have hreflow : weight (shortenImports (draft width 0 ((memberLines cs).map sugar))) =
      weight cs := by
    rw [← hweight, draft, ← indentFrom_eq, weight, weight, dropSpacing_reflow]
  have hdraft : weight (draft width 0 ((memberLines cs).map sugar)) =
      ((memberLines cs).map fun line ↦ weight (sugar line)).sum := by
    rw [weight_draft, List.map_map]
    rfl
  have hsum := weight_eq_sum cs
  have hshort := weight_shortenImports (draft width 0 ((memberLines cs).map sugar))
  have hsugar : ∀ line ∈ memberLines cs, sugar line = line := by
    refine sugar_eq_of_sum_le ?_
    rcases hshort with hless | hsame
    · omega
    · rw [hsame] at hreflow
      omega
  have hlines : (memberLines cs).map sugar = memberLines cs :=
    (List.map_congr_left hsugar).trans (List.map_id _)
  rw [hlines] at hreflow hshort
  have hwhole : ∀ line ∈ memberLines cs, Whole line := fun _ ↦ whole_of_mem_memberLines
  have hsame : draft width 0 ((memberLines cs).map shortenImports) =
      draft width 0 (memberLines cs) := by
    rw [← shortenImports_draft width 0 hwhole h]
    refine hshort.resolve_left ?_
    rw [hreflow, weight_draft, ← hsum]
    omega
  have hshortened : ∀ line ∈ (memberLines cs).map shortenImports, Whole line :=
    List.forall_mem_map.2 fun line hline ↦ (hwhole line hline).shortenImports
  have hmap := congrArg memberLines hsame
  rw [memberLines_draft width 0 hwhole, memberLines_draft width 0 hshortened] at hmap
  intro line hline
  rw [finish, hsugar line hline]
  exact List.map_inj_left.1 (hmap.trans (List.map_id _).symm) line hline

/-- **A text is laid out twice with the result of the second layout alone exactly if finishing is
idempotent on each of its lines.** -/
theorem reflow_reflow_iff (first second : Nat) {cs : List Char}
    (h : ∀ line ∈ memberLines cs, ImportsComplete (sugar line)) :
    reflow second (reflow first cs) = reflow second cs ↔
      ∀ line ∈ memberLines cs, finish (finish line) = finish line := by
  have hfinished : (∀ line ∈ finishedLines cs, finish line = line) ↔
      ∀ line ∈ memberLines cs, finish (finish line) = finish line := List.forall_mem_map
  rw [← hfinished]
  constructor
  · intro htwice
    refine (forall_memberLines_reflow first h fun line ↦ finish_of_not_mem).1 ?_
    -- The second layout takes no weight off the first, so it had nothing to finish.
    refine finished_of_weight_eq second (importsComplete_reflow first h) ?_
    rw [htwice, weight_reflow second h, weight_reflow first h]
  · exact reflow_reflow_of_finished first second h

/-- **Laying out is idempotent on a text exactly if finishing is idempotent on each of its lines**,
where the imports of the text are complete on their lines. -/
theorem pretty_idempotent_iff {text : String} {indentation : Int} (hwidth : 1 ≤ indentation)
    (himports : ∀ line ∈ memberLines text.toList, ImportsComplete (sugar line)) :
    pretty (pretty text indentation) indentation = pretty text indentation ↔
      ∀ line ∈ memberLines text.toList, finish (finish line) = finish line := by
  have hpretty : ∀ text, pretty text indentation =
      .ofList (reflow indentation.toNat text.toList) := by
    intro text
    rw [pretty, if_neg (by omega)]
  rw [← reflow_reflow_iff indentation.toNat indentation.toNat himports, hpretty, hpretty text,
    String.toList_ofList, String.ofList_inj]

/-- A type with an optional member, an import and a note. -/
def sampleType : String :=
  "\x7b a: x | undefined; m: typeof import(\"/node_modules/lib\"); n: \x7b ... 3 more; \x7d \x7d"

/-- The sample's layout is not changed by a second run. -/
theorem pretty_idempotent_sample : pretty (pretty sampleType 2) 2 = pretty sampleType 2 := by
  have hlines : ∀ line ∈ memberLines sampleType.toList, '"' ∉ sugar line ∨
      sugar line = 'm' :: ':' :: ' ' :: (importOpening ++ ("/node_modules/lib".toList ++
        (importClosing ++ [';']))) := by
    decide +kernel
  refine (pretty_idempotent_iff (by decide) fun line hline ↦ ?_).2 (by decide +kernel)
  rcases hlines line hline with hquote | himport
  · exact importsComplete_of_not_mem hquote
  · rw [himport]
    exact .char (by decide) (.char (by decide) (.char (by decide)
      (.path (by decide) (importsComplete_of_not_mem (by decide)))))

/-- **Laying out is not idempotent on every text.** Where two blanks stand before the last bar, only
the last `undefined` is cut off at first. -/
theorem pretty_not_idempotent : ¬∀ (text : String) (indentation : Int), 1 ≤ indentation →
    pretty (pretty text indentation) indentation = pretty text indentation := by
  intro h
  have hfirst : pretty "a: x | undefined  | undefined" 2 = "a?: x | undefined" := by decide +kernel
  have hsecond : pretty "a?: x | undefined" 2 = "a?: x" := by decide +kernel
  have htwice := h "a: x | undefined  | undefined" 2 (by decide)
  rw [hfirst, hsecond] at htwice
  exact absurd htwice (by decide)

/-- Neither is it where the module part of a path has a module part of its own. -/
example : pretty "typeof import(\"node_modules/./a\")" 2 = "typeof import(\"./a\")" ∧
    pretty "typeof import(\"./a\")" 2 = "typeof import(\"a\")" := by
  decide +kernel

end TypeLens.Layout
