import TypeLens.Proofs.Layout.Stretch

/-!
# Texts that are only reflowed

A text that mentions neither `undefined` nor an import is *plain*: no line of it is rewritten
(`Plain.sugar_eq`, `Plain.finish_eq`), so nothing but spacing changes when it is laid out. Two
things follow.

* The indentation of a plain text that was laid out before does not matter: laying it out again with
  another indentation gives what the text itself gives with it (`pretty_pretty`).
* Without blanks and semicolons a plain text is the same before and after, so a declaration and its
  layout have the same essence (`pretty_keeps_content`).
-/

namespace TypeLens.Layout

open Text

/-- A text that mentions neither `undefined` nor an import. -/
structure Plain (cs : List Char) : Prop where
  undefined : ¬"undefined".toList <:+: cs
  imports : ¬importOpening <:+: cs

namespace Plain

variable {cs : List Char}

theorem of_infix {word : List Char} (h : Plain cs) (hword : word <:+: cs) : Plain word where
  undefined hundefined := h.undefined (hundefined.trans hword)
  imports himport := h.imports (himport.trans hword)

theorem sugar_eq (h : Plain cs) : sugar cs = cs :=
  sugar_of_no_undefined h.undefined

theorem finish_eq (h : Plain cs) : finish cs = cs := by
  rw [finish, h.sugar_eq, shortenImports_of_no_import h.imports]

/-- The lines of a plain text are plain. -/
theorem line (h : Plain cs) {line : List Char} (hline : line ∈ memberLines cs) : Plain line :=
  h.of_infix (infix_of_mem_memberLines hline)

theorem map_sugar_memberLines (h : Plain cs) : (memberLines cs).map sugar = memberLines cs :=
  (List.map_congr_left fun _ hline ↦ (h.line hline).sugar_eq).trans (List.map_id _)

theorem finishedLines_eq (h : Plain cs) : finishedLines cs = memberLines cs :=
  (List.map_congr_left fun _ hline ↦ (h.line hline).finish_eq).trans (List.map_id _)

/-- **A plain text is laid out the same, whether it was laid out before or not.** -/
theorem reflow_reflow (h : Plain cs) (first second : Nat) :
    reflow second (reflow first cs) = reflow second cs := by
  refine reflow_reflow_of_finished first second (fun line hline ↦ ?_) fun line hline ↦ ?_
  · have hplain := h.line hline
    rw [hplain.sugar_eq]
    exact importsComplete_of_no_import hplain.imports
  · rw [h.finishedLines_eq] at hline
    exact (h.line hline).finish_eq

/-- **Only spacing changes when a plain text is laid out.** -/
theorem dropSpacing_reflow_eq (h : Plain cs) (width : Nat) :
    dropSpacing (reflow width cs) = dropSpacing cs := by
  rw [reflow_of_no_import width h.imports, lineByLine_dropSpacing.dropBlankLines,
    dropSpacing_closeBraces, dropSpacing_draft, h.map_sugar_memberLines, dropSpacing_memberLines]

end Plain

/-! ### Laying out again -/

/-- **Laying out again with another indentation loses nothing**, if the text mentions neither
`undefined` nor an import. -/
theorem pretty_pretty {text : String} {first second : Int} (hfirst : 1 ≤ first)
    (hsecond : 1 ≤ second) (hundefined : ¬"undefined".toList <:+: text.toList)
    (himport : ¬"typeof import(\"".toList <:+: text.toList) :
    pretty (pretty text first) second = pretty text second := by
  rw [toList_importOpening] at himport
  have hplain : Plain text.toList := ⟨hundefined, himport⟩
  rw [← String.toList_inj, toList_pretty hsecond, toList_pretty hfirst, toList_pretty hsecond]
  exact hplain.reflow_reflow first.toNat second.toNat

/-- A type with empty braces, a note over two lines, a placeholder and a brace too many. -/
def looseType : String :=
  "\x7b a: \x7b \x7d; n: \x7b ...\n 3 more; \x7d; k: x$\x7b y \x7d; \x7d \x7d z"

theorem pretty_pretty_sample : pretty (pretty looseType 1) 4 = pretty looseType 4 :=
  pretty_pretty (by decide) (by decide) (by decide +kernel) (by decide +kernel)

/-! ### The essence of a layout -/

theorem dropKeyword_type (cs : List Char) : dropKeyword ("type ".toList ++ cs) = cs := by
  have htake : ("type ".toList ++ cs).takeWhile isLatinLower = "type".toList := rfl
  have hdrop : ("type ".toList ++ cs).dropWhile isLatinLower = ' ' :: cs := rfl
  rw [dropKeyword, htake, hdrop]
  rfl

/-- A declaration that starts with a brace starts with no keyword. -/
theorem dropKeyword_of_open {cs : List Char} (h : cs.head? = some '{') : dropKeyword cs = cs := by
  obtain ⟨rest, rfl⟩ := List.head?_eq_some_iff.1 h
  rfl

/-- **Layout only moves spacing**, if the text mentions neither `undefined` nor an import: without
blanks and semicolons the text is the same before and after. A declaration of the layout therefore
has the essence of the text. -/
theorem pretty_keeps_content {text : String} {indentation : Int} (hwidth : 1 ≤ indentation)
    (hundefined : ¬"undefined".toList <:+: text.toList)
    (himport : ¬"typeof import(\"".toList <:+: text.toList) :
    dropSpacing (pretty text indentation).toList = dropSpacing text.toList ∧
      (text.toList.head? = some '{' →
        essence ("type " ++ pretty text indentation) = essence text) := by
  rw [toList_importOpening] at himport
  have hplain : Plain text.toList := ⟨hundefined, himport⟩
  have hcontent : dropSpacing (pretty text indentation).toList = dropSpacing text.toList := by
    rw [toList_pretty hwidth]
    exact hplain.dropSpacing_reflow_eq _
  refine ⟨hcontent, fun hopen ↦ ?_⟩
  rw [essence, essence, String.toList_append, essenceChars, essenceChars, dropKeyword_type,
    dropKeyword_of_open hopen, hcontent]

theorem pretty_keeps_content_sample :
    dropSpacing (pretty looseType 2).toList = dropSpacing looseType.toList ∧
      essence ("type " ++ pretty looseType 2) = essence looseType := by
  have hundefined : ¬"undefined".toList <:+: looseType.toList := by decide +kernel
  obtain ⟨hcontent, hessence⟩ :=
    pretty_keeps_content (by decide : (1 : Int) ≤ 2) hundefined (by decide +kernel)
  exact ⟨hcontent, hessence (by decide +kernel)⟩

end TypeLens.Layout
