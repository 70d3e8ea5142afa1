import TypeLens.Layout.Essence
import TypeLens.Proofs.Layout.Closing

/-!
# What layout leaves alone

Blanks and semicolons are *spacing*. Breaking a text, nesting its lines, closing its braces and
dropping its blank lines change nothing but spacing: without it, the text is the same before and
after (`dropSpacing_memberLines`, `dropSpacing_draft`, `dropSpacing_closeBraces`). What is left of a
laid-out text is therefore decided by the two steps that rewrite members and import paths
(`dropSpacing_reflow`).
-/

namespace TypeLens.Layout

open Text

/-! ### Spacing -/

theorem dropSpacing_append (xs ys : List Char) :
    dropSpacing (xs ++ ys) = dropSpacing xs ++ dropSpacing ys :=
  List.filter_append xs ys

theorem dropSpacing_of_blank {ws : List Char} (h : Blank ws) : dropSpacing ws = [] := by
  refine List.filter_eq_nil_iff.2 fun c hc ↦ ?_
  simp [h c hc]

theorem dropSpacing_cons_of_blank {c : Char} (hc : isBlank c = true) (cs : List Char) :
    dropSpacing (c :: cs) = dropSpacing cs := by
  simp [dropSpacing, hc]

/-- Trimming drops nothing but spacing. -/
theorem dropSpacing_trim (cs : List Char) : dropSpacing (trim isBlank cs) = dropSpacing cs := by
  obtain ⟨front, back, hsplit, hfront, hback⟩ := exists_append_trim isBlank cs
  have hall := congrArg dropSpacing hsplit
  rw [dropSpacing_append, dropSpacing_append, dropSpacing_of_blank hfront,
    dropSpacing_of_blank hback, List.nil_append, List.append_nil] at hall
  exact hall.symm

/-! ### Lines -/

/-- Breaking members adds nothing but spacing. -/
theorem dropSpacing_breakMembers (cs : List Char) :
    dropSpacing (breakMembers cs) = dropSpacing cs := by
  induction cs with
  | nil => rfl
  | cons c cs ih =>
    have hhead : dropSpacing (breakMembers [c]) = dropSpacing [c] := by
      rcases eq_or_ne c '{' with rfl | hopen
      · decide
      rcases eq_or_ne c '}' with rfl | hclose
      · decide
      rcases eq_or_ne c ';' with rfl | hsemicolon
      · decide
      · rw [breakMembers_eq_self (by simp [hopen, hclose, hsemicolon])]
    rw [← List.singleton_append, breakMembers_append, dropSpacing_append, hhead, ih,
      ← dropSpacing_append]

theorem lineByLine_dropSpacing : LineByLine dropSpacing where
  newline xs ys := by
    rw [dropSpacing_append, dropSpacing_cons_of_blank (by decide)]
  blank _ := dropSpacing_of_blank

/-- The lines of a text. -/
theorem dropSpacing_memberLines (cs : List Char) :
    (memberLines cs).flatMap dropSpacing = dropSpacing cs := by
  have hlines : ∀ pieces : List (List Char),
      ((pieces.map (trim isBlank)).filter fun line ↦ !line.isEmpty).flatMap dropSpacing =
        pieces.flatMap dropSpacing := by
    intro pieces
    induction pieces with
    | nil => rfl
    | cons piece pieces ih =>
      rw [List.map_cons, List.filter_cons, List.flatMap_cons, ← dropSpacing_trim piece, ← ih]
      split
      · rfl
      · next hempty =>
        have hnil : trim isBlank piece = [] := by simpa using hempty
        rw [hnil]
        rfl
  rw [memberLines, hlines, ← lineByLine_dropSpacing.joinAll, joinAll_splitAll,
    dropSpacing_breakMembers]

/-- Lines that are nested and put under each other. -/
theorem dropSpacing_draft (width depth : Nat) (lines : List (List Char)) :
    dropSpacing (draft width depth lines) = lines.flatMap dropSpacing := by
  rw [draft, lineByLine_dropSpacing.joinAll]
  induction lines generalizing depth with
  | nil => rfl
  | cons line lines ih =>
    rw [nest, List.flatMap_cons, ih, dropSpacing_append,
      dropSpacing_of_blank (blank_replicate_space _), List.nil_append, List.flatMap_cons]

/-! ### Braces -/

/-- Groups agree but for their spacing if their bodies do. -/
theorem dropSpacing_group {before body new behind : List Char}
    (h : dropSpacing body = dropSpacing new) :
    dropSpacing (before ++ '{' :: (body ++ '}' :: behind)) =
      dropSpacing (before ++ '{' :: (new ++ '}' :: behind)) := by
  have hbody : dropSpacing (body ++ '}' :: behind) = dropSpacing (new ++ '}' :: behind) := by
    rw [dropSpacing_append, h, ← dropSpacing_append]
  rw [List.append_cons, dropSpacing_append, hbody, ← dropSpacing_append, ← List.append_cons]

/-- Tightening a group drops nothing but spacing. -/
theorem dropSpacing_tightens {body new : List Char} (h : Tightens body new) :
    dropSpacing body = dropSpacing new := by
  obtain ⟨-, -, last, hlast, rfl⟩ := h
  split
  · next hblank =>
    have hbody : Blank body := List.all_eq_true.1 hblank
    have hend : isBlank last = true := hbody last (List.mem_of_getLast? hlast)
    rw [dropSpacing_of_blank hbody, dropSpacing_cons_of_blank hend]
    rfl
  · exact (dropSpacing_trim body).symm

/-- Words with spacing around them. -/
theorem dropSpacing_spaced {words : List (List Char)} {cs : List Char} (h : Spaced words cs) :
    dropSpacing cs = words.flatMap dropSpacing := by
  induction h with
  | nil hws => exact dropSpacing_of_blank hws
  | cons hws _ ih =>
    rw [dropSpacing_append, dropSpacing_append, dropSpacing_of_blank hws, ih, List.nil_append,
      List.flatMap_cons]

/-- Without its spacing a note is its dots, its count and the word for more. -/
theorem dropSpacing_isNote {count body : List Char} (h : IsNote count body) :
    dropSpacing body = "...".toList ++ dropSpacing count ++ "more".toList := by
  obtain ⟨-, -, last, hlast, hspaced⟩ := h
  have hmore : dropSpacing last = "more".toList := by
    rcases hlast with rfl | rfl
    · decide
    · decide
  have hdots : dropSpacing "...".toList = "...".toList := by decide
  rw [dropSpacing_spaced hspaced, List.flatMap_cons, List.flatMap_cons, List.flatMap_cons, hmore,
    hdots, List.flatMap_nil, List.append_nil, List.append_assoc]

/-- **Closing braces changes nothing but spacing.** -/
theorem dropSpacing_closeBraces (cs : List Char) :
    dropSpacing (closeBraces cs) = dropSpacing cs := by
  -- Each substitution rewrites bodies of groups, and each body keeps what is not spacing.
  rw [closeBraces, matchesGroups_placeholder?.substitute_congr dropSpacing,
    matchesGroups_excessBraces?.substitute_congr dropSpacing,
    matchesGroups_emptyBraces?.substitute_congr dropSpacing]
  · rintro before body - behind ⟨hblank, rfl⟩
    exact dropSpacing_group (dropSpacing_of_blank hblank)
  · rintro before body - behind ⟨count, hnote, rfl⟩
    refine dropSpacing_group ?_
    rw [dropSpacing_isNote hnote, dropSpacing_isNote hnote.restated]
  · exact fun before body new behind hbody ↦ dropSpacing_group (dropSpacing_tightens hbody)

/-! ### Layout -/

/-- **What is left of a laid-out text** are its members and import paths as they are rewritten. -/
theorem dropSpacing_reflow (width : Nat) (cs : List Char) :
    dropSpacing (reflow width cs) =
      dropSpacing (shortenImports (joinAll ['\n'] (indentFrom width 0 (memberLines cs)))) := by
  rw [reflow, lineByLine_dropSpacing.dropBlankLines, dropSpacing_closeBraces]

end TypeLens.Layout
