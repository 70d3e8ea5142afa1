import TypeLens.Proofs.Layout.Note

/-!
# Closing braces

Closing the braces of a text is without effect on how the text is laid out: whether it is done
before or not, breaking, nesting and closing give the same (`closeBraces_draft_closeBraces`). Empty
braces and placeholders keep the lines of a text as they are. Notes do not, but all notes of one
count are closed in the same way (`IsNote.closeBraces_eq`), and the draft of a text with a note has
a note of the same count in the same place (`exists_draft_group`).

The lines that a note may change hold nothing but dots, digits, `more` and a semicolon, so any
property that such lines have anyway can be read off a text before or after closing its braces
(`forall_memberLines_closeBraces`).
-/

namespace TypeLens.Layout

open Text

/-! ### Notes in a text -/

namespace IsNote

variable {count body : List Char}

/-- A note of what was left out is not blank. -/
theorem not_blank (h : IsNote count body) : ¬Blank body := by
  obtain ⟨-, -, last, -, hspaced⟩ := h
  obtain ⟨ws, rest, -, -, rfl⟩ := hspaced.exists_of_cons
  intro hblank
  have hdot := hblank '.' (by simp)
  exact absurd hdot (by decide)

/-- A note has a line. -/
theorem memberLines_ne_nil (h : IsNote count body) : memberLines body ≠ [] := by
  obtain ⟨hne, hdigits, last, hlast, hspaced⟩ := h
  obtain ⟨ws, rest, hws, -, rfl⟩ := hspaced.exists_of_cons
  have hdots : Solid "...".toList := IsNote.solid hne hdigits hlast _ List.mem_cons_self
  rw [memberLines_blank_append hws]
  rcases memberLines_word_append hdots rest with hlines | ⟨_, _, _, -, -, hlines⟩
  all_goals
    rw [hlines]
    exact List.cons_ne_nil _ _

/-- The depth is the same before and behind a note. -/
theorem foldl_nextDepth (h : IsNote count body) (depth : Nat) :
    (memberLines body).foldl nextDepth depth = depth := by
  have hlines : ∀ line ∈ memberLines body, ∀ depth, nextDepth depth line = depth := by
    intro line hline depth
    have hopen : '{' ∉ line := fun hc ↦ h.open_not_mem (mem_of_mem_memberLines hline hc)
    have hclose : '}' ∉ line := fun hc ↦ h.close_not_mem (mem_of_mem_memberLines hline hc)
    simp [nextDepth, ownDepth, hopen, hclose]
  generalize memberLines body = lines at hlines
  induction lines generalizing depth with
  | nil => rfl
  | cons line lines ih =>
    obtain ⟨hline, hrest⟩ := List.forall_mem_cons.1 hlines
    rw [List.foldl_cons, hline, ih depth hrest]

/-- A note as it is written is a note. -/
theorem written (hne : count ≠ []) (hdigits : ∀ c ∈ count, isDigit c = true) :
    IsNote count (" ... ".toList ++ count ++ " more ".toList) := by
  have hspace : Blank [' '] := by decide
  have hspaced : Spaced ["...".toList, count, "more".toList]
      ([' '] ++ ("...".toList ++ ([' '] ++ (count ++ ([' '] ++ ("more".toList ++ [' '])))))) :=
    .cons hspace (.cons hspace (.cons hspace (.nil hspace)))
  exact ⟨hne, hdigits, _, .inl rfl, by simpa using hspaced⟩

theorem restated (h : IsNote count body) :
    IsNote count (" ... ".toList ++ count ++ " more ".toList) :=
  written h.1 h.2.1

/-- **All notes of one count are closed in the same way.** -/
theorem closeBraces_eq (h : IsNote count body) (before behind : List Char) :
    closeBraces (before ++ '{' :: (body ++ '}' :: behind)) =
      substitute placeholder? (substitute excessBraces? (substitute emptyBraces? before) ++
        '{' :: (" ... ".toList ++ count ++ " more ".toList ++
          '}' :: substitute excessBraces? (substitute emptyBraces? behind))) := by
  have hempty : substitute emptyBraces? (before ++ '{' :: (body ++ '}' :: behind)) =
      substitute emptyBraces? before ++ '{' :: (body ++ '}' :: substitute emptyBraces? behind) := by
    rw [matchesGroups_emptyBraces?.substitute_append_open,
      matchesGroups_emptyBraces?.substitute_group_of_not h.open_not_mem h.close_not_mem
        fun new hnew ↦ h.not_blank hnew.1]
  have hgroup := matchesGroups_excessBraces?.substitute_group ⟨count, h, rfl⟩
    (substitute emptyBraces? behind)
  rw [List.nil_append, List.nil_append] at hgroup
  rw [closeBraces, hempty, matchesGroups_excessBraces?.substitute_append_open, hgroup]

end IsNote

/-- The draft of a text with braces around a note, with the draft of the note in it. -/
theorem exists_draft_group (width depth : Nat) (before behind : List Char) :
    ∃ front inner back rest, Blank back ∧ ∀ {count body}, IsNote count body →
      draft width depth (memberLines (before ++ '{' :: (body ++ '}' :: behind))) =
        front ++ '{' :: (['\n'] ++ draft width inner (memberLines body) ++ (['\n'] ++ back) ++
          '}' :: rest) := by
  obtain ⟨lines, line, hopen⟩ := memberLines_concat_open before
  obtain ⟨line', lines', hclose⟩ := memberLines_cons_close behind
  obtain ⟨front, hfront⟩ := exists_draft_concat width depth lines (line ++ ['{'])
  obtain ⟨inner, hinner⟩ : ∃ inner, (lines ++ [line ++ ['{']]).foldl nextDepth depth = inner :=
    ⟨_, rfl⟩
  obtain ⟨back, rest, hback, hdraft⟩ : ∃ back rest, Blank back ∧
      draft width inner (('}' :: line') :: lines') = back ++ '}' :: rest :=
    ⟨_, _, blank_replicate_space _, draft_cons width inner ('}' :: line') lines'⟩
  refine ⟨front ++ line, inner, back, rest, hback, fun {count body} h ↦ ?_⟩
  rw [memberLines_group, hopen, hclose, List.append_assoc,
    draft_append width depth (by simp) (by simp), hfront, hinner,
    draft_append width inner h.memberLines_ne_nil (by simp), h.foldl_nextDepth, hdraft]
  simp

/-- A note in a text may be restated before the text is laid out. -/
theorem closeBraces_draft_note (width : Nat) {count body new : List Char} (h : IsNote count body)
    (hnew : IsNote count new) (before behind : List Char) :
    closeBraces (draft width 0 (memberLines (before ++ '{' :: (body ++ '}' :: behind)))) =
      closeBraces (draft width 0 (memberLines (before ++ '{' :: (new ++ '}' :: behind)))) := by
  obtain ⟨front, inner, back, rest, hback, hdraft⟩ := exists_draft_group width 0 before behind
  have hfeed : Blank ['\n'] := by decide
  rw [hdraft h, hdraft hnew,
    (h.draft width inner hfeed (hfeed.append hback)).closeBraces_eq,
    (hnew.draft width inner hfeed (hfeed.append hback)).closeBraces_eq]

/-! ### Closing before laying out -/

/-- **Closing the braces of a text is without effect on its layout.** -/
theorem closeBraces_draft_closeBraces (width : Nat) (cs : List Char) :
    closeBraces (draft width 0 (memberLines (closeBraces cs))) =
      closeBraces (draft width 0 (memberLines cs)) := by
  have hexcess := matchesGroups_excessBraces?.substitute_congr
    (fun cs ↦ closeBraces (draft width 0 (memberLines cs))) ?_ (substitute emptyBraces? cs)
  · have hlines : memberLines (closeBraces cs) =
        memberLines (substitute excessBraces? (substitute emptyBraces? cs)) :=
      memberLines_placeholder _
    rw [hlines, hexcess, memberLines_emptyBraces]
  · rintro before body - behind ⟨count, hnote, rfl⟩
    exact closeBraces_draft_note width hnote hnote.restated before behind

/-- A property that every line without a colon and without quotes has. -/
theorem forall_memberLines_closeBraces {P : List Char → Prop}
    (hP : ∀ line, ':' ∉ line → '"' ∉ line → P line) (cs : List Char) :
    (∀ line ∈ memberLines (closeBraces cs), P line) ↔ ∀ line ∈ memberLines cs, P line := by
  have hnote : ∀ {count body}, IsNote count body → ∀ line ∈ memberLines body, P line := by
    intro count body h line hline
    refine hP line (fun hc ↦ ?_) fun hc ↦ ?_
    · exact h.not_mem (by decide) (by decide) (by decide) (mem_of_mem_memberLines hline hc)
    · exact h.not_mem (by decide) (by decide) (by decide) (mem_of_mem_memberLines hline hc)
  have hexcess := matchesGroups_excessBraces?.substitute_congr
    (fun cs ↦ ∀ line ∈ memberLines cs, P line) ?_ (substitute emptyBraces? cs)
  · rw [memberLines_emptyBraces] at hexcess
    rw [closeBraces, memberLines_placeholder]
    exact Iff.of_eq hexcess
  · rintro before body - behind ⟨count, h, rfl⟩
    simp only [memberLines_group, List.forall_mem_append]
    rw [eq_true (hnote h), eq_true (hnote h.restated)]

end TypeLens.Layout
