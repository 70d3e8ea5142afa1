import TypeLens.Layout
import TypeLens.Proofs.Text.Blank
import TypeLens.Proofs.Text.Scan

/-!
# The lines of a type

Laying out a type starts by breaking it into lines. The lines of a text are those of its parts,
wherever the text is broken: at a line feed, behind `{` and `;` and before `}`
(`memberLines_append_break` and its like), and blanks at either end of a text do not matter. So
braces cut a text into three parts that are broken on their own (`memberLines_group`), and blank
lines are without effect (`memberLines_dropBlankLines`).
-/

namespace TypeLens.Layout

open Text

/-- A text of blanks only. -/
def Blank (cs : List Char) : Prop :=
  ∀ c ∈ cs, isBlank c = true

instance : DecidablePred Blank :=
  fun _ ↦ decidable_of_iff _ List.all_eq_true

theorem blank_nil : Blank [] := by
  simp [Blank]

theorem Blank.not_mem {ws : List Char} (h : Blank ws) {c : Char} (hc : isBlank c = false) :
    c ∉ ws := by
  intro hmem
  simp [h c hmem] at hc

/-! ### Lines without breaking -/

/-- The lines of a text, without blanks at their ends and without empty lines. -/
def trimmedLines (cs : List Char) : List (List Char) :=
  ((splitAll '\n' cs).map (trim isBlank)).filter fun line ↦ !line.isEmpty

theorem trimmedLines_append_newline (xs ys : List Char) :
    trimmedLines (xs ++ '\n' :: ys) = trimmedLines xs ++ trimmedLines ys := by
  rw [trimmedLines, splitAll_append_cons, List.map_append, List.filter_append]
  rfl

theorem trimmedLines_of_not_mem {cs : List Char} (h : '\n' ∉ cs) :
    trimmedLines cs = if trim isBlank cs = [] then [] else [trim isBlank cs] := by
  rw [trimmedLines, splitAll_of_not_mem h]
  split <;> simp_all

/-- A blank text has no lines. -/
theorem trimmedLines_of_blank {ws : List Char} (h : Blank ws) : trimmedLines ws = [] := by
  induction ws using pieces_induction '\n' with
  | last piece hpiece => rw [trimmedLines_of_not_mem hpiece, if_pos (trim_of_forall h)]
  | cons piece rest hpiece ih =>
    obtain ⟨hfront, hback⟩ := List.forall_mem_append.1 h
    rw [trimmedLines_append_newline, trimmedLines_of_not_mem hpiece,
      if_pos (trim_of_forall hfront), ih fun c hc ↦ hback c (List.mem_cons_of_mem _ hc)]
    rfl

/-- A blank start adds no line. -/
theorem trimmedLines_blank_append {ws : List Char} (h : Blank ws) (cs : List Char) :
    trimmedLines (ws ++ cs) = trimmedLines cs := by
  induction ws using pieces_induction '\n' with
  | last piece hpiece =>
    -- The blanks stand before the first line of the text.
    induction cs using pieces_induction '\n' with
    | last line hline =>
      rw [trimmedLines_of_not_mem hline, ← trim_append_left h line]
      exact trimmedLines_of_not_mem (by simp [hpiece, hline])
    | cons line rest hline _ =>
      rw [← List.append_assoc, trimmedLines_append_newline, trimmedLines_append_newline,
        trimmedLines_of_not_mem (by simp [hpiece, hline]), trim_append_left h,
        trimmedLines_of_not_mem hline]
  | cons piece rest hpiece ih =>
    obtain ⟨hfront, hback⟩ := List.forall_mem_append.1 h
    rw [List.append_assoc, List.cons_append, trimmedLines_append_newline,
      trimmedLines_of_blank hfront, ih fun c hc ↦ hback c (List.mem_cons_of_mem _ hc)]
    rfl

/-- A blank end adds no line. -/
theorem trimmedLines_append_blank {ws : List Char} (h : Blank ws) (cs : List Char) :
    trimmedLines (cs ++ ws) = trimmedLines cs := by
  induction cs using pieces_induction '\n' with
  | last line hline =>
    -- The blanks stand behind the last line of the text.
    induction ws using pieces_induction '\n' with
    | last piece hpiece =>
      rw [trimmedLines_of_not_mem hline, ← trim_append_right h line]
      exact trimmedLines_of_not_mem (by simp [hpiece, hline])
    | cons piece rest hpiece _ =>
      obtain ⟨hfront, hback⟩ := List.forall_mem_append.1 h
      have hrest : Blank rest := fun c hc ↦ hback c (List.mem_cons_of_mem _ hc)
      rw [← List.append_assoc, trimmedLines_append_newline, trimmedLines_of_blank hrest,
        List.append_nil, trimmedLines_of_not_mem (by simp [hpiece, hline]),
        trim_append_right hfront, trimmedLines_of_not_mem hline]
  | cons line rest hline ih =>
    rw [List.append_assoc, List.cons_append, trimmedLines_append_newline, ih,
      trimmedLines_append_newline]

/-- The first line of a text that starts without a blank. What is put in front of such a text on its
first line is kept with its blanks. -/
theorem trimmedLines_cons {d : Char} (hd : isBlank d = false) (cs : List Char) :
    ∃ line rest, trimmedLines (d :: cs) = (d :: line) :: rest ∧
      ∀ c front, isBlank c = false → '\n' ∉ front →
        trimmedLines (c :: (front ++ d :: cs)) = (c :: (front ++ d :: line)) :: rest := by
  have hfeed : ∀ {c}, isBlank c = false → '\n' ≠ c := by
    rintro c hc rfl
    exact absurd hc (by decide)
  induction cs using pieces_induction '\n' with
  | last piece hpiece =>
    refine ⟨trimEnd isBlank piece, [], ?_, fun c front hc hfront ↦ ?_⟩
    · rw [trimmedLines_of_not_mem (by simp [hfeed hd, hpiece]), trim_cons hd, if_neg (by simp)]
    · rw [trimmedLines_of_not_mem (by simp [hfeed hd, hfeed hc, hfront, hpiece]), trim_cons hc,
        trimEnd_append_cons hd, if_neg (by simp)]
  | cons piece rest hpiece _ =>
    refine ⟨trimEnd isBlank piece, trimmedLines rest, ?_, fun c front hc hfront ↦ ?_⟩
    · rw [← List.cons_append, trimmedLines_append_newline,
        trimmedLines_of_not_mem (by simp [hfeed hd, hpiece]), trim_cons hd, if_neg (by simp)]
      rfl
    · have hsplit : c :: (front ++ d :: (piece ++ '\n' :: rest)) =
          c :: (front ++ d :: piece) ++ '\n' :: rest := by simp
      rw [hsplit, trimmedLines_append_newline,
        trimmedLines_of_not_mem (by simp [hfeed hd, hfeed hc, hfront, hpiece]), trim_cons hc,
        trimEnd_append_cons hd, if_neg (by simp)]
      rfl

/-- The last line of a text that ends without a blank. -/
theorem trimmedLines_concat {d : Char} (hd : isBlank d = false) (cs : List Char) :
    ∃ lines line, trimmedLines (cs ++ [d]) = lines ++ [line ++ [d]] := by
  have hfeed : '\n' ≠ d := by
    rintro rfl
    exact absurd hd (by decide)
  induction cs using pieces_induction '\n' with
  | last piece hpiece =>
    refine ⟨[], piece.dropWhile isBlank, ?_⟩
    rw [trimmedLines_of_not_mem (by simp [hfeed, hpiece]), trim_concat hd, if_neg (by simp),
      List.nil_append]
  | cons piece rest hpiece ih =>
    obtain ⟨lines, line, hrest⟩ := ih
    refine ⟨trimmedLines piece ++ lines, line, ?_⟩
    rw [List.append_assoc, List.cons_append, trimmedLines_append_newline, hrest, List.append_assoc]

/-! ### Line by line -/

/-- A function that goes through a text line by line and finds nothing in blanks. -/
structure LineByLine {β : Type} (f : List Char → List β) : Prop where
  newline : ∀ xs ys, f (xs ++ '\n' :: ys) = f xs ++ f ys
  blank : ∀ ws, Blank ws → f ws = []

namespace LineByLine

variable {β : Type} {f : List Char → List β}

/-- What goes line by line goes piece by piece over joined pieces. -/
theorem joinAll (h : LineByLine f) (pieces : List (List Char)) :
    f (joinAll ['\n'] pieces) = pieces.flatMap f := by
  induction pieces with
  | nil => exact h.blank [] blank_nil
  | cons piece pieces ih =>
    rcases hrest : pieces with - | ⟨next, rest⟩
    · simp [Text.joinAll]
    · rw [← hrest, joinAll_cons piece (by simp [hrest]), List.append_assoc, List.singleton_append,
        h.newline, ih, List.flatMap_cons]

/-- What goes line by line does not see line feeds at the end. -/
theorem trimEnd (h : LineByLine f) (cs : List Char) : f (trimEnd (· == '\n') cs) = f cs := by
  obtain ⟨feeds, hcs, hfeeds⟩ := exists_append_trimEnd (· == '\n') cs
  have hblank : Blank feeds := by
    intro c hc
    rw [beq_iff_eq.1 (hfeeds c hc)]
    decide
  rcases feeds with - | ⟨c, feeds⟩
  · rw [List.append_nil] at hcs
    rw [← hcs]
  · have hc : c = '\n' := beq_iff_eq.1 (hfeeds c List.mem_cons_self)
    have hrest : f feeds = [] := h.blank feeds fun d hd ↦ hblank d (List.mem_cons_of_mem _ hd)
    have hall := congrArg f hcs
    rw [hc, h.newline, hrest, List.append_nil] at hall
    exact hall.symm

/-- Dropping blank lines does not matter. -/
theorem dropBlankLines (h : LineByLine f) (cs : List Char) : f (dropBlankLines cs) = f cs := by
  have hpieces : ∀ pieces : List (List Char),
      (pieces.filter fun line ↦ !line.all isBlank).flatMap f = pieces.flatMap f := by
    intro pieces
    induction pieces with
    | nil => rfl
    | cons piece pieces ih =>
      by_cases hblank : piece.all isBlank = true
      · have hnone := h.blank piece (List.all_eq_true.1 hblank)
        simp [hblank, ih, hnone]
      · simp [hblank, ih]
  rw [Layout.dropBlankLines, h.trimEnd, h.joinAll, hpieces, ← h.joinAll, joinAll_splitAll]

end LineByLine

/-! ### Breaking -/

theorem breakMembers_append (xs ys : List Char) :
    breakMembers (xs ++ ys) = breakMembers xs ++ breakMembers ys :=
  List.flatMap_append

/-- Text without breaking characters is left alone. -/
theorem breakMembers_eq_self {cs : List Char} (h : ∀ c ∈ cs, c ≠ '{' ∧ c ≠ '}' ∧ c ≠ ';') :
    breakMembers cs = cs := by
  induction cs with
  | nil => rfl
  | cons c cs ih =>
    obtain ⟨⟨ho, hc, hs⟩, hcs⟩ := List.forall_mem_cons.1 h
    have hcs' : breakMembers cs = cs := ih hcs
    rw [← List.singleton_append, breakMembers_append, hcs']
    simp [breakMembers, ho, hc, hs]

/-- Breaking never puts a line feed before a character other than a closing brace. -/
theorem breakMembers_cons {c : Char} (hc : c ≠ '}') (cs : List Char) :
    ∃ rest, breakMembers (c :: cs) = c :: rest := by
  rw [breakMembers, List.flatMap_cons]
  split
  · next hopen => exact ⟨_, by rw [hopen]; rfl⟩
  · split
    · next hsemicolon => exact ⟨_, by rw [hsemicolon]; rfl⟩
    · exact ⟨_, rfl⟩

theorem breakMembers_of_blank {ws : List Char} (h : Blank ws) : breakMembers ws = ws := by
  refine breakMembers_eq_self fun c hc ↦ ⟨?_, ?_, ?_⟩
  all_goals
    rintro rfl
    exact h.not_mem (by decide) hc

theorem memberLines_eq (cs : List Char) : memberLines cs = trimmedLines (breakMembers cs) :=
  rfl

/-- A text is broken at a line feed. -/
theorem memberLines_append_newline (xs ys : List Char) :
    memberLines (xs ++ '\n' :: ys) = memberLines xs ++ memberLines ys := by
  rw [memberLines_eq, breakMembers_append]
  exact trimmedLines_append_newline _ _

/-- A text is broken behind an opening brace and behind a semicolon. -/
theorem memberLines_append_break {c : Char} (hc : c = '{' ∨ c = ';') (xs ys : List Char) :
    memberLines (xs ++ c :: ys) = memberLines (xs ++ [c]) ++ memberLines ys := by
  have hbreak : ∀ zs, memberLines (xs ++ c :: zs) =
      trimmedLines (breakMembers xs ++ [c]) ++ memberLines zs := by
    intro zs
    rw [memberLines_eq, memberLines_eq, breakMembers_append, ← trimmedLines_append_newline,
      List.append_assoc]
    rcases hc with rfl | rfl <;> rfl
  rw [hbreak, hbreak []]
  simp [memberLines_eq, breakMembers, trimmedLines_of_blank blank_nil]

/-- A text is broken before a closing brace. -/
theorem memberLines_append_close (xs ys : List Char) :
    memberLines (xs ++ '}' :: ys) = memberLines xs ++ memberLines ('}' :: ys) := by
  have hbreak : ∀ zs, memberLines (zs ++ '}' :: ys) =
      memberLines zs ++ trimmedLines ('}' :: breakMembers ys) := by
    intro zs
    rw [memberLines_eq, memberLines_eq, breakMembers_append, ← trimmedLines_append_newline]
    rfl
  rw [hbreak, ← List.nil_append ('}' :: ys), hbreak []]
  simp [memberLines_eq, breakMembers, trimmedLines_of_blank blank_nil]

/-- The last line up to an opening brace ends with it. -/
theorem memberLines_concat_open (cs : List Char) :
    ∃ lines line, memberLines (cs ++ ['{']) = lines ++ [line ++ ['{']] := by
  have hbreak : breakMembers (cs ++ ['{']) = breakMembers cs ++ ['{'] ++ ['\n'] := by
    rw [breakMembers_append, List.append_assoc]
    rfl
  rw [memberLines_eq, hbreak, trimmedLines_append_blank (by decide)]
  exact trimmedLines_concat (by decide) _

/-- The first line from a closing brace on starts with it. -/
theorem memberLines_cons_close (cs : List Char) :
    ∃ line rest, memberLines ('}' :: cs) = ('}' :: line) :: rest := by
  have hbreak : breakMembers ('}' :: cs) = ['\n'] ++ '}' :: breakMembers cs := rfl
  rw [memberLines_eq, hbreak, trimmedLines_blank_append (by decide)]
  obtain ⟨line, rest, hlines, -⟩ := trimmedLines_cons (by decide : isBlank '}' = false)
    (breakMembers cs)
  exact ⟨line, rest, hlines⟩

theorem memberLines_of_blank {ws : List Char} (h : Blank ws) : memberLines ws = [] := by
  rw [memberLines_eq, breakMembers_of_blank h, trimmedLines_of_blank h]

theorem memberLines_blank_append {ws : List Char} (h : Blank ws) (cs : List Char) :
    memberLines (ws ++ cs) = memberLines cs := by
  rw [memberLines_eq, breakMembers_append, breakMembers_of_blank h, trimmedLines_blank_append h,
    memberLines_eq]

theorem memberLines_append_blank {ws : List Char} (h : Blank ws) (cs : List Char) :
    memberLines (cs ++ ws) = memberLines cs := by
  rw [memberLines_eq, breakMembers_append, breakMembers_of_blank h, trimmedLines_append_blank h,
    memberLines_eq]

/-- The characters of a line come from the text. -/
theorem mem_of_mem_memberLines {cs line : List Char} {c : Char} (hline : line ∈ memberLines cs)
    (hc : c ∈ line) : c ∈ cs := by
  obtain ⟨hmem, -⟩ := List.mem_filter.1 hline
  obtain ⟨piece, hpiece, rfl⟩ := List.mem_map.1 hmem
  obtain ⟨front, back, hsplit, -, -⟩ := exists_append_trim isBlank piece
  have hcpiece : c ∈ piece := by
    rw [hsplit]
    simp [hc]
  -- Breaking brings line feeds only, and no piece between line feeds has one.
  have hfeed : c ≠ '\n' := fun e ↦ not_mem_of_mem_splitAll hpiece (e ▸ hcpiece)
  have hbroken : c ∈ breakMembers cs := mem_of_mem_splitAll hpiece hcpiece
  obtain ⟨d, hd, hcd⟩ := List.mem_flatMap.1 hbroken
  have hsame : c = d := by
    split_ifs at hcd with hopen hclose hsemicolon
    · simpa [hfeed, hopen] using hcd
    · simpa [hfeed, hclose] using hcd
    · simpa [hfeed, hsemicolon] using hcd
    · simpa using hcd
  exact hsame ▸ hd

/-- What stands between braces is broken on its own. -/
theorem memberLines_group (before body behind : List Char) :
    memberLines (before ++ '{' :: (body ++ '}' :: behind)) =
      memberLines (before ++ ['{']) ++ memberLines body ++ memberLines ('}' :: behind) := by
  rw [memberLines_append_break (.inl rfl), memberLines_append_close, List.append_assoc]

/-- Lines of a text are broken one by one. -/
theorem lineByLine_memberLines : LineByLine memberLines where
  newline := memberLines_append_newline
  blank _ := memberLines_of_blank

/-- Blank lines do not matter. -/
theorem memberLines_dropBlankLines (cs : List Char) :
    memberLines (dropBlankLines cs) = memberLines cs :=
  lineByLine_memberLines.dropBlankLines cs

end TypeLens.Layout
