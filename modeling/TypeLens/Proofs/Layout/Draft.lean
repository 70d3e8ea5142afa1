import TypeLens.Proofs.Layout.Lines

/-!
# Whole lines and drafts

A line that comes out of breaking a text is *whole*: breaking it once more leaves it as it is
(`whole_of_mem_memberLines`, `memberLines_of_whole`). A closing brace can only stand at its start,
and an opening brace or a semicolon only at its end.

A *draft* is the layout of whole lines before any brace is closed again: the lines under each
other, each indented by its depth of open braces. Indentation is blank, so the lines of a draft are
read off it again, whatever the width (`memberLines_draft`).
-/

namespace TypeLens.Layout

open Text

/-! ### Whole lines -/

/-- A piece of text in which no line ends but at its own ends. -/
structure Unbroken (piece : List Char) : Prop where
  /-- A closing brace stands at the start. -/
  close : '}' ∉ piece.tail
  /-- An opening brace and a semicolon stand at the end. -/
  inner : ∀ c ∈ piece.dropLast, c ≠ '{' ∧ c ≠ ';'

/-- A line that breaking leaves as it is. -/
structure Whole (line : List Char) : Prop extends Unbroken line where
  /-- There is no line feed in it. -/
  newline : '\n' ∉ line
  /-- It is not empty. -/
  ne_nil : line ≠ []
  /-- It has no blanks at its ends. -/
  trimmed : trim isBlank line = line

/-- A character behind the first one of a piece stands behind the first one of the whole. -/
theorem mem_tail_append_append (front back : List Char) {c : Char} {cs : List Char}
    (h : c ∈ cs.tail) : c ∈ (front ++ cs ++ back).tail := by
  cases front with
  | nil =>
    cases cs with
    | nil => simp at h
    | cons => exact List.mem_append_left _ h
  | cons => exact List.mem_append_left _ (List.mem_append_right _ (List.mem_of_mem_tail h))

/-- A character before the last one of a piece stands before the last one of the whole. -/
theorem mem_dropLast_append_append (front back : List Char) {c : Char} {cs : List Char}
    (h : c ∈ cs.dropLast) : c ∈ (front ++ cs ++ back).dropLast := by
  have hcs : cs ≠ [] := by
    rintro rfl
    simp at h
  rcases eq_or_ne back [] with rfl | hback
  · rw [List.append_nil, List.dropLast_append_of_ne_nil hcs]
    exact List.mem_append_right _ h
  · rw [List.dropLast_append_of_ne_nil hback]
    exact List.mem_append_left _ (List.mem_append_right _ (List.dropLast_subset _ h))

/-- What is cut out of an unbroken piece is unbroken. -/
theorem Unbroken.cut (front back : List Char) {cs : List Char}
    (h : Unbroken (front ++ cs ++ back)) : Unbroken cs where
  close hc := h.close (mem_tail_append_append front back hc)
  inner c hc := h.inner c (mem_dropLast_append_append front back hc)

theorem unbroken_nil : Unbroken [] :=
  ⟨by simp, by simp⟩

/-- A piece grows at its start by a character at which no line ends. -/
theorem Unbroken.cons {c : Char} {piece : List Char} (hbrace : '}' ∉ piece) (h : Unbroken piece)
    (hc : c ≠ '{' ∧ c ≠ ';') : Unbroken (c :: piece) where
  close := hbrace
  inner := by
    cases piece with
    | nil => simp
    | cons => exact List.forall_mem_cons.2 ⟨hc, h.inner⟩

/-- The pieces between the line feeds of a broken text are unbroken. -/
theorem unbroken_of_mem_splitAll {cs piece : List Char}
    (h : piece ∈ splitAll '\n' (breakMembers cs)) : Unbroken piece := by
  -- A closing brace always comes behind a line feed, so the first piece never has one.
  suffices hfirst : ∃ first rest, splitAll '\n' (breakMembers cs) = first :: rest ∧
      '}' ∉ first ∧ ∀ piece ∈ first :: rest, Unbroken piece by
    obtain ⟨first, rest, hsplit, -, hall⟩ := hfirst
    exact hall piece (hsplit ▸ h)
  clear h
  induction cs with
  | nil => exact ⟨[], [], rfl, by simp, by simpa using unbroken_nil⟩
  | cons c cs ih =>
    obtain ⟨first, rest, hsplit, hbrace, hall⟩ := ih
    obtain ⟨hfirst, hrest⟩ := List.forall_mem_cons.1 hall
    have hfeed : splitAll '\n' ('\n' :: breakMembers cs) = [] :: first :: rest := by
      rw [splitAll_cons_self, hsplit]
    rcases eq_or_ne c '{' with rfl | hopen
    · exact ⟨['{'], first :: rest, splitAll_cons_of_ne (by decide) hfeed, by decide,
        List.forall_mem_cons.2 ⟨⟨by simp, by simp⟩, hall⟩⟩
    rcases eq_or_ne c ';' with rfl | hsemicolon
    · exact ⟨[';'], first :: rest, splitAll_cons_of_ne (by decide) hfeed, by decide,
        List.forall_mem_cons.2 ⟨⟨by simp, by simp⟩, hall⟩⟩
    have hcons : Unbroken (c :: first) := hfirst.cons hbrace ⟨hopen, hsemicolon⟩
    rcases eq_or_ne c '}' with rfl | hclose
    · have hline : splitAll '\n' ('}' :: breakMembers cs) = ('}' :: first) :: rest :=
        splitAll_cons_of_ne (by decide) hsplit
      have hbreak : splitAll '\n' ('\n' :: '}' :: breakMembers cs) =
          [] :: ('}' :: first) :: rest := by
        rw [splitAll_cons_self, hline]
      exact ⟨[], _, hbreak, by simp,
        List.forall_mem_cons.2 ⟨unbroken_nil, List.forall_mem_cons.2 ⟨hcons, hrest⟩⟩⟩
    have hbreak : breakMembers (c :: cs) = c :: breakMembers cs := by
      simp [breakMembers, hopen, hclose, hsemicolon]
    rw [hbreak]
    rcases eq_or_ne c '\n' with rfl | hne
    · exact ⟨[], first :: rest, hfeed, by simp, List.forall_mem_cons.2 ⟨unbroken_nil, hall⟩⟩
    · exact ⟨c :: first, rest, splitAll_cons_of_ne hne hsplit, by simp [hclose.symm, hbrace],
        List.forall_mem_cons.2 ⟨hcons, hrest⟩⟩

/-- **The lines of a text are whole.** -/
theorem whole_of_mem_memberLines {cs line : List Char} (h : line ∈ memberLines cs) :
    Whole line := by
  obtain ⟨hmem, hne⟩ := List.mem_filter.1 h
  obtain ⟨piece, hpiece, rfl⟩ := List.mem_map.1 hmem
  obtain ⟨front, back, hsplit, -, -⟩ := exists_append_trim isBlank piece
  have hfeed : '\n' ∉ piece := not_mem_of_mem_splitAll hpiece
  have hunbroken := unbroken_of_mem_splitAll hpiece
  obtain ⟨hhead, hlast⟩ := ends_of_trim isBlank piece
  rw [hsplit] at hunbroken hfeed
  exact {
    toUnbroken := hunbroken.cut front back
    newline := fun hc ↦ hfeed (by simp [hc])
    ne_nil := by simpa using hne
    trimmed := trim_eq_self hhead hlast }

/-- A whole line has a closing brace exactly if it starts with one. -/
theorem Whole.close_mem_iff {line : List Char} (h : Whole line) :
    '}' ∈ line ↔ line.head? = some '}' := by
  obtain ⟨c, rest, rfl⟩ := List.exists_cons_of_ne_nil h.ne_nil
  have hrest : '}' ∉ rest := h.close
  simp [hrest, eq_comm]

/-- A whole line has an opening brace exactly if it ends with one. -/
theorem Whole.open_mem_iff {line : List Char} (h : Whole line) :
    '{' ∈ line ↔ line.getLast? = some '{' := by
  obtain ⟨front, c, hline⟩ := (List.eq_nil_or_concat line).resolve_left h.ne_nil
  rw [List.concat_eq_append] at hline
  have hinner := h.inner
  rw [hline, List.dropLast_concat] at hinner
  have hfront : '{' ∉ front := fun hc ↦ (hinner _ hc).1 rfl
  simp [hline, hfront, eq_comm]

/-- Breaking adds at most a line feed at each end of an unbroken piece. -/
theorem Unbroken.breakMembers_eq {piece : List Char} (h : Unbroken piece) :
    ∃ front back, breakMembers piece = front ++ piece ++ back ∧ Blank front ∧ Blank back := by
  have hfeed : Blank ['\n'] := by decide
  -- Without a closing brace, only the last character can bring a line feed.
  have hback : ∀ {cs : List Char}, '}' ∉ cs → (∀ c ∈ cs.dropLast, c ≠ '{' ∧ c ≠ ';') →
      ∃ back, breakMembers cs = cs ++ back ∧ Blank back := by
    intro cs hclose hinner
    rcases List.eq_nil_or_concat cs with rfl | ⟨front, c, hcs⟩
    · exact ⟨[], rfl, blank_nil⟩
    · rw [List.concat_eq_append] at hcs
      subst hcs
      rw [List.dropLast_concat] at hinner
      have hfront : breakMembers front = front :=
        breakMembers_eq_self fun d hd ↦
          ⟨(hinner d hd).1, fun e ↦ hclose (e ▸ List.mem_append_left _ hd), (hinner d hd).2⟩
      have hc : c ≠ '}' := fun e ↦ hclose (by simp [e])
      rw [breakMembers_append, hfront]
      by_cases hmark : c = '{' ∨ c = ';'
      · refine ⟨['\n'], ?_, hfeed⟩
        rcases hmark with rfl | rfl <;> simp [breakMembers]
      · rw [not_or] at hmark
        exact ⟨[], by simp [breakMembers, hc, hmark], blank_nil⟩
  rcases piece with - | ⟨c, cs⟩
  · exact ⟨[], [], rfl, blank_nil, blank_nil⟩
  by_cases hc : c = '}'
  · subst hc
    have hclose : '}' ∉ cs := h.close
    have hrest : Unbroken cs := Unbroken.cut ['}'] [] (by simpa using h)
    obtain ⟨back, hbreak, hblank⟩ := hback hclose hrest.inner
    refine ⟨['\n'], back, ?_, hfeed, hblank⟩
    rw [← List.singleton_append, breakMembers_append, hbreak]
    rfl
  · have hclose : '}' ∉ c :: cs := by simpa [Ne.symm hc] using h.close
    obtain ⟨back, hbreak, hblank⟩ := hback hclose h.inner
    exact ⟨[], back, hbreak, blank_nil, hblank⟩

/-- **Breaking leaves a whole line as it is.** -/
theorem memberLines_of_whole {line : List Char} (h : Whole line) : memberLines line = [line] := by
  obtain ⟨front, back, hbreak, hfront, hback⟩ := h.breakMembers_eq
  rw [memberLines_eq, hbreak, trimmedLines_append_blank hback, trimmedLines_blank_append hfront,
    trimmedLines_of_not_mem h.newline, h.trimmed, if_neg h.ne_nil]

/-! ### Drafts -/

/-- The depth a line is indented by: a closing brace moves it one level out. -/
def ownDepth (depth : Nat) (line : List Char) : Nat :=
  if '}' ∈ line then depth - 1 else depth

/-- The depth behind a line: an opening brace moves what follows one level in. -/
def nextDepth (depth : Nat) (line : List Char) : Nat :=
  if '{' ∈ line then ownDepth depth line + 1 else ownDepth depth line

/-- Lines indented by `width` blanks for each level. -/
def nest (width : Nat) : (depth : Nat) → List (List Char) → List (List Char)
  | _, [] => []
  | depth, line :: lines =>
    (List.replicate (width * ownDepth depth line) ' ' ++ line) ::
      nest width (nextDepth depth line) lines

/-- Lines under each other, indented by `width` blanks for each level. -/
def draft (width depth : Nat) (lines : List (List Char)) : List Char :=
  joinAll ['\n'] (nest width depth lines)

theorem blank_replicate_space (n : Nat) : Blank (List.replicate n ' ') := by
  intro c hc
  rw [List.eq_of_mem_replicate hc]
  decide

/-- **The lines of a draft are read off it again.** -/
theorem memberLines_draft (width depth : Nat) {lines : List (List Char)}
    (h : ∀ line ∈ lines, Whole line) : memberLines (draft width depth lines) = lines := by
  rw [draft, lineByLine_memberLines.joinAll]
  induction lines generalizing depth with
  | nil => rfl
  | cons line lines ih =>
    obtain ⟨hline, hlines⟩ := List.forall_mem_cons.1 h
    rw [nest, List.flatMap_cons, memberLines_blank_append (blank_replicate_space _),
      memberLines_of_whole hline, ih _ hlines, List.singleton_append]

/-- Lines are indented in two runs, and the second one starts at the depth where the first one
ended. -/
theorem nest_append (width depth : Nat) (xs ys : List (List Char)) :
    nest width depth (xs ++ ys) =
      nest width depth xs ++ nest width (xs.foldl nextDepth depth) ys := by
  induction xs generalizing depth with
  | nil => rfl
  | cons x xs ih => rw [List.cons_append, nest, ih, nest, List.cons_append, List.foldl_cons]

theorem nest_eq_nil_iff {width depth : Nat} {lines : List (List Char)} :
    nest width depth lines = [] ↔ lines = [] := by
  cases lines <;> simp [nest]

/-- A draft is its first line, indented, and the draft of the other lines at the depth behind it. -/
theorem draft_cons (width depth : Nat) (line : List Char) (lines : List (List Char)) :
    draft width depth (line :: lines) =
      List.replicate (width * ownDepth depth line) ' ' ++ (line ++
        if lines = [] then [] else '\n' :: draft width (nextDepth depth line) lines) := by
  rw [draft, nest]
  split
  · next hlines => simp [hlines, nest, joinAll]
  · next hlines =>
    rw [joinAll_cons _ (mt nest_eq_nil_iff.1 hlines), draft]
    simp only [List.append_assoc, List.singleton_append]

/-- A draft of two runs of lines is the drafts of both under each other. -/
theorem draft_append (width depth : Nat) {xs ys : List (List Char)} (hx : xs ≠ []) (hy : ys ≠ []) :
    draft width depth (xs ++ ys) =
      draft width depth xs ++ '\n' :: draft width (xs.foldl nextDepth depth) ys := by
  rw [draft, nest_append, joinAll_append (mt nest_eq_nil_iff.1 hx) (mt nest_eq_nil_iff.1 hy),
    List.append_assoc]
  rfl

/-- A draft ends with its last line. -/
theorem exists_draft_concat (width depth : Nat) (lines : List (List Char)) (line : List Char) :
    ∃ front, draft width depth (lines ++ [line]) = front ++ line := by
  rcases eq_or_ne lines [] with rfl | hlines
  · refine ⟨List.replicate (width * ownDepth depth line) ' ', ?_⟩
    simp [draft_cons]
  · refine ⟨draft width depth lines ++ '\n' ::
      List.replicate (width * ownDepth (lines.foldl nextDepth depth) line) ' ', ?_⟩
    rw [draft_append width depth hlines (by simp), draft_cons]
    simp

end TypeLens.Layout
