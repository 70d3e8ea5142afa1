import TypeLens.Proofs.Text.Cut
import TypeLens.Proofs.Text.Lines

/-!
# The cursor in a line

A position that has an offset is shown by its line with a mark in it. The offset is found in the
lines an editor shows, by UTF-16 code units; the line with the mark is found in the lines of the
text, by characters. The two agree on a line of the text up to the first character of two units, and
nowhere else (`mark_at_offset_iff`): behind such a character the mark comes too far to the right or
is missing, and so it is on the empty line behind a final line break.

There is one coincidence. The mark may be in the wrong place and the text still be right, when what
stands between the two places reads like the mark itself, once or several times.
-/

namespace TypeLens.Text

/-- A text with a mark before a character. -/
def marked (body : List Char) (i : Nat) (mark : String) : String :=
  .ofList (body.take i) ++ mark ++ .ofList (body.drop i)

theorem toList_marked (body : List Char) (i : Nat) (mark : String) :
    (marked body i mark).toList = body.take i ++ mark.toList ++ body.drop i := by
  simp [marked]

/-- A text with the mark of the cursor is no text that has no angle bracket. -/
theorem ne_marked_cursorMark {text : String} (h : '<' ∉ text.toList) (body : List Char) (i : Nat) :
    text ≠ marked body i cursorMark := by
  rintro rfl
  refine h ?_
  rw [toList_marked]
  exact List.mem_append_left _ (List.mem_append_right _ (by decide))

/-- The mark of the cursor may stand in two places with the same result only if the text between
them is the mark several times. -/
theorem marked_eq_marked_iff {body : List Char} {i j : Nat} (hij : i ≤ j) (hj : j ≤ body.length) :
    marked body j cursorMark = marked body i cursorMark ↔
      ∃ n, (body.take j).drop i = again cursorMark.toList n := by
  have hfront : body.take j = body.take i ++ (body.take j).drop i := by
    have hsplit := List.take_append_drop i (body.take j)
    rw [List.take_take, Nat.min_eq_left hij] at hsplit
    exact hsplit.symm
  have hback : body.drop i = (body.take j).drop i ++ body.drop j := by
    rw [← List.drop_append_of_le_length (by rw [List.length_take]; omega), List.take_append_drop]
  have hmark : cursorMark.toList = '<' :: "cursor>".toList := by decide
  rw [hmark, ← append_comm_iff_again (by decide), ← hmark, ← String.toList_inj, toList_marked,
    toList_marked]
  generalize (body.take j).drop i = between at hfront hback
  rw [hfront, hback]
  constructor
  · intro h
    simp only [List.append_assoc, List.append_cancel_left_eq] at h
    rw [← List.append_assoc, ← List.append_assoc, List.append_cancel_right_eq] at h
    exact h
  · intro h
    simp only [List.append_assoc, List.append_cancel_left_eq]
    rw [← List.append_assoc, h, List.append_assoc]

/-- How a line of a text is shown with a mark. -/
theorem lineWithMark_of_lines {text : String} {line column : Int} {l : Line} (hline : 1 ≤ line)
    (hcolumn : 1 ≤ column) (hl : (lines text.toList)[line.toNat - 1]? = some l) (mark : String) :
    lineWithMark text line (some column) mark =
      if l.body.length < column.toNat - 1 then "Invalid column number"
      else marked l.body (column.toNat - 1) mark := by
  have hlength : (column < 1 ∨ (l.body.length : Int) < column - 1) ↔
      l.body.length < column.toNat - 1 := by omega
  simp only [lineWithMark, Int.not_lt.2 hline, if_false, hl, hlength, marked]

theorem lineWithMark_of_lines_eq_none {text : String} {line : Int} (hline : 1 ≤ line)
    (hl : (lines text.toList)[line.toNat - 1]? = none) (column : Option Int) (mark : String) :
    lineWithMark text line column mark = "Line number out of range" := by
  simp only [lineWithMark, Int.not_lt.2 hline, if_false, hl]

/-- On a line of a text the mark stands at the offset of the column just if all characters before
the column have one code unit, or else the text between the two places reads like the mark. -/
theorem marked_at_column_iff {body : List Char} {u i : Nat} (h : indexOfUnit? u body = some i) :
    (if body.length < u then "Invalid column number" else marked body u cursorMark) =
        marked body i cursorMark ↔
      (∀ c ∈ body.take u, charUnits c = 1) ∨
        u ≤ body.length ∧ ∃ n, (body.take u).drop i = again cursorMark.toList (n + 1) := by
  obtain ⟨hle, hlength⟩ := le_of_indexOfUnit? h
  rw [← eq_unit_iff_of_indexOfUnit? h]
  split
  next hlong =>
    have hne : ¬(i = u ∨ u ≤ body.length ∧
        ∃ n, (body.take u).drop i = again cursorMark.toList (n + 1)) := by omega
    exact iff_of_false (ne_marked_cursorMark (by decide) body i) hne
  next hshort =>
    have hu : u ≤ body.length := Nat.not_lt.1 hshort
    rw [marked_eq_marked_iff hle hu]
    constructor
    · rintro ⟨n | n, hn⟩
      · left
        have := List.drop_eq_nil_iff.1 hn
        rw [List.length_take] at this
        omega
      · exact .inr ⟨hu, n, hn⟩
    · rintro (rfl | ⟨-, n, hn⟩)
      · exact ⟨0, List.drop_eq_nil_iff.2 (List.length_take_le i body)⟩
      · exact ⟨n + 1, hn⟩

/-- **When the cursor shown is the cursor used.** For every position that has an offset, its line is
shown with the mark at that offset exactly if the line is one of the text, not the empty one behind
its end, and all characters before the column have one code unit; or, by coincidence, the characters
between the offset and the column read like the mark, once or several times. -/
theorem mark_at_offset_iff {text : String} {line column : Int} {o : Nat}
    (h : offset? text line column = some o) :
    ∃ l, (editorLines text.toList)[line.toNat - 1]? = some l ∧
      lineOffset text.toList (line.toNat - 1) ≤ o ∧
      (lineWithMark text line (some column) cursorMark =
          marked l.body (o - lineOffset text.toList (line.toNat - 1)) cursorMark ↔
        line ≤ (lines text.toList).length ∧
          ((∀ c ∈ l.body.take (column.toNat - 1), charUnits c = 1) ∨
            column - 1 ≤ l.body.length ∧
              ∃ n, (l.body.take (column.toNat - 1)).drop
                  (o - lineOffset text.toList (line.toNat - 1)) =
                again cursorMark.toList (n + 1))) := by
  obtain ⟨hline, hcolumn, l, i, hl, hi, rfl⟩ := offset?_eq_some_iff.1 h
  refine ⟨l, hl, Nat.le_add_right _ i, ?_⟩
  rw [Nat.add_sub_cancel_left]
  obtain ⟨extra, hlines, -⟩ := exists_editorLines_eq text.toList
  -- An editor shows one line more than the text has, if that ends with a break. There is nothing to
  -- mark on that one.
  cases hshown : (lines text.toList)[line.toNat - 1]? with
  | none =>
    have hbeyond := List.getElem?_eq_none_iff.1 hshown
    rw [lineWithMark_of_lines_eq_none hline hshown]
    exact iff_of_false (ne_marked_cursorMark (by decide) l.body i) (by omega)
  | some shown =>
    have hlt := (List.getElem?_eq_some_iff.1 hshown).1
    obtain rfl : l = shown := by
      rw [hlines, List.getElem?_append_left hlt, hshown] at hl
      exact (Option.some.inj hl).symm
    have hreal : line ≤ (lines text.toList).length := by omega
    have hwithin : column - 1 ≤ l.body.length ↔ column.toNat - 1 ≤ l.body.length := by omega
    rw [lineWithMark_of_lines hline hcolumn hshown, marked_at_column_iff hi, hwithin]
    exact (and_iff_right hreal).symm

/-- Before the character of two units, the mark stands where it should. -/
theorem mark_at_offset_sample :
    offset? "x\r\na😀b" 2 2 = some 4 ∧
      lineWithMark "x\r\na😀b" 2 (some 2) cursorMark = marked "a😀b".toList 1 cursorMark := by
  have h : offset? "x\r\na😀b" 2 2 = some 4 := by decide
  obtain ⟨l, hl, -, hiff⟩ := mark_at_offset_iff h
  obtain rfl : l = ⟨"a😀b".toList, []⟩ := Option.some.inj (hl.symm.trans (by decide))
  have hbefore : ∀ c ∈ ['a'], charUnits c = 1 := by simp [charUnits]
  exact ⟨h, hiff.2 ⟨by decide, .inl hbefore⟩⟩

/-- Behind the character of two units the mark comes too late, and on the empty line behind the last
line break there is none. -/
theorem mark_misses_offset :
    (offset? "a😀b" 1 4 = some 2 ∧
      lineWithMark "a😀b" 1 (some 4) cursorMark = "a😀b<cursor>" ∧
      lineWithMark "a😀b" 1 (some 4) cursorMark ≠ marked "a😀b".toList 2 cursorMark) ∧
    offset? "a\n" 2 1 = some 2 ∧
      lineWithMark "a\n" 2 (some 1) cursorMark = "Line number out of range" ∧
      lineWithMark "a\n" 2 (some 1) cursorMark ≠ marked [] 0 cursorMark := by
  decide

end TypeLens.Text
