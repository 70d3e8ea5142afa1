import Mathlib.Data.Prod.Lex
import Mathlib.Order.Bounds.Basic
import TypeLens.Proofs.Text.Lines

/-!
# Offsets are exact and in order

Two facts about the start of a line carry everything else. The lines an editor shows are as long as
the text (`lengthOfLines_editorLines`), and all but the last of them have a terminator
(`terminator_ne_nil_of_editorLines`), so the next line starts behind the last column. Both come from
how a text is cut into lines (`cuts_lines`).

**An offset is the start of its line and the greatest number of characters that the column has room
for** (`offset?_exact`). So no offset is behind the end of the text, and offsets come in the order
of their positions. Within a line two columns may have the same offset, when one of them is inside a
character of two units; on different lines they never have.
-/

namespace TypeLens.Text

/-! ### Code units of a line -/

/-- A text has at least as many units as characters. -/
theorem length_le_units (cs : List Char) : cs.length ≤ units cs := by
  induction cs with
  | nil => exact Nat.le_refl 0
  | cons c cs ih =>
    have hpos := charUnits_pos c
    rw [List.length_cons, units]
    omega

/-- A unit is beyond a text if the text has fewer units. -/
theorem indexOfUnit?_eq_none_iff {u : Nat} {cs : List Char} :
    indexOfUnit? u cs = none ↔ units cs < u := by
  fun_induction indexOfUnit? u cs with
  | case1 => simp
  | case2 => simp [units]
  | case3 u c cs hu =>
    rw [units]
    simp only [reduceCtorEq, false_iff, Nat.not_lt]
    omega
  | case4 u c cs hu ih =>
    rw [Option.map_eq_none_iff, ih, units]
    omega

/-- The numbers of first characters that have no more than a number of units. -/
def fitting (u : Nat) (cs : List Char) : Set Nat :=
  {i | i ≤ cs.length ∧ units (cs.take i) ≤ u}

section

variable {u v i j : Nat} {c : Char} {cs : List Char}

theorem zero_mem_fitting (u : Nat) (cs : List Char) : 0 ∈ fitting u cs :=
  ⟨Nat.zero_le _, Nat.zero_le u⟩

/-- A number of characters fits if the first one fits and the others fit in what is left. -/
theorem succ_mem_fitting_cons_iff :
    i + 1 ∈ fitting u (c :: cs) ↔ charUnits c ≤ u ∧ i ∈ fitting (u - charUnits c) cs := by
  simp only [fitting, Set.mem_ofPred_eq, List.length_cons, List.take_succ_cons, units]
  omega

theorem fitting_mono (h : u ≤ v) : fitting u cs ⊆ fitting v cs :=
  fun _ hi ↦ ⟨hi.1, hi.2.trans h⟩

/-- **The characters before a unit are all that there is room for.** -/
theorem isGreatest_of_indexOfUnit? (h : indexOfUnit? u cs = some i) :
    IsGreatest (fitting u cs) i := by
  fun_induction indexOfUnit? u cs generalizing i with
  | case1 cs =>
    obtain rfl := Option.some.inj h
    refine ⟨zero_mem_fitting 0 cs, fun j hj ↦ ?_⟩
    have hlength := length_le_units (cs.take j)
    rw [List.length_take_of_le hj.1] at hlength
    exact hlength.trans hj.2
  | case2 => cases h
  | case3 u c cs hu =>
    obtain rfl := Option.some.inj h
    refine ⟨zero_mem_fitting _ _, fun j hj ↦ ?_⟩
    cases j with
    | zero => exact Nat.le_refl 0
    | succ j => exact absurd (succ_mem_fitting_cons_iff.1 hj).1 (Nat.not_le.2 hu)
  | case4 u c cs hu ih =>
    obtain ⟨k, hk, rfl⟩ := Option.map_eq_some_iff.1 h
    obtain ⟨hmem, hbound⟩ := ih hk
    refine ⟨succ_mem_fitting_cons_iff.2 ⟨Nat.not_lt.1 hu, hmem⟩, fun j hj ↦ ?_⟩
    cases j with
    | zero => exact Nat.zero_le _
    | succ j => exact Nat.succ_le_succ (hbound (succ_mem_fitting_cons_iff.1 hj).2)

/-- No later unit has fewer characters before it. -/
theorem indexOfUnit?_mono (huv : u ≤ v) (hi : indexOfUnit? u cs = some i)
    (hj : indexOfUnit? v cs = some j) : i ≤ j :=
  (isGreatest_of_indexOfUnit? hi).mono (isGreatest_of_indexOfUnit? hj) (fitting_mono huv)

end

/-! ### Where lines start -/

section

variable {c : Char} {cs : List Char} {l : Line} {ls : List Line} {n m : Nat}

theorem lengthOfLines_eq_length_flatMap (ls : List Line) :
    lengthOfLines ls = (ls.flatMap Line.chars).length := by
  induction ls with
  | nil => rfl
  | cons l ls ih => rw [lengthOfLines, ih, List.flatMap_cons, List.length_append]

/-- **The lines an editor shows are as long as the text.** -/
theorem lengthOfLines_editorLines (cs : List Char) :
    lengthOfLines (editorLines cs) = cs.length := by
  obtain ⟨extra, hlines, hempty⟩ := exists_editorLines_eq cs
  have hextra : extra.flatMap Line.chars = [] :=
    List.flatMap_eq_nil_iff.2 fun l hl ↦ by rw [hempty l hl]; rfl
  rw [lengthOfLines_eq_length_flatMap, hlines, List.flatMap_append, hextra, List.append_nil,
    (cuts_lines cs).flatMap_chars]

/-- Behind the lines of a text an editor shows at most an empty one. -/
theorem editorLines_of_lines_ne_nil (h : lines cs ≠ []) :
    editorLines cs = lines cs ++
      if cs.getLast? = some '\n' ∨ cs.getLast? = some '\r' then [⟨[], []⟩] else [] := by
  obtain ⟨l, ls, hlines⟩ := List.exists_cons_of_ne_nil h
  rw [editorLines, hlines]
  split <;> simp

/-- **All lines an editor shows but the last have a terminator.** -/
theorem terminator_ne_nil_of_editorLines (hl : (editorLines cs)[n]? = some l)
    (hn : n + 1 < (editorLines cs).length) : l.terminator ≠ [] := by
  intro ht
  have hcuts := cuts_lines cs
  by_cases hlines : lines cs = []
  · rw [hlines] at hcuts
    cases hcuts with
    | nil => simp [editorLines, lines] at hn
  · rw [editorLines_of_lines_ne_nil hlines] at hl hn
    split at hn
    next hends =>
      -- An empty line is shown behind the others, so the text has a terminator at its end.
      rw [List.length_append, List.length_singleton] at hn
      rw [List.getElem?_append_left (by omega)] at hl
      obtain ⟨-, c, hc, hplain⟩ := hcuts.of_terminator_eq_nil hl ht
      rw [hc] at hends
      rcases hends with h | h <;> (obtain rfl := Option.some.inj h; exact absurd hplain (by decide))
    next hends =>
      rw [if_neg hends, List.append_nil] at hl
      rw [List.append_nil] at hn
      have hlast := (hcuts.of_terminator_eq_nil hl ht).1
      omega

/-- The next line starts behind the line and its break. -/
theorem lineOffset_succ (hl : (editorLines cs)[n]? = some l) :
    lineOffset cs (n + 1) = lineOffset cs n + l.chars.length := by
  rw [lineOffset, lineOffset, lengthOfLines_eq_length_flatMap, lengthOfLines_eq_length_flatMap,
    List.take_add_one, hl, List.flatMap_append, List.length_append]
  simp

/-- Later lines start later. -/
theorem lineOffset_mono (cs : List Char) : Monotone (lineOffset cs) := by
  refine monotone_nat_of_le_succ fun n ↦ ?_
  cases hl : (editorLines cs)[n]? with
  | some l => rw [lineOffset_succ hl]; exact Nat.le_add_right _ _
  | none =>
    have hbeyond := List.getElem?_eq_none_iff.1 hl
    rw [lineOffset, lineOffset, List.take_of_length_le hbeyond,
      List.take_of_length_le (hbeyond.trans (Nat.le_succ n))]

theorem lineOffset_le_length (cs : List Char) (n : Nat) : lineOffset cs n ≤ cs.length := by
  rcases Nat.le_total (editorLines cs).length n with h | h
  · rw [lineOffset, List.take_of_length_le h, lengthOfLines_editorLines]
  · refine (lineOffset_mono cs h).trans_eq ?_
    rw [lineOffset, List.take_length, lengthOfLines_editorLines]

/-- The end of a line is in the text. -/
theorem lineOffset_add_body_le (hl : (editorLines cs)[n]? = some l) :
    lineOffset cs n + l.body.length ≤ cs.length := by
  have hnext := lineOffset_le_length cs (n + 1)
  rw [lineOffset_succ hl, Line.chars, List.length_append] at hnext
  omega

/-- A later line starts behind the end of a line. -/
theorem lineOffset_add_body_lt (hl : (editorLines cs)[n]? = some l) (hnm : n < m)
    (hm : m < (editorLines cs).length) : lineOffset cs n + l.body.length < lineOffset cs m := by
  have hpos := List.length_pos_iff.2 (terminator_ne_nil_of_editorLines hl (by omega))
  have hnext := lineOffset_mono cs (Nat.succ_le_of_lt hnm)
  rw [lineOffset_succ hl, Line.chars, List.length_append] at hnext
  omega

end

/-! ### Offsets of positions -/

section

variable {text : String} {line column line' column' : Int} {o o' : Nat}

/-- A position has no offset if the line is none that is shown, or the column none of the line. -/
theorem offset?_eq_none_iff :
    offset? text line column = none ↔
      line < 1 ∨ (editorLines text.toList).length < line ∨ column < 1 ∨
        ∃ l, (editorLines text.toList)[line.toNat - 1]? = some l ∧ units l.body < column - 1 := by
  rw [offset?]
  by_cases hbounds : line < 1 ∨ column < 1
  · simp only [hbounds, if_true, true_iff]
    exact hbounds.imp id fun h ↦ .inr (.inl h)
  · obtain ⟨hline, hcolumn⟩ := not_or.1 hbounds
    simp only [hline, hcolumn, if_false, false_or]
    cases hl : (editorLines text.toList)[line.toNat - 1]? with
    | none =>
      have hbeyond := List.getElem?_eq_none_iff.1 hl
      simp only [true_iff]
      exact .inl (by omega)
    | some l =>
      have hlt := (List.getElem?_eq_some_iff.1 hl).1
      simp only [Option.map_eq_none_iff, indexOfUnit?_eq_none_iff, Option.some.injEq,
        exists_eq_left']
      omega

/-- Every offset lies inside the text. -/
theorem offset?_le_length (h : offset? text line column = some o) : o ≤ text.length := by
  obtain ⟨-, -, l, i, hl, hi, rfl⟩ := offset?_eq_some_iff.1 h
  have hend := lineOffset_add_body_le hl
  have hindex := (le_of_indexOfUnit? hi).2
  rw [← String.length_toList]
  omega

/-- On a later line offsets are greater. -/
theorem offset?_lt_of_line_lt (h : offset? text line column = some o)
    (h' : offset? text line' column' = some o') (hlt : line < line') : o < o' := by
  obtain ⟨hline, -, l, i, hl, hi, rfl⟩ := offset?_eq_some_iff.1 h
  obtain ⟨hline', -, l', i', hl', -, rfl⟩ := offset?_eq_some_iff.1 h'
  have hnm : line.toNat - 1 < line'.toNat - 1 := by omega
  have hstart := lineOffset_add_body_lt hl hnm (List.getElem?_eq_some_iff.1 hl').1
  have hindex := (le_of_indexOfUnit? hi).2
  omega

/-- At a later column of a line offsets are not smaller. -/
theorem offset?_le_of_column_le (h : offset? text line column = some o)
    (h' : offset? text line column' = some o') (hle : column ≤ column') : o ≤ o' := by
  obtain ⟨-, -, l, i, hl, hi, rfl⟩ := offset?_eq_some_iff.1 h
  obtain ⟨-, -, l', i', hl', hi', rfl⟩ := offset?_eq_some_iff.1 h'
  obtain rfl : l = l' := Option.some.inj (hl.symm.trans hl')
  exact Nat.add_le_add_left (indexOfUnit?_mono (by omega) hi hi') _

end

/-- **Offsets are exact and in order.** In every text, with the lines that make it up: a position
has no offset exactly if its line is not shown by an editor or its column is outside the line;
otherwise the offset is the start of the line and the greatest number of its characters that have no
more code units than come before the column. Offsets are in the text, they do not decrease from a
position to a later one, and they increase from a line to a later one. -/
theorem offset?_exact (text : String) :
    (∀ ls, Cuts text.toList ls ↔ ls = lines text.toList) ∧
    (∀ line column, offset? text line column = none ↔
      line < 1 ∨ (editorLines text.toList).length < line ∨ column < 1 ∨
        ∃ l, (editorLines text.toList)[line.toNat - 1]? = some l ∧ units l.body < column - 1) ∧
    (∀ line column o, offset? text line column = some o → o ≤ text.length ∧
      ∃ l i, (editorLines text.toList)[line.toNat - 1]? = some l ∧
        IsGreatest {i : Nat | i ≤ l.body.length ∧ (units (l.body.take i) : Int) ≤ column - 1} i ∧
        o = lengthOfLines ((editorLines text.toList).take (line.toNat - 1)) + i) ∧
    ∀ line column line' column' o o', offset? text line column = some o →
      offset? text line' column' = some o' →
        (toLex (line, column) ≤ toLex (line', column') → o ≤ o') ∧ (line < line' → o < o') := by
  refine ⟨fun _ ↦ cuts_iff, fun _ _ ↦ offset?_eq_none_iff, fun line column o h ↦ ?_, ?_⟩
  · obtain ⟨-, hcolumn, l, i, hl, hi, rfl⟩ := offset?_eq_some_iff.1 h
    refine ⟨offset?_le_length h, l, i, hl, ?_, rfl⟩
    -- Columns are integers, and the search counts in natural numbers.
    have hunits : {i : Nat | i ≤ l.body.length ∧ (units (l.body.take i) : Int) ≤ column - 1} =
        fitting (column.toNat - 1) l.body := by
      ext i
      simp only [fitting, Set.mem_ofPred_eq]
      omega
    rw [hunits]
    exact isGreatest_of_indexOfUnit? hi
  · intro line column line' column' o o' h h'
    refine ⟨fun hle ↦ ?_, offset?_lt_of_line_lt h h'⟩
    rcases Prod.Lex.toLex_le_toLex.1 hle with hlt | ⟨rfl, hcolumn⟩
    · exact (offset?_lt_of_line_lt h h' hlt).le
    · exact offset?_le_of_column_le h h' hcolumn

/-- Inside a character of two units, and on the line behind it. -/
theorem offset?_exact_sample :
    offset? "x😀\r\ny" 1 3 = some 1 ∧ offset? "x😀\r\ny" 2 1 = some 4 ∧ 1 ≤ "x😀\r\ny".length ∧
      toLex ((1 : Int), (3 : Int)) ≤ toLex (2, 1) ∧ (1 : Int) < 2 ∧ 1 ≤ 4 ∧ 1 < 4 := by
  have h : offset? "x😀\r\ny" 1 3 = some 1 := by decide
  have h' : offset? "x😀\r\ny" 2 1 = some 4 := by decide
  have hlex : toLex ((1 : Int), (3 : Int)) ≤ toLex (2, 1) := by decide
  obtain ⟨-, -, hexact, horder⟩ := offset?_exact "x😀\r\ny"
  have hle := (horder 1 3 2 1 1 4 h h').1 hlex
  have hlt := (horder 1 3 2 1 1 4 h h').2 (by decide)
  exact ⟨h, h', (hexact 1 3 1 h).1, hlex, by decide, hle, hlt⟩

end TypeLens.Text
