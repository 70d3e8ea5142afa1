import TypeLens.Text.Lines

/-!
# Offsets in lines

What the lines of a text are is said once without the function that finds them: `Cuts` puts a text
together from its lines, and `lines` finds the only lines that make up the text (`cuts_iff`).

A position has an offset when its line is one an editor shows and its column is within the line
(`offset?_eq_some_iff`). The lines an editor shows are the lines of the text, and perhaps an empty
one behind them (`exists_editorLines_eq`).

Within a line, `indexOfUnit?` goes from code units to characters. It never gives more characters
than there are units, and as many only if all characters before the unit have one unit
(`eq_unit_iff_of_indexOfUnit?`).
-/

namespace TypeLens.Text

/-! ### Code units -/

theorem charUnits_pos (c : Char) : 0 < charUnits c := by
  rw [charUnits]
  split <;> decide

theorem charUnits_le_two (c : Char) : charUnits c ≤ 2 := by
  rw [charUnits]
  split <;> decide

/-- As many units as some characters have lead behind these characters. -/
theorem indexOfUnit?_units (front back : List Char) :
    indexOfUnit? (units front) (front ++ back) = some front.length := by
  induction front with
  | nil => rw [units, indexOfUnit?, List.length_nil]
  | cons c front ih =>
    have hpos := charUnits_pos c
    obtain ⟨u, hu⟩ : ∃ u, units (c :: front) = u + 1 :=
      Nat.exists_eq_succ_of_ne_zero (by rw [units]; omega)
    have hrest : u + 1 - charUnits c = units front := by rw [← hu, units, Nat.add_sub_cancel_left]
    have hle : ¬u + 1 < charUnits c := by rw [← hu, units]; omega
    rw [hu, List.cons_append, indexOfUnit?, if_neg hle, hrest, ih, Option.map_some,
      List.length_cons]

/-- There are no more characters before a unit than units, and no more than there are at all. -/
theorem le_of_indexOfUnit? {u i : Nat} {cs : List Char} (h : indexOfUnit? u cs = some i) :
    i ≤ u ∧ i ≤ cs.length := by
  fun_induction indexOfUnit? u cs generalizing i with
  | case1 =>
    obtain rfl := Option.some.inj h
    exact ⟨Nat.le_refl 0, Nat.zero_le _⟩
  | case2 => exact nomatch h
  | case3 =>
    obtain rfl := Option.some.inj h
    exact ⟨Nat.zero_le _, Nat.zero_le _⟩
  | case4 u c cs hu ih =>
    obtain ⟨j, hj, rfl⟩ := Option.map_eq_some_iff.1 h
    obtain ⟨hle, hlength⟩ := ih hj
    have hpos := charUnits_pos c
    exact ⟨by omega, Nat.succ_le_succ hlength⟩

/-- There are as many characters before a unit as units just if all of them have one unit. -/
theorem eq_unit_iff_of_indexOfUnit? {u i : Nat} {cs : List Char} (h : indexOfUnit? u cs = some i) :
    i = u ↔ ∀ c ∈ cs.take u, charUnits c = 1 := by
  fun_induction indexOfUnit? u cs generalizing i with
  | case1 =>
    obtain rfl := Option.some.inj h
    simp
  | case2 => exact nomatch h
  | case3 u c cs hu =>
    obtain rfl := Option.some.inj h
    simp only [List.take_succ_cons, List.forall_mem_cons]
    constructor
    · exact fun hzero ↦ absurd hzero (Nat.succ_ne_zero u).symm
    · exact fun hone ↦ absurd hone.1 (by omega)
  | case4 u c cs hu ih =>
    obtain ⟨j, hj, rfl⟩ := Option.map_eq_some_iff.1 h
    have hle := (le_of_indexOfUnit? hj).1
    have htwo := charUnits_le_two c
    have hpos := charUnits_pos c
    simp only [List.take_succ_cons, List.forall_mem_cons]
    -- Behind a character with two units the index is less than the number of units, and stays less.
    by_cases hc : charUnits c = 1
    · have hu : u + 1 - charUnits c = u := by omega
      rw [hu] at hj ih
      simp [hc, ih hj]
    · simp only [hc, false_and, iff_false]
      omega

/-! ### Lines -/

/-- A character and a text whose first two characters are not one line break. -/
theorem lines_cons {c : Char} {cs : List Char} (h : c = '\r' → cs.head? ≠ some '\n') :
    lines (c :: cs) =
      if isTerminator c then ⟨[], [c]⟩ :: lines cs
      else match lines cs with
        | [] => [⟨[c], []⟩]
        | l :: ls => ⟨c :: l.body, l.terminator⟩ :: ls := by
  have hapart : ∀ rest, c = '\r' → cs = '\n' :: rest → False := by
    rintro rest rfl rfl
    exact h rfl rfl
  exact lines.eq_3 c cs hapart

/-- A text that is not empty has a line. -/
theorem lines_cons_ne_nil (c : Char) (cs : List Char) : lines (c :: cs) ≠ [] := by
  rw [lines.eq_def]
  split
  · simp_all
  · simp
  · split
    · simp
    · split <;> simp

/-- A character that ends no line belongs to the first line. -/
theorem lines_cons_of_not {c : Char} (hc : isTerminator c = false) (cs : List Char) :
    lines (c :: cs) = match lines cs with
      | [] => [⟨[c], []⟩]
      | l :: ls => ⟨c :: l.body, l.terminator⟩ :: ls := by
  have hreturn : c = '\r' → cs.head? ≠ some '\n' := by
    rintro rfl
    exact absurd hc (by decide)
  rw [lines_cons hreturn, if_neg (by simp [hc])]

/-! ### How a text is cut into lines -/

/-- What ends a line: a carriage return and a line feed, or one character. -/
def IsBreak (t : List Char) : Prop :=
  t = ['\r', '\n'] ∨ ∃ c, isTerminator c = true ∧ t = [c]

/-- A text is made up of lines. No line has a terminator inside, only the last line may have none at
its end, and a carriage return is not cut off from its line feed. -/
inductive Cuts : List Char → List Line → Prop
  /-- The empty text has no lines. -/
  | nil : Cuts [] []
  /-- The last line, without a terminator. -/
  | last {body : List Char} : body ≠ [] → (∀ c ∈ body, isTerminator c = false) →
      Cuts body [⟨body, []⟩]
  /-- A line with its terminator. -/
  | cons {body t rest : List Char} {ls : List Line} : (∀ c ∈ body, isTerminator c = false) →
      IsBreak t → (t = ['\r'] → rest.head? ≠ some '\n') → Cuts rest ls →
      Cuts (body ++ t ++ rest) (⟨body, t⟩ :: ls)

theorem IsBreak.ne_nil {t : List Char} (h : IsBreak t) : t ≠ [] := by
  rcases h with rfl | ⟨c, -, rfl⟩ <;> simp

section

variable {c : Char} {cs : List Char} {l : Line} {ls : List Line} {n : Nat}

/-- A character in front of the first line. -/
theorem Cuts.cons_char (h : Cuts cs (l :: ls)) (hc : isTerminator c = false) :
    Cuts (c :: cs) (⟨c :: l.body, l.terminator⟩ :: ls) := by
  have hbody : ∀ {body : List Char}, (∀ d ∈ body, isTerminator d = false) →
      ∀ d ∈ c :: body, isTerminator d = false :=
    fun hplain ↦ List.forall_mem_cons.2 ⟨hc, hplain⟩
  cases h with
  | last hne hplain => exact .last (List.cons_ne_nil _ _) (hbody hplain)
  | cons hplain ht hapart hrest => exact .cons (hbody hplain) ht hapart hrest

/-- **A text is made up of its lines.** -/
theorem cuts_lines (cs : List Char) : Cuts cs (lines cs) := by
  have hblank : ∀ c ∈ ([] : List Char), isTerminator c = false := fun _ h ↦ nomatch h
  fun_induction lines cs with
  | case1 => exact .nil
  | case2 cs ih =>
    exact .cons (t := ['\r', '\n']) hblank (.inl rfl) (fun h ↦ nomatch h) ih
  | case3 c cs hcrlf hc ih =>
    refine .cons (t := [c]) hblank (.inr ⟨c, hc, rfl⟩) (fun hreturn hhead ↦ ?_) ih
    obtain ⟨rest, rfl⟩ := List.head?_eq_some_iff.1 hhead
    exact hcrlf rest (List.cons.inj hreturn).1 rfl
  | case4 c cs hcrlf hc hrest ih =>
    rw [hrest] at ih
    cases ih with
    | nil => exact .last (List.cons_ne_nil _ _) (by simpa using hc)
  | case5 c cs hcrlf hc l ls hrest ih =>
    rw [hrest] at ih
    exact ih.cons_char (Bool.of_not_eq_true hc)

/-- The first line goes up to the first terminator. -/
theorem lines_append_break {body t rest : List Char} (hplain : ∀ c ∈ body, isTerminator c = false)
    (ht : IsBreak t) (hapart : t = ['\r'] → rest.head? ≠ some '\n') :
    lines (body ++ t ++ rest) = ⟨body, t⟩ :: lines rest := by
  induction body with
  | nil =>
    rcases ht with rfl | ⟨c, hc, rfl⟩
    · rfl
    · have hreturn : c = '\r' → rest.head? ≠ some '\n' := fun h ↦ hapart (by rw [h])
      rw [List.nil_append, List.singleton_append, lines_cons hreturn, if_pos hc]
  | cons c body ih =>
    obtain ⟨hc, hplain⟩ := List.forall_mem_cons.1 hplain
    rw [List.cons_append, List.cons_append, lines_cons_of_not hc, ih hplain]

/-- **The lines of a text are the only ones that make it up.** -/
theorem cuts_iff : Cuts cs ls ↔ ls = lines cs := by
  refine ⟨fun h ↦ ?_, fun h ↦ h ▸ cuts_lines cs⟩
  induction h with
  | nil => rfl
  | @last body hne hplain =>
    induction body with
    | nil => exact absurd rfl hne
    | cons c body ih =>
      obtain ⟨hc, hplain⟩ := List.forall_mem_cons.1 hplain
      rw [lines_cons_of_not hc]
      cases body with
      | nil => rfl
      | cons d body => rw [← ih (List.cons_ne_nil d body) hplain]
  | cons hplain ht hapart _ ih => rw [lines_append_break hplain ht hapart, ← ih]

theorem Cuts.flatMap_chars (h : Cuts cs ls) : ls.flatMap Line.chars = cs := by
  induction h with
  | nil => rfl
  | last => simp [Line.chars]
  | cons _ _ _ _ ih => rw [List.flatMap_cons, ih, Line.chars]

/-- A line without a terminator is the last one, and the text does not end with a terminator. -/
theorem Cuts.of_terminator_eq_nil (h : Cuts cs ls) (hl : ls[n]? = some l) (ht : l.terminator = []) :
    n + 1 = ls.length ∧ ∃ c, cs.getLast? = some c ∧ isTerminator c = false := by
  induction h generalizing n with
  | nil => simp at hl
  | @last body hne hplain =>
    obtain ⟨c, hc⟩ := Option.isSome_iff_exists.1 (List.getLast?_isSome.2 hne)
    cases n with
    | zero => exact ⟨rfl, c, hc, hplain c (List.mem_of_getLast? hc)⟩
    | succ n => simp at hl
  | cons _ hbreak _ _ ih =>
    cases n with
    | zero =>
      obtain rfl := Option.some.inj hl
      exact absurd ht hbreak.ne_nil
    | succ n =>
      obtain ⟨hlast, c, hc, hplain⟩ := ih (by simpa using hl)
      exact ⟨by rw [List.length_cons, hlast], c, by rw [List.getLast?_append, hc, Option.some_or],
        hplain⟩

end

/-! ### Lines of an editor -/

/-- An editor shows the lines of a text, and perhaps empty ones behind them. -/
theorem exists_editorLines_eq (cs : List Char) :
    ∃ extra, editorLines cs = lines cs ++ extra ∧ ∀ l ∈ extra, l = ⟨[], []⟩ := by
  rw [editorLines]
  cases hlines : lines cs with
  | nil =>
    split
    · exact ⟨[⟨[], []⟩, ⟨[], []⟩], rfl, by simp⟩
    · exact ⟨[⟨[], []⟩], rfl, by simp⟩
  | cons l ls =>
    split
    · exact ⟨[⟨[], []⟩], rfl, by simp⟩
    · exact ⟨[], by simp, by simp⟩

theorem editorLines_ne_nil (cs : List Char) : editorLines cs ≠ [] := by
  rw [editorLines]
  cases lines cs with
  | nil => split <;> simp
  | cons => split <;> simp

/-- Behind a line break an editor shows the lines of the rest. -/
theorem editorLines_cons_break {c : Char} {cs : List Char} (hc : c = '\n' ∨ c = '\r')
    (h : c = '\r' → cs.head? ≠ some '\n') :
    editorLines (c :: cs) = ⟨[], [c]⟩ :: editorLines cs := by
  have hbreak : isTerminator c = true := by rcases hc with rfl | rfl <;> decide
  have hlines : lines (c :: cs) = ⟨[], [c]⟩ :: lines cs := by rw [lines_cons h, if_pos hbreak]
  cases cs with
  | nil => simpa [editorLines, hlines, lines] using Or.resolve_left hc
  | cons d cs =>
    obtain ⟨l, ls, hrest⟩ := List.exists_cons_of_ne_nil (lines_cons_ne_nil d cs)
    simp only [editorLines, hlines, hrest, List.getLast?_cons_cons]
    split <;> rfl

/-- A carriage return and a line feed are one break. -/
theorem editorLines_cons_cons_break (cs : List Char) :
    editorLines ('\r' :: '\n' :: cs) = ⟨[], ['\r', '\n']⟩ :: editorLines cs := by
  cases cs with
  | nil => decide
  | cons d cs =>
    obtain ⟨l, ls, hrest⟩ := List.exists_cons_of_ne_nil (lines_cons_ne_nil d cs)
    simp only [editorLines, lines, hrest, List.getLast?_cons_cons]
    split <;> rfl

/-- A character that ends no line belongs to the first line an editor shows. -/
theorem editorLines_cons_of_not {c : Char} (hc : isTerminator c = false) {cs : List Char} {l : Line}
    {ls : List Line} (h : editorLines cs = l :: ls) :
    editorLines (c :: cs) = ⟨c :: l.body, l.terminator⟩ :: ls := by
  have hbreak : ¬c = '\n' ∧ ¬c = '\r' := by
    constructor <;> (rintro rfl; exact absurd hc (by decide))
  cases cs with
  | nil =>
    obtain ⟨rfl, rfl⟩ : l = ⟨[], []⟩ ∧ ls = [] := by simpa [editorLines, lines, eq_comm] using h
    simp [editorLines, lines_cons_of_not hc, lines, hbreak]
  | cons d cs =>
    obtain ⟨k, ks, hrest⟩ := List.exists_cons_of_ne_nil (lines_cons_ne_nil d cs)
    simp only [editorLines, lines_cons_of_not hc, hrest, List.getLast?_cons_cons] at h ⊢
    split at h <;> simp_all

/-- The number of characters before a line. -/
def lineOffset (cs : List Char) (n : Nat) : Nat :=
  lengthOfLines ((editorLines cs).take n)

/-- The offset of a position is that of its line and that of its column in the line. -/
theorem offset?_eq_some_iff {text : String} {line column : Int} {o : Nat} :
    offset? text line column = some o ↔
      1 ≤ line ∧ 1 ≤ column ∧ ∃ l i, (editorLines text.toList)[line.toNat - 1]? = some l ∧
        indexOfUnit? (column.toNat - 1) l.body = some i ∧
        lineOffset text.toList (line.toNat - 1) + i = o := by
  rw [offset?]
  by_cases hbounds : line < 1 ∨ column < 1
  · simp only [hbounds, if_true]
    constructor
    · exact fun h ↦ nomatch h
    · rintro ⟨hline, hcolumn, -⟩
      omega
  · obtain ⟨hline, hcolumn⟩ := not_or.1 hbounds
    simp only [hbounds, if_false, Int.not_lt.1 hline, Int.not_lt.1 hcolumn, true_and]
    cases (editorLines text.toList)[line.toNat - 1]? with
    | none => simp
    | some l => simp [Option.map_eq_some_iff, lineOffset]

end TypeLens.Text
