import TypeLens.Proofs.Layout.Tidy

/-!
# The depth of a line

In a text whose closing braces all close something, a line of the layout is indented by exactly the
braces that are open before it: the number of opening braces in the lines before, less the number of
closing braces there, less one if the line starts with a closing brace (`Indented`).

The depth of a draft is counted line by line. It is that difference because a whole line has at most
one brace of each kind (`Whole.nextDepth_add_count`) and the depth never has to go below zero
(`Covered`), so a draft is *stepped* (`stepped_draft`). Closing braces joins lines, but the braces
of the text stay the same, so what is joined stays stepped (`Stepped.rewrite`). A stepped text has
no blank lines, which leaves nothing else to do.

Together with `Tidy` this describes the lines of a layout (`LaidOut`, `pretty_laidOut`).
-/

namespace TypeLens.Layout

open Text

/-! ### Texts whose closing braces close something -/

/-- No part at the start of the text closes more than it opens, with `depth` braces open before. -/
def Covered (depth : Nat) (cs : List Char) : Prop :=
  ∀ front, front <+: cs → front.count '}' ≤ depth + front.count '{'

/-- The two braces. -/
def isBrace (c : Char) : Bool :=
  c == '{' || c == '}'

/-- Only braces matter. -/
theorem Covered.of_filter_eq {depth : Nat} {cs ds : List Char} (h : Covered depth cs)
    (heq : ds.filter isBrace = cs.filter isBrace) : Covered depth ds := by
  intro front hfront
  have hbraces : front.filter isBrace <+: cs.filter isBrace := heq ▸ hfront.filter isBrace
  obtain ⟨front', hfront', hsame⟩ := List.prefix_filter_iff.1 hbraces
  have hcount : ∀ {c}, isBrace c = true → front.count c = front'.count c := by
    intro c hc
    rw [← List.count_filter hc, hsame, List.count_filter hc]
  rw [hcount (by decide), hcount (by decide)]
  exact h front' hfront'

/-- The sugar for optional members takes no brace away. -/
theorem Sugars.filter_isBrace_eq {line new : List Char} (h : Sugars line new) :
    new.filter isBrace = line.filter isBrace := by
  obtain @⟨front, mark, cut, core, gap, terminator, -, hmark, hcut, hgap, -, -, -, -⟩ := h
  have hscrap : ∀ {cs}, IsScrap cs → cs.filter isBrace = [] := by
    intro cs hcs
    refine List.filter_eq_nil_iff.2 fun c hc hbrace ↦ ?_
    rcases Bool.or_eq_true_iff.1 hbrace with heq | heq
    all_goals
      rw [beq_iff_eq.1 heq] at hc
      exact hcs.not_mem (by decide) (by decide) hc
  have hnomark : mark.filter isBrace = [] := by
    rcases hmark with rfl | rfl
    · rfl
    · rfl
  have hquestion : ['?'].filter isBrace = [] := rfl
  simp only [List.filter_append, hscrap hcut, hscrap hgap, hnomark, hquestion, List.nil_append]

/-- The lines of a text that is laid out have its braces. -/
theorem filter_isBrace_flatten (cs : List Char) :
    ((memberLines cs).map sugar).flatten.filter isBrace = cs.filter isBrace := by
  have hsugar : ∀ line, (sugar line).filter isBrace = line.filter isBrace := by
    intro line
    rcases sugar_cases line with hsame | hsugars
    · rw [hsame]
    · exact hsugars.filter_isBrace_eq
  have hspacing : ∀ ds, (dropSpacing ds).filter isBrace = ds.filter isBrace := by
    intro ds
    rw [dropSpacing, List.filter_filter]
    refine List.filter_congr fun c _ ↦ ?_
    rcases hbrace : isBrace c with - | -
    · rfl
    · rcases Bool.or_eq_true_iff.1 hbrace with heq | heq
      all_goals
        rw [beq_iff_eq.1 heq]
        decide
  have hlines := congrArg (List.filter isBrace) (dropSpacing_memberLines cs)
  rw [hspacing] at hlines
  rw [← hlines, List.filter_flatten, List.filter_flatMap, List.map_map, ← List.flatMap_def]
  congr 1
  funext line
  rw [Function.comp_apply, hsugar, hspacing]

/-! ### Lines and depths -/

/-- A whole line has at most one closing brace. -/
theorem Whole.count_close {line : List Char} (h : Whole line) :
    line.count '}' = if '}' ∈ line then 1 else 0 := by
  obtain ⟨c, rest, rfl⟩ := List.exists_cons_of_ne_nil h.ne_nil
  have hrest : '}' ∉ rest := h.close
  have hzero : rest.count '}' = 0 := List.count_eq_zero_of_not_mem hrest
  rcases eq_or_ne c '}' with rfl | hc
  · rw [List.count_cons_self, hzero, if_pos List.mem_cons_self]
  · rw [List.count_cons_of_ne hc, hzero, if_neg (by simp [hc.symm, hrest])]

/-- A whole line has at most one opening brace. -/
theorem Whole.count_open {line : List Char} (h : Whole line) :
    line.count '{' = if '{' ∈ line then 1 else 0 := by
  obtain ⟨front, c, hline⟩ := (List.eq_nil_or_concat line).resolve_left h.ne_nil
  rw [List.concat_eq_append] at hline
  have hinner := h.inner
  rw [hline, List.dropLast_concat] at hinner
  have hfront : '{' ∉ front := fun hc ↦ (hinner _ hc).1 rfl
  rw [hline, List.count_append, List.count_eq_zero_of_not_mem hfront, Nat.zero_add]
  rcases eq_or_ne c '{' with rfl | hc
  · rw [List.count_singleton_self, if_pos (by simp)]
  · rw [List.count_eq_zero_of_not_mem (by simp [hc.symm]), if_neg (by simp [hc.symm, hfront])]

/-- A whole line starts with something visible. -/
theorem Whole.exists_cons {line : List Char} (h : Whole line) :
    ∃ c rest, line = c :: rest ∧ isBlank c = false ∧ (c = '}' ↔ '}' ∈ line) := by
  obtain ⟨c, rest, hline⟩ := List.exists_cons_of_ne_nil h.ne_nil
  have hhead := (ends_of_trim isBlank line).1
  rw [h.trimmed, hline] at hhead
  refine ⟨c, rest, hline, hhead c rfl, ?_⟩
  rw [h.close_mem_iff, hline, List.head?_cons, Option.some.injEq]

section

variable {depth : Nat} {line rest : List Char}

/-- The depth of a line is the depth before it, less its closing brace. -/
theorem Whole.ownDepth_add_count (h : Whole line) (hcovered : Covered depth (line ++ rest)) :
    ownDepth depth line + line.count '}' = depth := by
  rw [h.count_close, ownDepth]
  split
  · next hclose =>
    obtain ⟨c, tail, rfl, -, hc⟩ := h.exists_cons
    obtain rfl := hc.2 hclose
    have hone : 1 ≤ depth := hcovered ['}'] ⟨tail ++ rest, rfl⟩
    omega
  · rfl

/-- The depth behind a line. -/
theorem Whole.nextDepth_add_count (h : Whole line) (hcovered : Covered depth (line ++ rest)) :
    nextDepth depth line + line.count '}' = depth + line.count '{' := by
  have hown := h.ownDepth_add_count hcovered
  rw [h.count_open, nextDepth]
  split
  · omega
  · omega

/-- What follows a line is covered from the depth behind the line on. -/
theorem Covered.of_line (hcovered : Covered depth (line ++ rest)) (h : Whole line) :
    Covered (nextDepth depth line) rest := by
  intro front hfront
  have hnext := h.nextDepth_add_count hcovered
  have hall := hcovered (line ++ front) ((List.prefix_append_right_inj line).2 hfront)
  rw [List.count_append, List.count_append] at hall
  omega

end

/-! ### Stepped texts -/

/-- What follows the start of a line: the blanks of its depth, and something visible. The depth is
counted from `start` on by the braces of `front`, the text before the line. -/
def Indented (width start : Nat) (front back : List Char) : Prop :=
  ∃ depth c rest, back = List.replicate (width * depth) ' ' ++ c :: rest ∧ isBlank c = false ∧
    depth + front.count '}' + (if c = '}' then 1 else 0) = start + front.count '{'

/-- A text in which every line is indented by its depth. -/
structure Stepped (width start : Nat) (cs : List Char) : Prop where
  first : Indented width start [] cs
  later : ∀ {front back}, cs = front ++ '\n' :: back → Indented width start front back

namespace Indented

variable {width start : Nat} {front back : List Char}

/-- Only the braces before a line matter. -/
theorem of_count (h : Indented width start front back) {start' : Nat} {front' : List Char}
    (hcount : start + front.count '{' + front'.count '}' =
      start' + front'.count '{' + front.count '}') : Indented width start' front' back := by
  obtain ⟨depth, c, rest, hback, hc, hdepth⟩ := h
  exact ⟨depth, c, rest, hback, hc, by omega⟩

/-- What stands behind the first opening brace does not matter. -/
theorem of_append_open {mid rest : List Char} (h : Indented width start front (mid ++ '{' :: rest))
    (new : List Char) : Indented width start front (mid ++ '{' :: new) := by
  obtain ⟨depth, c, behind, hback, hc, hdepth⟩ := h
  rcases append_cons_eq_append_cons hback with ⟨inner, rfl, -⟩ | ⟨rfl, rfl, -⟩ | ⟨inner, hspace, -⟩
  · exact ⟨depth, c, inner ++ '{' :: new, by simp, hc, hdepth⟩
  · exact ⟨depth, '{', new, rfl, hc, hdepth⟩
  · have hmem : '{' ∈ List.replicate (width * depth) ' ' := by simp [hspace]
    exact absurd (List.eq_of_mem_replicate hmem) (by decide)

/-- The indentation of a line lies in the line. -/
theorem of_append_endsLine {line : List Char} (h : Indented width start front (line ++ back))
    (hback : EndsLine back) : Indented width start front line := by
  obtain ⟨depth, c, rest, hline, hc, hdepth⟩ := h
  rcases hback with rfl | ⟨behind, rfl⟩
  · exact ⟨depth, c, rest, by simpa using hline, hc, hdepth⟩
  rcases append_cons_eq_append_cons hline with ⟨inner, rfl, -⟩ | ⟨rfl, -⟩ | ⟨inner, hspace, -⟩
  · exact ⟨depth, c, inner, rfl, hc, hdepth⟩
  · exact absurd hc (by decide)
  · have hmem : '\n' ∈ List.replicate (width * depth) ' ' := by simp [hspace]
    exact absurd (List.eq_of_mem_replicate hmem) (by decide)

end Indented

/-- A draft starts with the blanks of the depth of its first line, if its lines never close more
than is open. -/
theorem indented_draft (width : Nat) {depth : Nat} {line : List Char} {lines : List (List Char)}
    (h : Whole line) (hcovered : Covered depth (line ++ lines.flatten)) :
    Indented width depth [] (draft width depth (line :: lines)) := by
  have hown := h.ownDepth_add_count hcovered
  obtain ⟨c, rest, hline, hc, hclose⟩ := h.exists_cons
  rw [h.count_close] at hown
  rw [draft_cons]
  refine ⟨ownDepth depth line, c, _, by rw [hline, List.cons_append], hc, ?_⟩
  simpa [hclose] using hown

/-- **A draft is stepped** if its closing braces close something. -/
theorem stepped_draft (width : Nat) {depth : Nat} {lines : List (List Char)} (hne : lines ≠ [])
    (h : ∀ line ∈ lines, Whole line) (hcovered : Covered depth lines.flatten) :
    Stepped width depth (draft width depth lines) := by
  induction lines generalizing depth with
  | nil => exact absurd rfl hne
  | cons line lines ih =>
    obtain ⟨hline, hlines⟩ := List.forall_mem_cons.1 h
    rw [List.flatten_cons] at hcovered
    refine ⟨indented_draft width hline hcovered, ?_⟩
    intro front back hdraft
    obtain ⟨nested, hnested⟩ : ∃ nested,
        List.replicate (width * ownDepth depth line) ' ' ++ line = nested := ⟨_, rfl⟩
    have hcount : ∀ c ≠ ' ', nested.count c = line.count c := by
      intro c hc
      rw [← hnested, List.count_append, List.count_replicate]
      simp [hc.symm]
    have hfeed : '\n' ∉ nested := by simp [← hnested, hline.newline]
    have hopen := hcount '{' (by decide)
    have hclose := hcount '}' (by decide)
    rw [draft_cons, ← List.append_assoc, hnested] at hdraft
    split at hdraft
    · rw [List.append_nil] at hdraft
      simp [hdraft] at hfeed
    next hrest =>
    have hstepped := ih hrest hlines (hcovered.of_line hline)
    have hnext := hline.nextDepth_add_count hcovered
    -- The line feed is the one behind this line, or one of the rest.
    rcases append_cons_eq_append_cons hdraft with ⟨mid, rfl, -⟩ | ⟨-, rfl, rfl⟩ | ⟨mid, rfl, hmid⟩
    · simp at hfeed
    · refine hstepped.first.of_count ?_
      rw [hopen, hclose, List.count_nil, List.count_nil]
      omega
    · refine (hstepped.later hmid).of_count ?_
      have hnone : ∀ c ≠ '\n', ('\n' :: mid).count c = mid.count c :=
        fun c hc ↦ List.count_cons_of_ne hc.symm
      rw [List.count_append, List.count_append, hopen, hclose, hnone _ (by decide),
        hnone _ (by decide)]
      omega

/-- **A stepped text stays stepped when the body of a group gets short.** -/
theorem Stepped.rewrite {width start : Nat} {before body new behind : List Char}
    (hopen : '{' ∉ body) (hclose : '}' ∉ body) (hnew : IsShort new)
    (h : Stepped width start (before ++ '{' :: (body ++ '}' :: behind))) :
    Stepped width start (before ++ '{' :: (new ++ '}' :: behind)) where
  first := h.first.of_append_open _
  later := by
    intro front back hcs
    rcases group_eq_append_cons (hnew.not_mem (by decide) (by decide)) hcs with
      ⟨mid, rfl, rfl⟩ | ⟨habsurd, -⟩ | ⟨habsurd, -⟩ | ⟨mid, rfl, rfl⟩
    · exact (h.later (List.append_assoc _ _ _)).of_append_open _
    · exact absurd habsurd (by decide)
    · exact absurd habsurd (by decide)
    · have hold : before ++ '{' :: (body ++ '}' :: (mid ++ '\n' :: back)) =
          (before ++ '{' :: (body ++ '}' :: mid)) ++ '\n' :: back := by simp
      refine (h.later hold).of_count ?_
      simp only [List.count_append, List.count_cons, List.count_eq_zero_of_not_mem hopen,
        List.count_eq_zero_of_not_mem hclose, List.count_eq_zero_of_not_mem hnew.open_not_mem,
        List.count_eq_zero_of_not_mem hnew.close_not_mem]

/-! ### Lines of a text -/

/-- A line of a text, with what stands before and behind it. -/
theorem exists_append_of_splitAll {cs line : List Char} {before after : List (List Char)}
    (h : splitAll '\n' cs = before ++ line :: after) :
    ∃ front back, cs = front ++ (line ++ back) ∧ (front = [] ∨ ∃ start, front = start ++ ['\n']) ∧
      EndsLine back ∧ ∀ c ≠ '\n', front.count c = before.flatten.count c := by
  have hcs := joinAll_splitAll '\n' cs
  rw [h, joinAll_append_cons] at hcs
  refine ⟨_, _, hcs.symm, ?_, ?_, fun c hc ↦ ?_⟩
  · rcases List.eq_nil_or_concat before with rfl | ⟨start, last, rfl⟩
    · exact .inl rfl
    · exact .inr ⟨start.flatMap (· ++ ['\n']) ++ last, by simp⟩
  · rcases after with - | ⟨next, after⟩
    · exact .inl rfl
    · exact .inr ⟨_, rfl⟩
  · have hfeed : ['\n'].count c = 0 := List.count_eq_zero_of_not_mem (by simpa using hc)
    rw [List.count_flatMap, List.count_flatten]
    congr 2
    funext piece
    rw [Function.comp_apply, List.count_append, hfeed, Nat.add_zero]

/-- A short group that starts on a line ends on it. -/
theorem OpensShort.of_append_endsLine {back rest : List Char} (h : OpensShort (back ++ rest))
    (hrest : EndsLine rest) : OpensShort back := by
  obtain ⟨body, behind, hbody, hback⟩ := h
  rcases hrest with rfl | ⟨rest, rfl⟩
  · exact ⟨body, behind, hbody, by simpa using hback⟩
  rcases append_cons_eq_append_cons hback with ⟨mid, rfl, -⟩ | ⟨habsurd, -⟩ | ⟨mid, rfl, -⟩
  · exact ⟨body, mid, hbody, rfl⟩
  · exact absurd habsurd (by decide)
  · exact absurd (by simp) (hbody.not_mem (c := '\n') (by decide) (by decide))

/-- A short group that ends on a line starts on it. -/
theorem ClosesShort.of_newline_append {start front : List Char}
    (h : ClosesShort (start ++ '\n' :: front)) : ClosesShort front := by
  obtain ⟨before, body, hbody, hfront⟩ := h
  rcases append_cons_eq_append_cons hfront with ⟨mid, -, rfl⟩ | ⟨habsurd, -⟩ | ⟨mid, -, rfl⟩
  · exact absurd (by simp) (hbody.not_mem (c := '\n') (by decide) (by decide))
  · exact absurd habsurd (by decide)
  · exact ⟨mid, body, hbody, rfl⟩

/-- A line of a stepped text. -/
theorem Stepped.indented {width start : Nat} {cs line : List Char} {before after : List (List Char)}
    (h : Stepped width start cs) (hlines : splitAll '\n' cs = before ++ line :: after) :
    Indented width start before.flatten line := by
  obtain ⟨front, back, hcs, hfront, hback, hcount⟩ := exists_append_of_splitAll hlines
  have hindented : Indented width start front (line ++ back) := by
    rcases hfront with rfl | ⟨above, rfl⟩
    · have hfirst := h.first
      rwa [hcs] at hfirst
    · rw [List.append_assoc, List.singleton_append] at hcs
      exact (h.later hcs).of_count (by simp)
  refine (hindented.of_append_endsLine hback).of_count ?_
  rw [hcount _ (by decide), hcount _ (by decide)]

/-- **A stepped text has no blank lines.** -/
theorem Stepped.dropBlankLines_eq {width start : Nat} {cs : List Char}
    (h : Stepped width start cs) : dropBlankLines cs = cs := by
  have hvisible : ∀ line ∈ splitAll '\n' cs, (!line.all isBlank) = true := by
    intro line hline
    obtain ⟨before, after, hlines⟩ := List.append_of_mem hline
    obtain ⟨depth, c, rest, rfl, hc, -⟩ := h.indented hlines
    simp [hc]
  have hlast : ∀ c ∈ cs.getLast?, (c == '\n') = false := by
    rintro c hc
    obtain ⟨front, rfl⟩ := List.getLast?_eq_some_iff.1 (Option.mem_def.1 hc)
    rw [beq_eq_false_iff_ne]
    rintro rfl
    obtain ⟨depth, c, rest, hnil, -⟩ := h.later rfl
    simp at hnil
  rw [dropBlankLines, List.filter_eq_self.2 hvisible, joinAll_splitAll]
  rcases List.eq_nil_or_concat cs with rfl | ⟨front, c, rfl⟩
  · rfl
  · rw [List.concat_eq_append] at hlast ⊢
    exact trimEnd_concat_of_not (hlast c (by simp))

/-! ### The lines of a layout -/

/-- Lines as they come out of laying out a type with `width` blanks for each level. -/
structure LaidOut (width : Nat) (lines : List (List Char)) : Prop where
  /-- A line starts with the blanks of its depth, which the lines before it determine, and goes on
  with something visible. -/
  indented : ∀ {before line after}, lines = before ++ line :: after →
    Indented width 0 before.flatten line
  /-- A semicolon ends its line. -/
  semicolon : ∀ {line front back}, line ∈ lines → line = front ++ ';' :: back → back = []
  /-- An opening brace ends its line or opens a short group. -/
  opening : ∀ {line front back}, line ∈ lines → line = front ++ '{' :: back →
    back = [] ∨ OpensShort back
  /-- A closing brace comes first on its line or closes a short group. -/
  closing : ∀ {line front back}, line ∈ lines → line = front ++ '}' :: back →
    (∀ c ∈ front, c = ' ') ∨ ClosesShort front

/-- **A stepped and tidy text is laid out.** The depth of a line counts the braces in the text
before it, so it is given by being stepped. Being tidy says of each brace and semicolon of the text
what a layout says of those in a line; what ends or starts a line there is empty or blank here. -/
theorem Stepped.laidOut {width : Nat} {cs : List Char} (h : Stepped width 0 cs) (htidy : Tidy cs) :
    LaidOut width (splitAll '\n' cs) where
  indented := h.indented
  semicolon := by
    rintro line front back hline rfl
    obtain ⟨before, after, hlines⟩ := List.append_of_mem hline
    obtain ⟨above, below, hcs, -⟩ := exists_append_of_splitAll hlines
    have hfeed : '\n' ∉ front ++ ';' :: back := not_mem_of_mem_splitAll hline
    have hsplit : cs = (above ++ front) ++ ';' :: (back ++ below) := by simp [hcs]
    exact (htidy.semicolon hsplit).eq_nil fun hc ↦ hfeed (by simp [hc])
  opening := by
    rintro line front back hline rfl
    obtain ⟨before, after, hlines⟩ := List.append_of_mem hline
    obtain ⟨above, below, hcs, -, hbelow, -⟩ := exists_append_of_splitAll hlines
    have hfeed : '\n' ∉ front ++ '{' :: back := not_mem_of_mem_splitAll hline
    have hsplit : cs = (above ++ front) ++ '{' :: (back ++ below) := by simp [hcs]
    rcases htidy.opening hsplit with hends | hshort
    · exact .inl (hends.eq_nil fun hc ↦ hfeed (by simp [hc]))
    · exact .inr (hshort.of_append_endsLine hbelow)
  closing := by
    rintro line front back hline rfl
    obtain ⟨before, after, hlines⟩ := List.append_of_mem hline
    obtain ⟨above, below, hcs, habove, -⟩ := exists_append_of_splitAll hlines
    have hfeed : '\n' ∉ front ++ '}' :: back := not_mem_of_mem_splitAll hline
    have hsplit : cs = (above ++ front) ++ '}' :: (back ++ below) := by simp [hcs]
    rcases htidy.closing hsplit with hstarts | hshort
    · exact .inl (hstarts.eq_space fun hc ↦ hfeed (by simp [hc]))
    · rcases habove with rfl | ⟨start, rfl⟩
      · exact .inr hshort
      · rw [List.append_assoc, List.singleton_append] at hshort
        exact .inr hshort.of_newline_append

/-- **The layout of a type is exact.** Where no part at the start of a text closes more braces than
it opens and there are neither placeholders nor imports, each line of the layout is indented by its
depth, semicolons and opening braces end their lines and closing braces start them, short groups
apart. -/
theorem pretty_laidOut {text : String} {indentation : Int} (hwidth : 1 ≤ indentation)
    (hbraces : ∀ front, front <+: text.toList → front.count '}' ≤ front.count '{')
    (hplaceholder : ¬"$\x7b".toList <:+: text.toList)
    (himport : ¬"typeof import(\"".toList <:+: text.toList) :
    pretty text indentation = "" ∨
      LaidOut indentation.toNat (splitAll '\n' (pretty text indentation).toList) := by
  rw [toList_importOpening] at himport
  have hwhole : ∀ line ∈ (memberLines text.toList).map sugar, Whole line :=
    List.forall_mem_map.2 fun line hline ↦ (whole_of_mem_memberLines hline).sugar
  have htext : Covered 0 text.toList :=
    fun front hfront ↦ (Nat.zero_add _).symm ▸ hbraces front hfront
  -- The braces of the text are those of its lines, so the lines close no more than they open
  -- either.
  have hcovered : Covered 0 ((memberLines text.toList).map sugar).flatten :=
    htext.of_filter_eq (filter_isBrace_flatten _)
  rcases eq_or_ne (memberLines text.toList) [] with hnone | hlines
  · left
    rw [← String.toList_inj, toList_pretty hwidth, reflow, hnone]
    rfl
  · right
    have hstepped : Stepped indentation.toNat 0
        (closeBraces (draft indentation.toNat 0 ((memberLines text.toList).map sugar))) := by
      refine closeBraces_preserves
        (fun before body new behind hopen hclose hnew ↦ Stepped.rewrite hopen hclose hnew)
        (mt rigid_placeholderOpening.infix_of_draft hplaceholder) ?_
      exact stepped_draft _ (by simpa using hlines) hwhole hcovered
    have htidy := tidy_closeBraces_draft indentation.toNat hplaceholder
    rw [toList_pretty hwidth, reflow_of_no_import _ himport, hstepped.dropBlankLines_eq]
    exact hstepped.laidOut htidy

/-- A type with an object in an object, empty braces, a note and an optional member. -/
def nestedType : String :=
  "\x7b a: \x7b \x7d; b: \x7b c: x | undefined; d: \x7b ... 2 more; \x7d \x7d \x7d"

/-- The objects stand on lines of their own, and the empty braces and the note on one line each. -/
theorem pretty_laidOut_sample :
    pretty nestedType 2 = "\x7b\n  a: \x7b\x7d;\n  b: \x7b\n    c?: x;\n" ++
        "    d: \x7b ... 2 more \x7d\n  \x7d\n\x7d" ∧
      LaidOut 2 (splitAll '\n' (pretty nestedType 2).toList) := by
  have hbraces : ∀ front ∈ nestedType.toList.inits, front.count '}' ≤ front.count '{' := by
    decide +kernel
  have hlaidOut := pretty_laidOut (by decide : (1 : Int) ≤ 2)
    (fun front hfront ↦ hbraces front ((List.mem_inits front _).2 hfront)) (by decide +kernel)
    (by decide +kernel)
  exact ⟨by decide +kernel, hlaidOut.resolve_left (by decide +kernel)⟩

end TypeLens.Layout
