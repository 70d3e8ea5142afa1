import Mathlib.Data.Option.Basic
import TypeLens.Proofs.Layout.Draft
import TypeLens.Proofs.Layout.Group

/-!
# Notes on hidden members

Braces around nothing but a count of hidden members are closed again, and the body is written as one
*note*: three dots, the count and the word `more`, with single blanks between them.

Unlike the other two shapes, a note does change the lines of the text: its words may come from
several lines, and there may have been a semicolon. But breaking and nesting only ever change the
blanks between words (`Spaced.draft`), so what was a note stays a note of the same count
(`IsNote.draft`).
-/

namespace TypeLens.Layout

open Text

/-! ### Words between blanks -/

/-- A word that breaking leaves in one piece. -/
structure Solid (word : List Char) : Prop where
  ne_nil : word ≠ []
  not_blank : ∀ c ∈ word, isBlank c = false
  not_brace : ∀ c ∈ word, c ≠ '{' ∧ c ≠ '}'
  semicolon : ';' ∉ word.dropLast

instance (word : List Char) : Decidable (Solid word) :=
  decidable_of_iff (word ≠ [] ∧ (word.all fun c ↦ !isBlank c) ∧
      (word.all fun c ↦ c ≠ '{' ∧ c ≠ '}') ∧ ';' ∉ word.dropLast)
    ⟨fun h ↦ ⟨h.1, by simpa using h.2.1, by simpa using h.2.2.1, h.2.2.2⟩,
      fun h ↦ ⟨h.ne_nil, by simpa using h.not_blank, by simpa using h.not_brace, h.semicolon⟩⟩

/-- The words of a text in their order, with blanks before, between and behind them. -/
inductive Spaced : List (List Char) → List Char → Prop
  | nil {ws : List Char} (hws : Blank ws) : Spaced [] ws
  | cons {ws word : List Char} {words : List (List Char)} {cs : List Char} (hws : Blank ws)
      (hcs : Spaced words cs) : Spaced (word :: words) (ws ++ (word ++ cs))

namespace Solid

variable {word : List Char}

theorem head (h : Solid word) : ∀ c ∈ word.head?, isBlank c = false :=
  fun c hc ↦ h.not_blank c (List.mem_of_head? hc)

theorem dropWhile_append (h : Solid word) {ws : List Char} (hws : Blank ws) (cs : List Char) :
    (ws ++ (word ++ cs)).dropWhile isBlank = word ++ cs := by
  obtain ⟨c, rest, rfl⟩ := List.exists_cons_of_ne_nil h.ne_nil
  exact dropWhile_append_cons hws (h.not_blank c List.mem_cons_self) _

/-- A solid word makes a whole line. -/
theorem whole (h : Solid word) : Whole word where
  close hc := (h.not_brace _ (List.mem_of_mem_tail hc)).2 rfl
  inner c hc := ⟨(h.not_brace c (List.dropLast_subset _ hc)).1, fun e ↦ h.semicolon (e ▸ hc)⟩
  newline hc := absurd (h.not_blank _ hc) (by decide)
  ne_nil := h.ne_nil
  trimmed := trim_eq_self h.head fun c hc ↦ h.not_blank c (List.mem_of_getLast? hc)

end Solid

theorem Blank.append {xs ys : List Char} (hx : Blank xs) (hy : Blank ys) : Blank (xs ++ ys) :=
  List.forall_mem_append.2 ⟨hx, hy⟩

namespace Spaced

variable {words : List (List Char)} {cs ws : List Char}

theorem exists_of_cons {word : List Char} (h : Spaced (word :: words) cs) :
    ∃ ws rest, Blank ws ∧ Spaced words rest ∧ cs = ws ++ (word ++ rest) := by
  cases h with
  | cons hws hrest => exact ⟨_, _, hws, hrest, rfl⟩

theorem blank (h : Spaced [] cs) : Blank cs := by
  cases h with
  | nil hws => exact hws

theorem blank_append (h : Spaced words cs) (hws : Blank ws) : Spaced words (ws ++ cs) := by
  cases h with
  | nil hcs => exact .nil (hws.append hcs)
  | cons hfront hcs =>
    rw [← List.append_assoc]
    exact .cons (hws.append hfront) hcs

theorem append_blank (h : Spaced words cs) (hws : Blank ws) : Spaced words (cs ++ ws) := by
  induction h with
  | nil hcs => exact .nil (hcs.append hws)
  | cons hfront _ ih =>
    rw [List.append_assoc, List.append_assoc]
    exact .cons hfront ih

/-- Blanks before the first word belong to no word. -/
theorem of_blank_append (hws : Blank ws) (hwords : ∀ word ∈ words, Solid word)
    (h : Spaced words (ws ++ cs)) : Spaced words cs := by
  generalize hall : ws ++ cs = all at h
  cases h with
  | nil hblank =>
    subst hall
    exact .nil fun c hc ↦ hblank c (List.mem_append_right _ hc)
  | @cons front word words rest hfront hrest =>
    rcases List.append_eq_append_iff.1 hall with ⟨beyond, rfl, rfl⟩ | ⟨beyond, rfl, hbeyond⟩
    · exact .cons (fun c hc ↦ hfront c (List.mem_append_right _ hc)) hrest
    · cases beyond with
      | nil =>
        rw [List.nil_append] at hbeyond
        rw [← hbeyond]
        exact .cons blank_nil hrest
      | cons c beyond =>
        -- A word would start with a blank.
        have hword := hwords word List.mem_cons_self
        obtain ⟨d, word', rfl⟩ := List.exists_cons_of_ne_nil hword.ne_nil
        obtain ⟨rfl, -⟩ := List.cons_eq_cons.1 hbeyond
        have hblank := hws d (by simp)
        simp [hword.not_blank d List.mem_cons_self] at hblank

/-- A character that is in none of the words and is no blank does not occur. -/
theorem not_mem {c : Char} (h : Spaced words cs) (hc : isBlank c = false)
    (hwords : ∀ word ∈ words, c ∉ word) : c ∉ cs := by
  induction h with
  | nil hws => exact hws.not_mem hc
  | cons hws _ ih =>
    obtain ⟨hword, hrest⟩ := List.forall_mem_cons.1 hwords
    simp [hws.not_mem hc, hword, ih hrest]

end Spaced

/-! ### Lines that start with a word -/

/-- A word that does not end its line is not broken. -/
theorem Solid.breakMembers_eq {word : List Char} (h : Solid word)
    (hlast : word.getLast? ≠ some ';') : breakMembers word = word := by
  refine breakMembers_eq_self fun c hc ↦ ⟨(h.not_brace c hc).1, (h.not_brace c hc).2, ?_⟩
  rintro rfl
  obtain ⟨front, last, rfl⟩ := (List.eq_nil_or_concat word).resolve_left h.ne_nil
  have hinner := h.semicolon
  rw [List.concat_eq_append] at hc hlast hinner
  rw [List.dropLast_concat] at hinner
  rw [List.getLast?_concat] at hlast
  rcases List.mem_append.1 hc with hfront | hend
  · exact hinner hfront
  · exact hlast (congrArg some (List.mem_singleton.1 hend).symm)

/-- Text behind a word goes on in the line of the word. -/
theorem memberLines_word_gap {word gap : List Char} (h : Solid word)
    (hlast : word.getLast? ≠ some ';') (hgap : Blank gap) (hfeed : '\n' ∉ gap) {d : Char}
    (hd : isBlank d = false) (hclose : d ≠ '}') (tail : List Char) :
    ∃ line rest, memberLines (gap ++ d :: tail) = line :: rest ∧
      memberLines (word ++ (gap ++ d :: tail)) = (word ++ (gap ++ line)) :: rest := by
  obtain ⟨tail', hbreak⟩ := breakMembers_cons hclose tail
  obtain ⟨line, rest, hlines, happend⟩ := trimmedLines_cons hd tail'
  have hplain := h.breakMembers_eq hlast
  obtain ⟨c, word', rfl⟩ := List.exists_cons_of_ne_nil h.ne_nil
  refine ⟨d :: line, rest, ?_, ?_⟩
  · rw [memberLines_blank_append hgap, memberLines_eq, hbreak, hlines]
  · have hjoin : ∀ cs : List Char, c :: word' ++ (gap ++ cs) = c :: (word' ++ gap ++ cs) := by
      simp
    have hinside : '\n' ∉ word' ++ gap := by
      have hnone : '\n' ∉ word' := List.not_mem_of_not_mem_cons h.whole.newline
      simp [hnone, hfeed]
    rw [memberLines_eq, breakMembers_append, breakMembers_append, hplain,
      breakMembers_of_blank hgap, hbreak, hjoin, hjoin]
    exact happend c (word' ++ gap) (h.not_blank c List.mem_cons_self) hinside

/-- A word in front of a text is a line of its own or stands at the start of the first line. -/
theorem memberLines_word_append {word : List Char} (h : Solid word) (cs : List Char) :
    memberLines (word ++ cs) = word :: memberLines cs ∨
      ∃ gap line rest, Blank gap ∧ memberLines cs = line :: rest ∧
        memberLines (word ++ cs) = (word ++ (gap ++ line)) :: rest := by
  have hword : memberLines word = [word] := memberLines_of_whole h.whole
  -- A semicolon at the end of the word ends its line.
  by_cases hlast : word.getLast? = some ';'
  · left
    obtain ⟨front, rfl⟩ := List.getLast?_eq_some_iff.1 hlast
    rw [List.append_assoc, List.singleton_append, memberLines_append_break (.inr rfl), hword,
      List.singleton_append]
  obtain ⟨gap, tail, rfl, hgap, htail⟩ : ∃ gap tail, cs = gap ++ tail ∧ Blank gap ∧
      ∀ c ∈ tail.head?, isBlank c = false :=
    ⟨_, _, List.takeWhile_append_dropWhile.symm, fun c hc ↦ List.mem_takeWhile_imp hc,
      head_dropWhile isBlank cs⟩
  -- So does a line feed among the blanks behind it.
  by_cases hfeed : '\n' ∈ gap
  · left
    obtain ⟨gap₁, gap₂, rfl⟩ := List.append_of_mem hfeed
    obtain ⟨hgap₁, -⟩ := List.forall_mem_append.1 hgap
    have hsplit : word ++ (gap₁ ++ '\n' :: gap₂ ++ tail) =
        word ++ gap₁ ++ '\n' :: (gap₂ ++ tail) := by simp
    rw [hsplit, memberLines_append_newline, memberLines_append_blank hgap₁, hword,
      List.singleton_append, List.append_assoc, List.cons_append, memberLines_append_newline,
      memberLines_of_blank hgap₁, List.nil_append]
  rcases tail with - | ⟨d, tail⟩
  · left
    rw [List.append_nil, memberLines_append_blank hgap, hword, memberLines_of_blank hgap]
  -- A closing brace starts a line of its own. Anything else stays on the line of the word.
  by_cases hclose : d = '}'
  · subst hclose
    left
    rw [← List.append_assoc, memberLines_append_close, memberLines_append_blank hgap, hword,
      memberLines_blank_append hgap, List.singleton_append]
  · obtain ⟨line, rest, hlines, happend⟩ :=
      memberLines_word_gap h hlast hgap hfeed (htail d rfl) hclose tail
    exact .inr ⟨gap, line, rest, hgap, hlines, happend⟩

/-- **Breaking and nesting only change the blanks between words.** -/
theorem Spaced.draft {words : List (List Char)} {cs : List Char} (h : Spaced words cs)
    (hwords : ∀ word ∈ words, Solid word) (width depth : Nat) :
    Spaced words (draft width depth (memberLines cs)) := by
  induction h with
  | nil hws =>
    rw [memberLines_of_blank hws]
    exact .nil blank_nil
  | @cons ws word words cs hws _ ih =>
    obtain ⟨hword, hrest⟩ := List.forall_mem_cons.1 hwords
    have hspaced := ih hrest
    have hopen : '{' ∉ word := fun hc ↦ (hword.not_brace _ hc).1 rfl
    have hclose : '}' ∉ word := fun hc ↦ (hword.not_brace _ hc).2 rfl
    rw [memberLines_blank_append hws]
    rcases memberLines_word_append hword cs with hlines | ⟨gap, line, rest, hgap, hcs, hlines⟩
    · have hdepth : nextDepth depth word = depth := by simp [nextDepth, ownDepth, hopen, hclose]
      rw [hlines, draft_cons, hdepth]
      refine .cons (blank_replicate_space _) ?_
      split
      · next hnone => simpa [hnone, Layout.draft, nest, joinAll] using hspaced
      · exact hspaced.blank_append (by decide : Blank ['\n'])
    · have hown : ownDepth depth (word ++ (gap ++ line)) = ownDepth depth line := by
        simp [ownDepth, hclose, hgap.not_mem (by decide : isBlank '}' = false)]
      have hnext : nextDepth depth (word ++ (gap ++ line)) = nextDepth depth line := by
        simp [nextDepth, hown, hopen, hgap.not_mem (by decide : isBlank '{' = false)]
      -- The first line of the rest loses its indentation to the word.
      rw [hcs, draft_cons] at hspaced
      have hline := hspaced.of_blank_append (blank_replicate_space _) hrest
      rw [hlines, draft_cons, hown, hnext, List.append_assoc, List.append_assoc]
      exact .cons (blank_replicate_space _) (hline.blank_append hgap)

/-! ### Notes -/

/-- The body of braces around nothing but a count of hidden members. -/
def IsNote (count body : List Char) : Prop :=
  count ≠ [] ∧ (∀ c ∈ count, isDigit c = true) ∧
    ∃ last, (last = "more".toList ∨ last = "more;".toList) ∧ Spaced ["...".toList, count, last] body

/-- A count is a solid word. -/
theorem solid_of_isDigit {count : List Char} (hne : count ≠ [])
    (h : ∀ c ∈ count, isDigit c = true) : Solid count where
  ne_nil := hne
  not_blank c hc := isBlank_of_isDigit (h c hc)
  not_brace c hc := by
    constructor
    all_goals
      rintro rfl
      exact absurd (h _ hc) (by decide)
  semicolon hc := absurd (h _ (List.dropLast_subset _ hc)) (by decide)

namespace IsNote

variable {count body : List Char}

/-- All words of a note are solid. -/
theorem solid (hne : count ≠ []) (h : ∀ c ∈ count, isDigit c = true) {last : List Char}
    (hlast : last = "more".toList ∨ last = "more;".toList) :
    ∀ word ∈ ["...".toList, count, last], Solid word := by
  have hdots : Solid "...".toList := by decide
  have hmore : Solid last := by
    rcases hlast with rfl | rfl
    · decide
    · decide
  simp only [List.forall_mem_cons]
  exact ⟨hdots, solid_of_isDigit hne h, hmore, by simp⟩

/-- The characters of a note. -/
theorem not_mem (h : IsNote count body) {c : Char} (hblank : isBlank c = false)
    (hdigit : isDigit c = false) (hword : c ∉ "...more;".toList) : c ∉ body := by
  obtain ⟨-, hdigits, last, hlast, hspaced⟩ := h
  refine hspaced.not_mem hblank ?_
  simp only [List.forall_mem_cons]
  refine ⟨fun hc ↦ hword ?_, fun hc ↦ ?_, fun hc ↦ hword ?_, by simp⟩
  · exact List.mem_append_left "more;".toList hc
  · simp [hdigits c hc] at hdigit
  · rcases hlast with rfl | rfl
    · exact List.mem_append_left [';'] (List.mem_append_right "...".toList hc)
    · exact List.mem_append_right "...".toList hc

theorem open_not_mem (h : IsNote count body) : '{' ∉ body :=
  h.not_mem (by decide) (by decide) (by decide)

theorem close_not_mem (h : IsNote count body) : '}' ∉ body :=
  h.not_mem (by decide) (by decide) (by decide)

/-- **A note stays a note when it is broken and nested.** -/
theorem draft (h : IsNote count body) (width depth : Nat) {front back : List Char}
    (hfront : Blank front) (hback : Blank back) :
    IsNote count (front ++ Layout.draft width depth (memberLines body) ++ back) := by
  obtain ⟨hne, hdigits, last, hlast, hspaced⟩ := h
  have hdraft := hspaced.draft (solid hne hdigits hlast) width depth
  exact ⟨hne, hdigits, last, hlast, (hdraft.blank_append hfront).append_blank hback⟩

end IsNote

/-- How the body of a note is rewritten. -/
def Restates (body new : List Char) : Prop :=
  ∃ count, IsNote count body ∧ new = " ... ".toList ++ count ++ " more ".toList

/-- The count of a note ends where a blank or the last word starts. -/
theorem exists_cons_last {ws last : List Char}
    (hlast : last = "more".toList ∨ last = "more;".toList) (hws : Blank ws) (cs : List Char) :
    ∃ d tail, ws ++ (last ++ cs) = d :: tail ∧ isDigit d = false := by
  rcases ws with - | ⟨b, ws⟩
  · rcases hlast with rfl | rfl
    · exact ⟨'m', _, rfl, by decide⟩
    · exact ⟨'m', _, rfl, by decide⟩
  · refine ⟨b, _, rfl, ?_⟩
    by_contra hdigit
    have hblank := hws b List.mem_cons_self
    simp [isBlank_of_isDigit (by simpa using hdigit)] at hblank

/-- Braces around a note are matched. -/
theorem excessBraces?_of_isNote {count body : List Char} (h : IsNote count body)
    (rest : List Char) :
    excessBraces? ('{' :: (body ++ '}' :: rest)) =
      some (body.length + 2, '{' :: (" ... ".toList ++ count ++ " more ".toList ++ ['}'])) := by
  obtain ⟨hne, hdigits, last, hlast, hspaced⟩ := h
  have hsolid := IsNote.solid hne hdigits hlast
  simp only [List.forall_mem_cons] at hsolid
  obtain ⟨hdots, hcount, hmore, -⟩ := hsolid
  -- A note is its three words with blanks before each of them and behind the last one.
  obtain ⟨w₁, _, hw₁, hrest₁, rfl⟩ := hspaced.exists_of_cons
  obtain ⟨w₂, _, hw₂, hrest₂, rfl⟩ := hrest₁.exists_of_cons
  obtain ⟨w₃, w₄, hw₃, hrest₃, rfl⟩ := hrest₂.exists_of_cons
  have hclose : (w₄ ++ '}' :: rest).dropWhile isBlank = '}' :: rest :=
    dropWhile_append_cons hrest₃.blank (by decide) rest
  obtain ⟨d, tail, htail, hd⟩ := exists_cons_last hlast hw₃ (w₄ ++ '}' :: rest)
  have htake : (count ++ (w₃ ++ (last ++ (w₄ ++ '}' :: rest)))).takeWhile isDigit = count := by
    rw [htail, takeWhile_append_cons hdigits hd]
  have hdrop : (count ++ (w₃ ++ (last ++ (w₄ ++ '}' :: rest)))).dropWhile isDigit =
      w₃ ++ (last ++ (w₄ ++ '}' :: rest)) := by
    rw [htail, dropWhile_append_cons hdigits hd]
  simp only [excessBraces?, List.append_assoc, hdots.dropWhile_append hw₁, after?_append,
    Option.bind_eq_bind, Option.bind_some, hcount.dropWhile_append hw₂, htake, hdrop,
    hmore.dropWhile_append hw₃]
  have hsemicolon : ∀ cs : List Char,
      after? "more".toList ("more;".toList ++ cs) = some (';' :: cs) := fun cs ↦ rfl
  have hguard : guard ((!count.isEmpty) = true) = some () :=
    (Option.guard_eq_some' _).2 (by simpa using hne)
  -- The pattern takes a semicolon if one is next. Without one in the note, a blank or the brace is
  -- next.
  rcases hlast with rfl | rfl
  · rw [after?_append, hguard]
    obtain ⟨e, behind, hbehind, he⟩ : ∃ e behind, w₄ ++ '}' :: rest = e :: behind ∧ e ≠ ';' := by
      rcases w₄ with - | ⟨e, w₄⟩
      · exact ⟨'}', rest, rfl, by decide⟩
      · refine ⟨e, _, rfl, ?_⟩
        rintro rfl
        exact hrest₃.blank.not_mem (by decide) List.mem_cons_self
    rw [hbehind] at hclose ⊢
    simp only [Option.bind_some, List.cons.injEq, he, false_and, imp_self, implies_true, hclose]
    rw [← hbehind]
    simp
    omega
  · rw [hsemicolon, hguard]
    simp only [Option.bind_some, hclose]
    simp
    omega

/-- What is matched are braces around a note. -/
theorem isNote_of_excessBraces? {cs out : List Char} {n : Nat}
    (h : excessBraces? cs = some (n, out)) :
    ∃ count body rest, IsNote count body ∧ cs = '{' :: (body ++ '}' :: rest) ∧
      n = body.length + 2 ∧ out = '{' :: (" ... ".toList ++ count ++ " more ".toList ++ ['}']) := by
  rcases cs with - | ⟨c, cs⟩
  · simp [excessBraces?] at h
  by_cases hc : c = '{'
  · subst hc
    have hsplit : ∀ {p : Char → Bool} {cs rest : List Char}, cs.dropWhile p = rest →
        cs = cs.takeWhile p ++ rest := by
      rintro p cs - rfl
      exact List.takeWhile_append_dropWhile.symm
    have hblank : ∀ cs : List Char, Blank (cs.takeWhile isBlank) :=
      fun cs c hc ↦ List.mem_takeWhile_imp hc
    simp only [excessBraces?, Option.bind_eq_bind, Option.bind_eq_some_iff, after?_eq_some_iff] at h
    obtain ⟨body, hdots, u, hguard, tail, hmore, hmatch⟩ := h
    have hcount : (body.dropWhile isBlank).takeWhile isDigit ≠ [] := by
      simpa using (Option.guard_eq_some' _).1 hguard
    split at hmatch
    · next rest hclose =>
      obtain ⟨rfl, rfl⟩ := Prod.mk.inj (Option.some.inj hmatch)
      obtain ⟨last, tail', hlast, htail, hclose⟩ : ∃ last tail',
          (last = "more".toList ∨ last = "more;".toList) ∧ "more".toList ++ tail = last ++ tail' ∧
            tail'.dropWhile isBlank = '}' :: rest := by
        split at hclose
        · exact ⟨_, _, .inr rfl, rfl, hclose⟩
        · exact ⟨_, _, .inl rfl, rfl, hclose⟩
      rw [htail] at hmore
      -- The body is put together from its parts in the order they were read.
      obtain ⟨note, hnote, rfl⟩ : ∃ note, IsNote ((body.dropWhile isBlank).takeWhile isDigit) note ∧
          cs = note ++ '}' :: rest := by
        refine ⟨_, ⟨hcount, fun c hc ↦ List.mem_takeWhile_imp hc, last, hlast, .cons (hblank cs)
          (.cons (hblank body) (.cons (hblank ((body.dropWhile isBlank).dropWhile isDigit))
            (.nil (hblank tail'))))⟩, ?_⟩
        simp only [List.append_assoc]
        rw [← hsplit hclose, ← hsplit hmore, List.takeWhile_append_dropWhile,
          List.takeWhile_append_dropWhile, ← hsplit hdots]
      refine ⟨_, note, rest, hnote, rfl, ?_, by simp⟩
      simp only [List.length_append, List.length_cons]
      omega
    · simp at hmatch
  · simp [excessBraces?, hc] at h

/-- The pattern for notes matches the groups that hold a note. -/
theorem matchesGroups_excessBraces? : MatchesGroups excessBraces? [] Restates where
  some_iff := by
    intro cs n out
    constructor
    · intro h
      obtain ⟨count, body, rest, hnote, rfl, rfl, rfl⟩ := isNote_of_excessBraces? h
      exact ⟨body, _, rest, ⟨count, hnote, rfl⟩, rfl, by simp, by simp⟩
    · rintro ⟨body, -, rest, ⟨count, hnote, rfl⟩, rfl, rfl, rfl⟩
      simpa using excessBraces?_of_isNote hnote rest
  open_not_mem := by
    rintro body - ⟨count, hnote, rfl⟩
    exact hnote.open_not_mem
  close_not_mem := by
    rintro body - ⟨count, hnote, rfl⟩
    exact hnote.close_not_mem

end TypeLens.Layout
