import TypeLens.Proofs.Layout.Stretch

/-!
# Where braces and semicolons stand

In a draft every line is whole, so a semicolon and an opening brace end their line and a closing
brace starts its line. Closing braces joins lines again, but only around a *short* body: none at all
or a note. A text in which this is all that happens is *tidy* (`Tidy`).

A tidy text stays tidy when the body of a group is replaced by a short one (`Tidy.rewrite`). Without
placeholders that is what closing braces does (`closeBraces_preserves`), so the layout of a text
without placeholders and imports is tidy, however its braces match (`tidy_closeBraces_draft`).
-/

namespace TypeLens.Layout

open Text

/-! ### Short bodies -/

/-- What may stand between braces on one line: nothing, or a note. -/
def IsShort (body : List Char) : Prop :=
  body = [] ∨ ∃ count, count ≠ [] ∧ (∀ c ∈ count, isDigit c = true) ∧
    body = " ... ".toList ++ count ++ " more ".toList

theorem Restates.isShort {body new : List Char} (h : Restates body new) : IsShort new := by
  obtain ⟨count, ⟨hne, hdigits, -⟩, rfl⟩ := h
  exact .inr ⟨count, hne, hdigits, rfl⟩

/-- A short body has only the characters of a note. -/
theorem IsShort.not_mem {body : List Char} (h : IsShort body) {c : Char}
    (hdigit : isDigit c = false) (hword : c ∉ " ...more".toList) : c ∉ body := by
  rcases h with rfl | ⟨count, -, hdigits, rfl⟩
  · simp
  · have hcount : c ∉ count := fun hc ↦ by simp [hdigits c hc] at hdigit
    have hdots : ∀ d ∈ " ... ".toList, d ∈ " ...more".toList := by simp
    have hmore : ∀ d ∈ " more ".toList, d ∈ " ...more".toList := by simp
    simp only [List.mem_append, not_or]
    exact ⟨⟨mt (hdots c) hword, hcount⟩, mt (hmore c) hword⟩

theorem IsShort.open_not_mem {body : List Char} (h : IsShort body) : '{' ∉ body :=
  h.not_mem (by decide) (by decide)

theorem IsShort.close_not_mem {body : List Char} (h : IsShort body) : '}' ∉ body :=
  h.not_mem (by decide) (by decide)

/-! ### Rewriting groups -/

/-- Where a character of a text with a group stands, if it is no character of the body. -/
theorem group_eq_append_cons {before body behind front back : List Char} {c : Char} (hc : c ∉ body)
    (h : before ++ '{' :: (body ++ '}' :: behind) = front ++ c :: back) :
    (∃ mid, before = front ++ c :: mid ∧ back = mid ++ '{' :: (body ++ '}' :: behind)) ∨
      '{' = c ∧ before = front ∧ body ++ '}' :: behind = back ∨
      '}' = c ∧ before ++ '{' :: body = front ∧ behind = back ∨
      ∃ mid, front = before ++ '{' :: (body ++ '}' :: mid) ∧ behind = mid ++ c :: back := by
  rcases append_cons_eq_append_cons h with hbefore | hopen | ⟨mid, rfl, hmid⟩
  · exact .inl hbefore
  · exact .inr (.inl hopen)
  rcases append_cons_eq_append_cons hmid with ⟨inner, rfl, -⟩ | ⟨hclose, rfl, hbehind⟩ |
    ⟨inner, rfl, hbehind⟩
  · simp at hc
  · exact .inr (.inr (.inl ⟨hclose, rfl, hbehind⟩))
  · exact .inr (.inr (.inr ⟨inner, rfl, hbehind⟩))

/-- What stands behind the last closing brace of a text. -/
theorem eq_append_of_close {xs ys front back : List Char} {c : Char} (hc : '}' ≠ c)
    (hback : '}' ∉ back) (h : xs ++ '}' :: ys = front ++ c :: back) :
    ∃ mid, front = xs ++ '}' :: mid ∧ ys = mid ++ c :: back := by
  rcases append_cons_eq_append_cons h with ⟨mid, -, rfl⟩ | ⟨hsame, -⟩ | hbehind
  · simp at hback
  · exact absurd hsame hc
  · exact hbehind

/-- What stands before the first opening brace of a text. -/
theorem eq_append_of_open {xs ys front back : List Char} {c : Char} (hc : '{' ≠ c)
    (hfront : '{' ∉ front) (h : xs ++ '{' :: ys = front ++ c :: back) :
    ∃ mid, xs = front ++ c :: mid ∧ back = mid ++ '{' :: ys := by
  rcases append_cons_eq_append_cons h with hbefore | ⟨hsame, -⟩ | ⟨mid, rfl, -⟩
  · exact hbefore
  · exact absurd hsame hc
  · simp at hfront

/-- Where the placeholder in a text with a group starts, the body does not matter. -/
theorem placeholderOpening_infix_of_group {before new behind : List Char} (hopen : '{' ∉ new)
    (h : placeholderOpening <:+: before ++ '{' :: (new ++ '}' :: behind)) (body : List Char) :
    placeholderOpening <:+: before ++ '{' :: (body ++ '}' :: behind) := by
  obtain ⟨front, back, h⟩ := h
  have hsplit : before ++ '{' :: (new ++ '}' :: behind) = (front ++ ['$']) ++ '{' :: back := by
    rw [← h]
    simp [placeholderOpening]
  rcases group_eq_append_cons hopen hsplit with ⟨mid, rfl, -⟩ | ⟨-, rfl, -⟩ | ⟨habsurd, -⟩ |
    ⟨mid, hfront, rfl⟩
  · exact ⟨front, mid ++ '{' :: (body ++ '}' :: behind), by simp [placeholderOpening]⟩
  · exact ⟨front, body ++ '}' :: behind, by simp [placeholderOpening]⟩
  · exact absurd habsurd (by decide)
  · -- The dollar is no closing brace, so it stands behind the group.
    have hdollar : (before ++ '{' :: new) ++ '}' :: mid = front ++ '$' :: [] := by
      simp [hfront]
    obtain ⟨mid, rfl, rfl⟩ := eq_append_of_close (by decide) (by simp) hdollar
    exact ⟨before ++ '{' :: (body ++ '}' :: mid), back, by simp [placeholderOpening]⟩

/-- A text without placeholders has none to tighten. -/
theorem substitute_placeholder_of_no_placeholder {cs : List Char}
    (h : ¬placeholderOpening <:+: cs) : substitute placeholder? cs = cs := by
  induction cs with
  | nil => rfl
  | cons c cs ih =>
    have hnone : placeholder? (c :: cs) = none := by
      rcases hmatch : placeholder? (c :: cs) with - | ⟨n, out⟩
      · rfl
      · obtain ⟨body, new, rest, -, hcs, -⟩ := matchesGroups_placeholder?.some_iff.1 hmatch
        rw [hcs] at h
        exact absurd ⟨[], body ++ '}' :: rest, rfl⟩ h
    rw [substitute_of_none hnone, ih fun hword ↦ h (List.infix_cons hword)]

/-- Without placeholders, closing braces is two substitutions. -/
theorem closeBraces_of_no_placeholder {cs : List Char} (h : ¬placeholderOpening <:+: cs) :
    closeBraces cs = substitute excessBraces? (substitute emptyBraces? cs) := by
  have hstep : ∀ before body new behind, '{' ∉ new →
      ¬placeholderOpening <:+: before ++ '{' :: (body ++ '}' :: behind) →
        ¬placeholderOpening <:+: before ++ '{' :: (new ++ '}' :: behind) :=
    fun before body new behind hnew ↦ mt fun hword ↦
      placeholderOpening_infix_of_group hnew hword body
  have hempty := matchesGroups_emptyBraces?.preserves (P := fun cs ↦ ¬placeholderOpening <:+: cs)
    (fun before body new behind hbody ↦ hstep before body new behind (by simp [hbody.2])) h
  have hexcess := matchesGroups_excessBraces?.preserves (P := fun cs ↦ ¬placeholderOpening <:+: cs)
    (fun before body new behind hbody ↦ hstep before body new behind hbody.isShort.open_not_mem)
    hempty
  exact substitute_placeholder_of_no_placeholder hexcess

/-- **Without placeholders, closing braces replaces bodies of groups by short ones**, so it keeps
what each such replacement keeps. -/
theorem closeBraces_preserves {P : List Char → Prop}
    (hP : ∀ before body new behind, '{' ∉ body → '}' ∉ body → IsShort new →
      P (before ++ '{' :: (body ++ '}' :: behind)) → P (before ++ '{' :: (new ++ '}' :: behind)))
    {cs : List Char} (hcs : ¬placeholderOpening <:+: cs) (h : P cs) : P (closeBraces cs) := by
  rw [closeBraces_of_no_placeholder hcs]
  refine matchesGroups_excessBraces?.preserves ?_ (matchesGroups_emptyBraces?.preserves ?_ h)
  · intro before body new behind hbody
    exact hP before body new behind (matchesGroups_excessBraces?.open_not_mem hbody)
      (matchesGroups_excessBraces?.close_not_mem hbody) hbody.isShort
  · intro before body new behind hbody
    exact hP before body new behind (matchesGroups_emptyBraces?.open_not_mem hbody)
      (matchesGroups_emptyBraces?.close_not_mem hbody) (.inl hbody.2)

/-! ### Ends of lines -/

/-- What stands behind the end of a line. -/
def EndsLine (back : List Char) : Prop :=
  back = [] ∨ ∃ rest, back = '\n' :: rest

/-- What stands before the start of a line, its indentation apart. -/
def StartsLine (front : List Char) : Prop :=
  ∃ n, front = List.replicate n ' ' ∨ ∃ start, front = start ++ '\n' :: List.replicate n ' '

/-- What stands behind a brace that opens a short group. -/
def OpensShort (back : List Char) : Prop :=
  ∃ body rest, IsShort body ∧ back = body ++ '}' :: rest

/-- What stands before a brace that closes a short group. -/
def ClosesShort (front : List Char) : Prop :=
  ∃ start body, IsShort body ∧ front = start ++ '{' :: body

/-- A line goes on up to the brace behind it. -/
theorem EndsLine.of_append_open {front rest : List Char} (h : EndsLine (front ++ '{' :: rest))
    (new : List Char) : EndsLine (front ++ '{' :: new) := by
  rcases front with - | ⟨c, front⟩
  · rcases h with h | ⟨_, h⟩
    all_goals simp at h
  · rcases h with h | ⟨_, h⟩
    · simp at h
    · exact .inr ⟨_, congrArg (· :: _) (List.head_eq_of_cons_eq h)⟩

theorem EndsLine.append_newline {back : List Char} (h : EndsLine back) (rest : List Char) :
    EndsLine (back ++ '\n' :: rest) := by
  rcases h with rfl | ⟨rest, rfl⟩
  · exact .inr ⟨_, rfl⟩
  · exact .inr ⟨_, rfl⟩

/-- Between a closing brace and the start of a line there is a line feed. -/
theorem StartsLine.of_append_close {start front : List Char}
    (h : StartsLine (start ++ '}' :: front)) (new : List Char) :
    StartsLine (new ++ '}' :: front) := by
  have hspace : ∀ n, '}' ∉ List.replicate n ' ' := by simp
  obtain ⟨n, hfirst | ⟨before, hlater⟩⟩ := h
  · exact absurd (by simp [← hfirst]) (hspace n)
  · obtain ⟨mid, -, rfl⟩ := eq_append_of_close (by decide) (hspace n) hlater
    exact ⟨n, .inr ⟨new ++ '}' :: mid, by simp⟩⟩

theorem StartsLine.newline_append {front : List Char} (h : StartsLine front) (start : List Char) :
    StartsLine (start ++ '\n' :: front) := by
  obtain ⟨n, rfl | ⟨before, rfl⟩⟩ := h
  · exact ⟨n, .inr ⟨start, rfl⟩⟩
  · exact ⟨n, .inr ⟨start ++ '\n' :: before, by simp⟩⟩

theorem OpensShort.of_append_open {front rest : List Char} (h : OpensShort (front ++ '{' :: rest))
    (new : List Char) : OpensShort (front ++ '{' :: new) := by
  obtain ⟨body, behind, hbody, hfront⟩ := h
  obtain ⟨mid, rfl, -⟩ := eq_append_of_open (by decide) hbody.open_not_mem hfront
  exact ⟨body, mid ++ '{' :: new, hbody, by simp⟩

/-- A short group that is closed behind a closing brace is opened behind it. -/
theorem ClosesShort.of_append_close {start front : List Char}
    (h : ClosesShort (start ++ '}' :: front)) : ClosesShort front := by
  obtain ⟨before, body, hbody, hfront⟩ := h
  obtain ⟨mid, -, rfl⟩ := eq_append_of_close (by decide) hbody.close_not_mem hfront
  exact ⟨mid, body, hbody, rfl⟩

theorem ClosesShort.append_cons {front : List Char} (h : ClosesShort front) (start : List Char)
    (c : Char) : ClosesShort (start ++ c :: front) := by
  obtain ⟨before, body, hbody, rfl⟩ := h
  exact ⟨start ++ c :: before, body, hbody, by simp⟩

/-- What comes up to the end of a line without a line feed is empty. -/
theorem EndsLine.eq_nil {back rest : List Char} (h : EndsLine (back ++ rest))
    (hback : '\n' ∉ back) : back = [] := by
  rcases back with - | ⟨c, back⟩
  · rfl
  · rcases h with h | ⟨_, h⟩
    · simp at h
    · exact absurd (List.mem_cons.2 (.inl (List.head_eq_of_cons_eq h).symm)) hback

/-- Where a line starts, there are only blanks of its own line. -/
theorem StartsLine.eq_space {start front : List Char} (h : StartsLine (start ++ front))
    (hfront : '\n' ∉ front) : ∀ c ∈ front, c = ' ' := by
  intro c hc
  obtain ⟨n, hfirst | ⟨before, hlater⟩⟩ := h
  · exact List.eq_of_mem_replicate (hfirst ▸ List.mem_append_right start hc)
  · rcases append_eq_append_cons hlater with ⟨mid, -, hspace⟩ | ⟨mid, -, rfl⟩
    · exact List.eq_of_mem_replicate (hspace ▸ List.mem_append_right mid hc)
    · simp at hfront

/-! ### Tidy texts -/

/-- A text in which lines are broken at semicolons and braces, short groups apart. -/
structure Tidy (cs : List Char) : Prop where
  /-- A semicolon ends its line. -/
  semicolon : ∀ {front back}, cs = front ++ ';' :: back → EndsLine back
  /-- An opening brace ends its line or opens a short group. -/
  opening : ∀ {front back}, cs = front ++ '{' :: back → EndsLine back ∨ OpensShort back
  /-- A closing brace starts its line or closes a short group. -/
  closing : ∀ {front back}, cs = front ++ '}' :: back → StartsLine front ∨ ClosesShort front

namespace Tidy

/-- **A tidy text stays tidy when the body of a group gets short.** -/
theorem rewrite {before body new behind : List Char} (hnew : IsShort new)
    (h : Tidy (before ++ '{' :: (body ++ '}' :: behind))) :
    Tidy (before ++ '{' :: (new ++ '}' :: behind)) := by
  have hsplit : ∀ mid c back, before ++ '{' :: (body ++ '}' :: (mid ++ c :: back)) =
      ((before ++ '{' :: body) ++ '}' :: mid) ++ c :: back := by simp
  -- A semicolon or a brace stands before the group, is one of the group's braces, or stands behind
  -- it.
  refine ⟨fun {front back} hcs ↦ ?_, fun {front back} hcs ↦ ?_, fun {front back} hcs ↦ ?_⟩
  · rcases group_eq_append_cons (hnew.not_mem (by decide) (by decide)) hcs with
      ⟨mid, rfl, rfl⟩ | ⟨habsurd, -⟩ | ⟨habsurd, -⟩ | ⟨mid, -, rfl⟩
    · exact (h.semicolon (List.append_assoc _ _ _)).of_append_open _
    · exact absurd habsurd (by decide)
    · exact absurd habsurd (by decide)
    · exact h.semicolon (hsplit mid ';' back)
  · rcases group_eq_append_cons hnew.open_not_mem hcs with
      ⟨mid, rfl, rfl⟩ | ⟨-, -, rfl⟩ | ⟨habsurd, -⟩ | ⟨mid, -, rfl⟩
    · rcases h.opening (List.append_assoc _ _ _) with hends | hshort
      · exact .inl (hends.of_append_open _)
      · exact .inr (hshort.of_append_open _)
    · exact .inr ⟨new, behind, hnew, rfl⟩
    · exact absurd habsurd (by decide)
    · exact h.opening (hsplit mid '{' back)
  · rcases group_eq_append_cons hnew.close_not_mem hcs with
      ⟨mid, rfl, rfl⟩ | ⟨habsurd, -⟩ | ⟨-, rfl, -⟩ | ⟨mid, rfl, rfl⟩
    · exact h.closing (List.append_assoc _ _ _)
    · exact absurd habsurd (by decide)
    · exact .inr ⟨before, new, hnew, rfl⟩
    · have hfront : before ++ '{' :: (new ++ '}' :: mid) =
          (before ++ '{' :: new) ++ '}' :: mid := by simp
      rw [hfront]
      rcases h.closing (hsplit mid '}' back) with hstarts | hshort
      · exact .inl (hstarts.of_append_close _)
      · exact .inr (hshort.of_append_close.append_cons _ _)

/-- A whole line is tidy. -/
theorem of_whole {line : List Char} (h : Whole line) (n : Nat) :
    Tidy (List.replicate n ' ' ++ line) := by
  have hsplit : ∀ {front back : List Char} {c : Char}, c ≠ ' ' →
      List.replicate n ' ' ++ line = front ++ c :: back →
        ∃ mid, front = List.replicate n ' ' ++ mid ∧ line = mid ++ c :: back := by
    intro front back c hc hcs
    rcases append_eq_append_cons hcs with ⟨mid, hmid, -⟩ | hline
    · have hmem : c ∈ List.replicate n ' ' := by simp [hmid]
      exact absurd (List.eq_of_mem_replicate hmem) hc
    · exact hline
  -- A whole line has a semicolon or an opening brace at its end only.
  have hlast : ∀ {mid back : List Char} {c : Char}, c = '{' ∨ c = ';' → line = mid ++ c :: back →
      EndsLine back := by
    intro mid back c hc hline
    rcases eq_or_ne back [] with rfl | hback
    · exact .inl rfl
    · have hmem : c ∈ line.dropLast := by
        rw [hline, List.dropLast_append_of_ne_nil (by simp), List.dropLast_cons_of_ne_nil hback]
        simp
      rcases hc with rfl | rfl
      · exact absurd rfl (h.inner _ hmem).1
      · exact absurd rfl (h.inner _ hmem).2
  refine ⟨fun hcs ↦ ?_, fun hcs ↦ ?_, fun {front back} hcs ↦ ?_⟩
  · obtain ⟨mid, -, hline⟩ := hsplit (by decide) hcs
    exact hlast (.inr rfl) hline
  · obtain ⟨mid, -, hline⟩ := hsplit (by decide) hcs
    exact .inl (hlast (.inl rfl) hline)
  · obtain ⟨mid, rfl, hline⟩ := hsplit (by decide) hcs
    rcases mid with - | ⟨c, mid⟩
    · exact .inl ⟨n, .inl (by simp)⟩
    · have hclose := h.close
      simp [hline] at hclose

/-- Tidy texts under each other are tidy. -/
theorem append_newline {xs ys : List Char} (hx : Tidy xs) (hy : Tidy ys) :
    Tidy (xs ++ '\n' :: ys) where
  semicolon := by
    intro front back hcs
    rcases append_cons_eq_append_cons hcs with ⟨mid, rfl, rfl⟩ | ⟨habsurd, -⟩ | ⟨mid, rfl, rfl⟩
    · exact (hx.semicolon rfl).append_newline ys
    · exact absurd habsurd (by decide)
    · exact hy.semicolon rfl
  opening := by
    intro front back hcs
    rcases append_cons_eq_append_cons hcs with ⟨mid, rfl, rfl⟩ | ⟨habsurd, -⟩ | ⟨mid, rfl, rfl⟩
    · rcases hx.opening rfl with hends | ⟨body, rest, hbody, rfl⟩
      · exact .inl (hends.append_newline ys)
      · exact .inr ⟨body, rest ++ '\n' :: ys, hbody, by simp⟩
    · exact absurd habsurd (by decide)
    · exact hy.opening rfl
  closing := by
    intro front back hcs
    rcases append_cons_eq_append_cons hcs with ⟨mid, rfl, rfl⟩ | ⟨habsurd, -⟩ | ⟨mid, rfl, rfl⟩
    · exact hx.closing rfl
    · exact absurd habsurd (by decide)
    · rcases hy.closing rfl with hstarts | hshort
      · exact .inl (hstarts.newline_append xs)
      · exact .inr (hshort.append_cons xs '\n')

end Tidy

/-- A draft of whole lines is tidy. -/
theorem tidy_draft (width depth : Nat) {lines : List (List Char)}
    (h : ∀ line ∈ lines, Whole line) : Tidy (draft width depth lines) := by
  induction lines generalizing depth with
  | nil => exact ⟨by simp [draft, nest, joinAll], by simp [draft, nest, joinAll],
      by simp [draft, nest, joinAll]⟩
  | cons line lines ih =>
    obtain ⟨hline, hlines⟩ := List.forall_mem_cons.1 h
    rw [draft_cons, ← List.append_assoc]
    split
    · rw [List.append_nil]
      exact .of_whole hline _
    · exact (Tidy.of_whole hline _).append_newline (ih _ hlines)

/-- **What is laid out without placeholders is tidy.** -/
theorem tidy_closeBraces_draft (width : Nat) {cs : List Char} (h : ¬placeholderOpening <:+: cs) :
    Tidy (closeBraces (draft width 0 ((memberLines cs).map sugar))) := by
  refine closeBraces_preserves (fun before body new behind _ _ hnew ↦ Tidy.rewrite hnew)
    (mt rigid_placeholderOpening.infix_of_draft h) (tidy_draft width 0 ?_)
  exact List.forall_mem_map.2 fun line hline ↦ (whole_of_mem_memberLines hline).sugar

end TypeLens.Layout
