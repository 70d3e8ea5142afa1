import TypeLens.Proofs.Layout.Lines

/-!
# Groups

A *group* is a pair of braces around a body without braces. The three matchers that put braces back
on one line all match groups: they keep the braces and rewrite the body. `MatchesGroups` says so of
a matcher, with the relation between a body and what it becomes as a parameter, and the three
matchers are instances of it (`matchesGroups_emptyBraces?`, `matchesGroups_excessBraces?`,
`matchesGroups_placeholder?`).

What is kept when one body is rewritten is kept by a whole substitution (`MatchesGroups.preserves`),
so what a function of a text does not see of one body it does not see of the substitution
(`MatchesGroups.substitute_congr`). Where a group starts with its brace, no match runs across a
character that no body has, so the parts of a text before and behind it are rewritten apart
(`MatchesGroups.substitute_append_cons`). An opening brace is such a character.
-/

namespace TypeLens.Layout

open Text

/-- A text is cut in one way only at the first of a character. -/
theorem append_cons_inj {c : Char} {xs ys us vs : List Char} (hx : c ∉ xs) (hy : c ∉ ys)
    (h : xs ++ c :: us = ys ++ c :: vs) : xs = ys ∧ us = vs := by
  induction xs generalizing ys with
  | nil =>
    cases ys with
    | nil => exact ⟨rfl, List.tail_eq_of_cons_eq h⟩
    | cons y ys => exact absurd (List.head_eq_of_cons_eq h) (List.ne_of_not_mem_cons hy)
  | cons x xs ih =>
    cases ys with
    | nil => exact absurd (List.head_eq_of_cons_eq h).symm (List.ne_of_not_mem_cons hx)
    | cons y ys =>
      obtain ⟨rfl, hrest⟩ := List.cons_eq_cons.1 h
      obtain ⟨rfl, rfl⟩ :=
        ih (List.not_mem_of_not_mem_cons hx) (List.not_mem_of_not_mem_cons hy) hrest
      exact ⟨rfl, rfl⟩

/-- Behind a group the text goes on. -/
theorem drop_group (mark body rest : List Char) :
    (mark ++ '{' :: (body ++ '}' :: rest)).drop (mark.length + body.length + 2) = rest := by
  have hsplit : mark ++ '{' :: (body ++ '}' :: rest) =
      (mark ++ '{' :: (body ++ ['}'])) ++ rest := by simp
  have hlength : (mark ++ '{' :: (body ++ ['}'])).length = mark.length + body.length + 2 := by
    simp only [List.length_append, List.length_cons, List.length_nil]
    omega
  rw [hsplit, ← hlength, List.drop_left]

/-- A matcher that finds groups behind `mark` and rewrites their bodies. -/
structure MatchesGroups (matcher : List Char → Option (Nat × List Char)) (mark : List Char)
    (Rewrites : List Char → List Char → Prop) : Prop where
  /-- The matches are the groups whose body is rewritten. -/
  some_iff : ∀ {cs n out}, matcher cs = some (n, out) ↔ ∃ body new rest, Rewrites body new ∧
    cs = mark ++ '{' :: (body ++ '}' :: rest) ∧ n = mark.length + body.length + 2 ∧
      out = mark ++ '{' :: (new ++ ['}'])
  /-- A body has no opening brace. -/
  open_not_mem : ∀ {body new}, Rewrites body new → '{' ∉ body
  /-- A body has no closing brace. -/
  close_not_mem : ∀ {body new}, Rewrites body new → '}' ∉ body

namespace MatchesGroups

variable {matcher : List Char → Option (Nat × List Char)} {mark : List Char}
  {Rewrites : List Char → List Char → Prop}

theorem advances (h : MatchesGroups matcher mark Rewrites) : Advances matcher := by
  intro cs n out hmatch
  obtain ⟨body, new, rest, -, -, rfl, -⟩ := h.some_iff.1 hmatch
  omega

/-- **Induction along a substitution of groups.** -/
theorem induction (h : MatchesGroups matcher mark Rewrites) {motive : List Char → List Char → Prop}
    (nil : motive [] [])
    (keep : ∀ c cs out, matcher (c :: cs) = none → motive cs out → motive (c :: cs) (c :: out))
    (group : ∀ body new rest out, Rewrites body new → motive rest out →
      motive (mark ++ '{' :: (body ++ '}' :: rest)) (mark ++ '{' :: (new ++ '}' :: out)))
    (cs : List Char) : motive cs (substitute matcher cs) := by
  refine substitute_induction h.advances nil keep ?_ cs
  intro cs n out tail hmatch ih
  obtain ⟨body, new, rest, hbody, rfl, rfl, rfl⟩ := h.some_iff.1 hmatch
  rw [drop_group] at ih
  simpa using group body new rest tail hbody ih

/-- What is kept when one body is rewritten is kept by a substitution. -/
theorem preserves (h : MatchesGroups matcher mark Rewrites) {P : List Char → Prop}
    (hP : ∀ before body new behind, Rewrites body new →
      P (before ++ '{' :: (body ++ '}' :: behind)) → P (before ++ '{' :: (new ++ '}' :: behind)))
    {cs : List Char} (hcs : P cs) : P (substitute matcher cs) := by
  -- The induction is on what is still to be rewritten, with any text in front of it.
  suffices hfront : ∀ front, P (front ++ cs) → P (front ++ substitute matcher cs) from hfront [] hcs
  refine h.induction
    (motive := fun cs out ↦ ∀ front, P (front ++ cs) → P (front ++ out)) ?_ ?_ ?_ cs
  · exact fun front ↦ id
  · intro c cs out _ ih front hold
    have hstep := ih (front ++ [c])
    simp only [List.append_assoc, List.cons_append, List.nil_append] at hstep
    exact hstep hold
  · intro body new rest out hbody ih front hold
    have hrest := ih (front ++ mark ++ '{' :: (new ++ ['}']))
    have hgroup := hP (front ++ mark) body new rest hbody
    simp only [List.append_assoc, List.cons_append, List.nil_append] at hrest hgroup
    exact hrest (hgroup hold)

/-- What a function does not see of one rewritten body it does not see of a substitution. -/
theorem substitute_congr (h : MatchesGroups matcher mark Rewrites) {β : Sort*}
    (f : List Char → β)
    (hf : ∀ before body new behind, Rewrites body new →
      f (before ++ '{' :: (body ++ '}' :: behind)) = f (before ++ '{' :: (new ++ '}' :: behind)))
    (cs : List Char) : f (substitute matcher cs) = f cs :=
  h.preserves (P := fun out ↦ f out = f cs)
    (fun before body new behind hbody hsame ↦
      (hf before body new behind hbody).symm.trans hsame) rfl

/-- A group whose body is rewritten. -/
theorem substitute_group (h : MatchesGroups matcher mark Rewrites) {body new : List Char}
    (hbody : Rewrites body new) (rest : List Char) :
    substitute matcher (mark ++ '{' :: (body ++ '}' :: rest)) =
      mark ++ '{' :: (new ++ '}' :: substitute matcher rest) := by
  have hmatch := h.some_iff.2 ⟨body, new, rest, hbody, rfl, rfl, rfl⟩
  rw [substitute_of_some h.advances hmatch (by simp), drop_group]
  simp

section

variable (h : MatchesGroups matcher [] Rewrites)
include h

theorem matcher_eq_none {c : Char} (hc : c ≠ '{') (cs : List Char) : matcher (c :: cs) = none := by
  rcases hmatch : matcher (c :: cs) with - | ⟨n, out⟩
  · rfl
  · obtain ⟨body, new, rest, -, hcs, -⟩ := h.some_iff.1 hmatch
    exact absurd (List.head_eq_of_cons_eq hcs) hc

/-- Text without opening braces is copied. -/
theorem substitute_append_of_not_mem (front : List Char) (hfront : '{' ∉ front) (cs : List Char) :
    substitute matcher (front ++ cs) = front ++ substitute matcher cs := by
  induction front with
  | nil => rfl
  | cons c front ih =>
    obtain ⟨hc, hrest⟩ := List.ne_and_not_mem_of_not_mem_cons hfront
    rw [List.cons_append, substitute_of_none (h.matcher_eq_none hc.symm _), ih hrest,
      List.cons_append]

/-- A group whose body is not rewritten. -/
theorem substitute_group_of_not {body : List Char} (hopen : '{' ∉ body) (hclose : '}' ∉ body)
    (hbody : ∀ new, ¬Rewrites body new) (rest : List Char) :
    substitute matcher ('{' :: (body ++ '}' :: rest)) =
      '{' :: (body ++ '}' :: substitute matcher rest) := by
  have hnone : matcher ('{' :: (body ++ '}' :: rest)) = none := by
    rcases hmatch : matcher ('{' :: (body ++ '}' :: rest)) with - | ⟨n, out⟩
    · rfl
    · obtain ⟨body', new, rest', hbody', hcs, -⟩ := h.some_iff.1 hmatch
      -- A match ends at the first closing brace, so its body would be this one.
      obtain ⟨rfl, -⟩ :=
        append_cons_inj hclose (h.close_not_mem hbody') (List.tail_eq_of_cons_eq hcs)
      exact absurd hbody' (hbody new)
  have hcopy := h.substitute_append_of_not_mem (body ++ ['}']) (by simp [hopen]) rest
  rw [List.append_cons, substitute_of_none (by simpa using hnone), hcopy, ← List.append_cons]

/-- **No match runs across a character that no body has.** -/
theorem substitute_append_cons {d : Char} (hclose : d ≠ '}')
    (hd : ∀ body new, Rewrites body new → d ∉ body) (xs ys : List Char) :
    substitute matcher (xs ++ d :: ys) = substitute matcher xs ++ substitute matcher (d :: ys) := by
  refine h.induction
    (motive := fun xs out ↦
      substitute matcher (xs ++ d :: ys) = out ++ substitute matcher (d :: ys)) rfl ?_ ?_ xs
  · intro c cs out hnone ih
    have hlonger : matcher (c :: (cs ++ d :: ys)) = none := by
      rcases hmatch : matcher (c :: (cs ++ d :: ys)) with - | ⟨n, new⟩
      · rfl
      · -- The closing brace of a match comes before the character.
        obtain ⟨body, new, rest, hbody, hcs, -⟩ := h.some_iff.1 hmatch
        rw [List.nil_append, List.cons_eq_cons] at hcs
        obtain ⟨rfl, hcs⟩ := hcs
        rcases List.append_eq_append_iff.1 hcs with ⟨beyond, rfl, hbeyond⟩ | ⟨beyond, rfl, hbeyond⟩
        · have hnot := hd _ _ hbody
          cases beyond with
          | nil => exact absurd (List.head_eq_of_cons_eq hbeyond) hclose
          | cons e beyond =>
            obtain ⟨rfl, -⟩ := List.cons_eq_cons.1 hbeyond
            simp at hnot
        · cases beyond with
          | nil => exact absurd (List.head_eq_of_cons_eq hbeyond).symm hclose
          | cons e beyond =>
            obtain ⟨rfl, -⟩ := List.cons_eq_cons.1 hbeyond
            have hsome := h.some_iff.2 ⟨body, new, beyond, hbody, rfl, rfl, rfl⟩
            exact absurd (hsome.symm.trans hnone) (by simp)
    rw [List.cons_append, substitute_of_none hlonger, ih, List.cons_append]
  · intro body new rest out hbody ih
    have hgroup := h.substitute_group hbody (rest ++ d :: ys)
    simpa [ih] using hgroup

theorem substitute_append_open (xs ys : List Char) :
    substitute matcher (xs ++ '{' :: ys) =
      substitute matcher xs ++ substitute matcher ('{' :: ys) :=
  h.substitute_append_cons (by decide) (fun _ _ ↦ h.open_not_mem) xs ys

end

end MatchesGroups

/-! ### Empty braces -/

/-- The pattern for empty braces matches the groups that are blank inside. -/
theorem matchesGroups_emptyBraces? :
    MatchesGroups emptyBraces? [] fun body new ↦ Blank body ∧ new = [] where
  some_iff := by
    intro cs n out
    constructor
    · intro hmatch
      rcases cs with - | ⟨c, cs⟩
      · simp [emptyBraces?] at hmatch
      by_cases hc : c = '{'
      · subst hc
        simp only [emptyBraces?] at hmatch
        split at hmatch
        · next rest hrest =>
          obtain ⟨rfl, rfl⟩ := Prod.mk.inj (Option.some.inj hmatch)
          refine ⟨cs.takeWhile isBlank, [], rest, ⟨fun c hc ↦ List.mem_takeWhile_imp hc, rfl⟩, ?_,
            by simp, rfl⟩
          rw [← hrest, List.takeWhile_append_dropWhile, List.nil_append]
        · simp at hmatch
      · simp [emptyBraces?, hc] at hmatch
    · rintro ⟨body, -, rest, ⟨hbody, rfl⟩, rfl, rfl, rfl⟩
      have hclose : isBlank '}' = false := by decide
      simp [emptyBraces?, dropWhile_append_cons hbody hclose, takeWhile_append_cons hbody hclose]
  open_not_mem h := h.1.not_mem (by decide)
  close_not_mem h := h.1.not_mem (by decide)

/-- Closing empty braces leaves the lines of a text as they are. -/
theorem memberLines_emptyBraces (cs : List Char) :
    memberLines (substitute emptyBraces? cs) = memberLines cs := by
  refine matchesGroups_emptyBraces?.substitute_congr memberLines ?_ cs
  rintro before body - behind ⟨hbody, rfl⟩
  rw [memberLines_group, memberLines_group, memberLines_of_blank hbody,
    memberLines_of_blank blank_nil]

/-! ### Placeholders -/

/-- How the body of a placeholder is rewritten. -/
def Tightens (body new : List Char) : Prop :=
  '{' ∉ body ∧ '}' ∉ body ∧
    ∃ last ∈ body.getLast?, new = if body.all isBlank then [last] else trim isBlank body

/-- The pattern for placeholders matches the groups behind a dollar sign that are not empty, and
trims them. -/
theorem matchesGroups_placeholder? : MatchesGroups placeholder? ['$'] Tightens where
  some_iff := by
    intro cs n out
    constructor
    · intro hmatch
      -- The pattern reads up to the next brace, and matches if that is a closing one.
      unfold placeholder? at hmatch
      split at hmatch
      · next cs =>
        dsimp only at hmatch
        split at hmatch
        · next last rest hlast hrest =>
          obtain ⟨rfl, rfl⟩ := Prod.mk.inj (Option.some.inj hmatch)
          have hbody : ∀ c ∈ cs.takeWhile fun c ↦ c != '{' && c != '}', c ≠ '{' ∧ c ≠ '}' := by
            intro c hc
            simpa using List.mem_takeWhile_imp hc
          refine ⟨_, _, rest, ⟨fun hc ↦ (hbody _ hc).1 rfl, fun hc ↦ (hbody _ hc).2 rfl, last,
            hlast, rfl⟩, ?_, by simp; omega, rfl⟩
          rw [← hrest, List.takeWhile_append_dropWhile]
          rfl
        · simp at hmatch
      · simp at hmatch
    · rintro ⟨body, -, rest, ⟨hopen, hclose, last, hlast, rfl⟩, rfl, rfl, rfl⟩
      have hbody : ∀ c ∈ body, (c != '{' && c != '}') = true := by
        intro c hc
        have hopen' : c ≠ '{' := fun e ↦ hopen (e ▸ hc)
        have hclose' : c ≠ '}' := fun e ↦ hclose (e ▸ hc)
        simp [hopen', hclose']
      have hend : (('}' : Char) != '{' && ('}' : Char) != '}') = false := by decide
      simp only [List.cons_append, List.nil_append, placeholder?, dropWhile_append_cons hbody hend,
        takeWhile_append_cons hbody hend, Option.mem_def.1 hlast, List.length_singleton,
        Option.some.injEq, Prod.mk.injEq, and_true]
      omega
  open_not_mem h := h.1
  close_not_mem h := h.2.1

/-- Tightening a group leaves its lines, for every line is trimmed anyway. -/
theorem Tightens.memberLines_eq {body new : List Char} (h : Tightens body new) :
    memberLines body = memberLines new := by
  obtain ⟨-, -, last, hlast, rfl⟩ := h
  split
  · next hblank =>
    have hbody : Blank body := List.all_eq_true.1 hblank
    have hnew : Blank [last] := by
      intro c hc
      rw [List.mem_singleton.1 hc]
      exact hbody last (List.mem_of_getLast? hlast)
    rw [memberLines_of_blank hbody, memberLines_of_blank hnew]
  · obtain ⟨front, back, hbody, hfront, hback⟩ := exists_append_trim isBlank body
    have hlines := memberLines_append_blank hback (front ++ trim isBlank body)
    rw [← hbody, memberLines_blank_append hfront] at hlines
    exact hlines

/-- Tightening placeholders leaves the lines of a text as they are. -/
theorem memberLines_placeholder (cs : List Char) :
    memberLines (substitute placeholder? cs) = memberLines cs := by
  refine matchesGroups_placeholder?.substitute_congr memberLines ?_ cs
  intro before body new behind hbody
  rw [memberLines_group, memberLines_group, hbody.memberLines_eq]

end TypeLens.Layout
