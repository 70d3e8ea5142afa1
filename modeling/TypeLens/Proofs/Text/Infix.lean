import Mathlib.Data.List.Infix
import TypeLens.Proofs.Text.Scan

/-!
# Stretches of a text

A word occurs in a text when it is a stretch of it, `word <:+: cs`. A word that lacks some character
lies on one side of each such character in the text (`infix_append_cons_iff`), so it lies in one of
the pieces between the occurrences of a separator (`infix_joinAll_iff`).

Where a text has two descriptions, a character of one is found in the other by
`append_eq_append_cons`, and two characters are put in their order by `append_cons_eq_append_cons`.

A search for a word finds it exactly where it is a stretch of the text (`occurs_iff`), and cuts the
text at the first place of it (`exists_cutFirst?`).
-/

namespace TypeLens.Text

variable {α : Type}

/-- A character of a text that is put together from two lies in one of them. -/
theorem append_eq_append_cons {xs ys front back : List α} {c : α}
    (h : xs ++ ys = front ++ c :: back) :
    (∃ mid, xs = front ++ c :: mid ∧ back = mid ++ ys) ∨
      ∃ mid, front = xs ++ mid ∧ ys = mid ++ c :: back := by
  rcases List.append_eq_append_iff.1 h with ⟨mid, hfront, hys⟩ | ⟨mid, hxs, hback⟩
  · exact .inr ⟨mid, hfront, hys⟩
  · cases mid with
    | nil => exact .inr ⟨[], by simpa using hxs.symm, by simpa using hback.symm⟩
    | cons d mid =>
      obtain ⟨rfl, rfl⟩ := List.cons_eq_cons.1 hback
      exact .inl ⟨mid, hxs, rfl⟩

/-- Of two characters of a text one comes first, or they are the same. -/
theorem append_cons_eq_append_cons {xs ys front back : List α} {c d : α}
    (h : xs ++ d :: ys = front ++ c :: back) :
    (∃ mid, xs = front ++ c :: mid ∧ back = mid ++ d :: ys) ∨
      (d = c ∧ xs = front ∧ ys = back) ∨
      ∃ mid, front = xs ++ d :: mid ∧ ys = mid ++ c :: back := by
  rcases append_eq_append_cons h with hleft | ⟨mid, rfl, hmid⟩
  · exact .inl hleft
  · cases mid with
    | nil =>
      obtain ⟨rfl, rfl⟩ := List.cons_eq_cons.1 hmid
      exact .inr (.inl ⟨rfl, by simp, rfl⟩)
    | cons e mid =>
      obtain ⟨rfl, rfl⟩ := List.cons_eq_cons.1 hmid
      exact .inr (.inr ⟨mid, rfl, rfl⟩)

/-- A word lies on one side of a character that it lacks. -/
theorem infix_append_cons_iff {word xs ys : List α} {c : α} (hc : c ∉ word) :
    word <:+: xs ++ c :: ys ↔ word <:+: xs ∨ word <:+: ys := by
  constructor
  · rintro ⟨front, back, h⟩
    rw [List.append_assoc] at h
    rcases append_eq_append_cons h with ⟨mid, -, rfl⟩ | ⟨mid, rfl, hrest⟩
    · exact .inr ⟨mid, back, by simp⟩
    · rcases append_eq_append_cons hrest with ⟨mid', rfl, -⟩ | ⟨mid', rfl, -⟩
      · simp at hc
      · exact .inl ⟨front, mid', by simp⟩
  · rintro (h | h)
    · exact List.infix_append_of_infix_left h
    · exact List.infix_append_of_infix_right (List.infix_cons h)

/-- A word that does not lie in a text comes again, behind the text and a character that it lacks,
only as a whole. -/
theorem append_cons_word_eq_iff {word xs front back : List α} {c : α} (hc : c ∉ word)
    (hword : ¬word <:+: xs) :
    xs ++ c :: word = front ++ (word ++ back) ↔ front = xs ++ [c] ∧ back = [] := by
  constructor
  · intro h
    rcases append_eq_append_cons h.symm with ⟨mid, rfl, hmid⟩ | ⟨mid, rfl, hmid⟩
    · have hlength := congrArg List.length hmid
      simp only [List.length_append] at hlength
      have hnil : mid.length = 0 ∧ back.length = 0 := by omega
      rw [List.length_eq_zero_iff, List.length_eq_zero_iff] at hnil
      obtain ⟨rfl, rfl⟩ := hnil
      exact ⟨rfl, rfl⟩
    · rcases append_eq_append_cons hmid with ⟨rest, rfl, -⟩ | ⟨rest, rfl, -⟩
      · simp at hc
      · exact absurd (List.infix_append_of_infix_right (List.infix_append_of_infix_left
          List.infix_rfl)) hword
  · rintro ⟨rfl, rfl⟩
    simp

/-- A word lies in one of the pieces if it lacks the separator. -/
theorem infix_joinAll_iff {word : List α} {c : α} (hc : c ∉ word) {pieces : List (List α)}
    (hne : pieces ≠ []) : word <:+: joinAll [c] pieces ↔ ∃ piece ∈ pieces, word <:+: piece := by
  induction pieces with
  | nil => exact absurd rfl hne
  | cons piece pieces ih =>
    rcases eq_or_ne pieces [] with rfl | hrest
    · simp [joinAll]
    · rw [joinAll_cons piece hrest, List.append_assoc, List.singleton_append,
        infix_append_cons_iff hc, ih hrest, List.exists_mem_cons_iff]

/-- What stands before and behind one of the pieces. -/
theorem joinAll_append_cons (c : α) (before : List (List α)) (piece : List α)
    (after : List (List α)) :
    joinAll [c] (before ++ piece :: after) =
      before.flatMap (· ++ [c]) ++ (piece ++ after.flatMap (c :: ·)) := by
  induction before generalizing piece after with
  | nil =>
    induction after generalizing piece with
    | nil => simp [joinAll]
    | cons next after ih => simpa [joinAll_cons] using ih next
  | cons first before ih =>
    rw [List.cons_append, joinAll_cons _ (by simp), ih, List.flatMap_cons]
    simp only [List.append_assoc]

/-! ### Where a word occurs first -/

section

variable [DecidableEq α]

/-- A text is cut at a word in it, and nowhere further on. -/
theorem exists_cutFirst? {word cs front back : List α} (h : cs = front ++ (word ++ back)) :
    ∃ pre post, cutFirst? word cs = some (pre, post) ∧ pre.length ≤ front.length := by
  induction cs generalizing front with
  | nil =>
    obtain ⟨rfl, hrest⟩ := List.append_eq_nil_iff.1 h.symm
    obtain ⟨rfl, rfl⟩ := List.append_eq_nil_iff.1 hrest
    exact ⟨[], [], rfl, Nat.le_refl 0⟩
  | cons c cs ih =>
    rw [cutFirst?]
    rcases hafter : after? word (c :: cs) with - | rest
    · rcases front with - | ⟨d, front⟩
      · rw [h, List.nil_append, after?_append] at hafter
        cases hafter
      · obtain ⟨rfl, hcs⟩ := List.cons_eq_cons.1 h
        obtain ⟨pre, post, hcut, hle⟩ := ih hcs
        exact ⟨c :: pre, post, by simp [hcut], Nat.succ_le_succ hle⟩
    · exact ⟨[], rest, rfl, Nat.zero_le _⟩

/-- A word occurs in a text when it is a stretch of it. -/
theorem occurs_iff {word cs : List α} : occurs word cs = true ↔ word <:+: cs := by
  constructor
  · intro h
    obtain ⟨⟨pre, post⟩, hcut⟩ := Option.isSome_iff_exists.1 h
    exact ⟨pre, post, by rw [List.append_assoc, append_of_cutFirst? hcut]⟩
  · rintro ⟨front, back, rfl⟩
    obtain ⟨pre, post, hcut, -⟩ := exists_cutFirst? (List.append_assoc front word back)
    rw [occurs, hcut]
    rfl

/-- The first line of a text ends at the first separator. -/
theorem cutFirst?_append_cons {c : α} {line : List α} (h : c ∉ line) (rest : List α) :
    cutFirst? [c] (line ++ c :: rest) = some (line, rest) := by
  induction line with
  | nil => simp [cutFirst?, after?]
  | cons d line ih =>
    obtain ⟨hd, hline⟩ := List.ne_and_not_mem_of_not_mem_cons h
    simp [cutFirst?, after?, hd, ih hline]

end

end TypeLens.Text
