/-!
# Scanning lists of characters

The operations every reader of type text is built from: splitting at a separator, cutting at the
first or last occurrence of a word, and replacing the leftmost matches of a matcher.

`substitute` is the only one that needs care. A *matcher* looks at the text from one position on and
answers how many characters it replaces and by what; `substitute` tries it at every position from
the left and resumes behind each match. It recurses on the text itself, with the number of
characters of the current match that are still to be passed over.
-/

namespace TypeLens.Text

variable {α : Type} [DecidableEq α]

/-- The pieces between the occurrences of `sep`; there is always at least one. -/
def splitAll (sep : α) : List α → List (List α)
  | [] => [[]]
  | c :: cs =>
    match splitAll sep cs with
    | [] => [[c]]
    | piece :: rest => if c = sep then [] :: piece :: rest else (c :: piece) :: rest

/-- Puts `sep` between the pieces. -/
def joinAll (sep : List α) : List (List α) → List α
  | [] => []
  | [piece] => piece
  | piece :: rest => piece ++ sep ++ joinAll sep rest

/-- What follows `word` at the start of the text, if the text starts with it. -/
def after? : (word : List α) → List α → Option (List α)
  | [], cs => some cs
  | _ :: _, [] => none
  | w :: ws, c :: cs => if w = c then after? ws cs else none

/-- Reading a word off a text that starts with it leaves the rest. -/
@[simp]
theorem after?_append (word cs : List α) : after? word (word ++ cs) = some cs := by
  induction word with
  | nil => rfl
  | cons w ws ih => simp [after?, ih]

/-- A word is read off exactly the texts that start with it. -/
theorem after?_eq_some_iff {word cs rest : List α} :
    after? word cs = some rest ↔ cs = word ++ rest := by
  refine ⟨fun h ↦ ?_, fun h ↦ h ▸ after?_append word rest⟩
  induction word generalizing cs with
  | nil => simpa [after?] using h
  | cons w ws ih =>
    match cs with
    | [] => simp [after?] at h
    | c :: cs =>
      by_cases hc : w = c
      · subst hc
        simp only [after?, if_true] at h
        simp [ih h]
      · simp [after?, hc] at h

/-- What precedes `word` at the end of the text, if the text ends with it. -/
def before? (word cs : List α) : Option (List α) :=
  (after? word.reverse cs.reverse).map List.reverse

/-- The text before and behind the first occurrence of `word`. -/
def cutFirst? (word : List α) : List α → Option (List α × List α)
  | [] => (after? word []).map ([], ·)
  | c :: cs =>
    match after? word (c :: cs) with
    | some rest => some ([], rest)
    | none => (cutFirst? word cs).map fun (pre, post) ↦ (c :: pre, post)

/-- The text before and behind the last occurrence of `word`. -/
def cutLast? (word cs : List α) : Option (List α × List α) :=
  (cutFirst? word.reverse cs.reverse).map fun (post, pre) ↦ (pre.reverse, post.reverse)

/-- Cutting at the first of a character leaves none of it before the cut. -/
theorem of_cutFirst?_singleton {c : α} {cs pre post : List α}
    (h : cutFirst? [c] cs = some (pre, post)) : cs = pre ++ c :: post ∧ c ∉ pre := by
  induction cs generalizing pre with
  | nil => simp [cutFirst?, after?] at h
  | cons d cs ih =>
    by_cases hd : c = d
    · obtain ⟨rfl, rfl⟩ : [] = pre ∧ cs = post := by simpa [cutFirst?, after?, hd] using h
      exact ⟨by simp [hd], by simp⟩
    · rcases hcut : cutFirst? [c] cs with - | ⟨front, rest⟩
      · simp [cutFirst?, after?, hd, hcut] at h
      · obtain ⟨rfl, rfl⟩ : d :: front = pre ∧ rest = post := by
          simpa [cutFirst?, after?, hd, hcut] using h
        obtain ⟨hcs, hfront⟩ := ih hcut
        exact ⟨by rw [hcs, List.cons_append], by simp [hd, hfront]⟩

/-- Cutting at the last of a character leaves none of it behind the cut. -/
theorem of_cutLast?_singleton {c : α} {cs pre post : List α}
    (h : cutLast? [c] cs = some (pre, post)) : cs = pre ++ c :: post ∧ c ∉ post := by
  obtain ⟨⟨behind, before⟩, hcut, heq⟩ := Option.map_eq_some_iff.1 h
  obtain ⟨rfl, rfl⟩ : before.reverse = pre ∧ behind.reverse = post := by simpa using heq
  obtain ⟨hcs, hbehind⟩ := of_cutFirst?_singleton hcut
  refine ⟨?_, by simpa using hbehind⟩
  rw [← List.reverse_reverse cs, hcs]
  simp

/-- Whether `word` occurs in the text. -/
def occurs (word cs : List α) : Bool :=
  (cutFirst? word cs).isSome

/-- A word is no longer than a text in which it occurs. -/
theorem length_le_of_occurs {word cs : List α} (h : occurs word cs = true) :
    word.length ≤ cs.length := by
  have hafter : ∀ {ds rest : List α}, after? word ds = some rest → word.length ≤ ds.length := by
    intro ds rest hrest
    rw [after?_eq_some_iff.1 hrest, List.length_append]
    exact Nat.le_add_right _ _
  induction cs with
  | nil =>
    rw [occurs, cutFirst?, Option.isSome_map] at h
    obtain ⟨rest, hrest⟩ := Option.isSome_iff_exists.1 h
    exact hafter hrest
  | cons c cs ih =>
    rcases hrest : after? word (c :: cs) with - | rest
    · rw [occurs, cutFirst?, hrest, Option.isSome_map] at h
      exact Nat.le_succ_of_le (ih h)
    · exact hafter hrest

/-- The substitution loop: the first argument counts the characters still to be passed over. -/
def substituteFrom (matcher : List α → Option (Nat × List α)) : Nat → List α → List α
  | _, [] => []
  | n + 1, _ :: cs => substituteFrom matcher n cs
  | 0, c :: cs =>
    match matcher (c :: cs) with
    | some (n, out) => out ++ substituteFrom matcher (n - 1) cs
    | none => c :: substituteFrom matcher 0 cs

/-- Replaces the leftmost, non-overlapping matches of `matcher`, which answers the length of a
match at the head of the text and its replacement. -/
def substitute (matcher : List α → Option (Nat × List α)) (cs : List α) : List α :=
  substituteFrom matcher 0 cs

end TypeLens.Text
