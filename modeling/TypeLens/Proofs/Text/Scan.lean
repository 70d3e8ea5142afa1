import TypeLens.Text.Scan

/-!
# Pieces and substitutions

Laws of the operations that readers of text are built from. Splitting at a separator and joining
with it undo each other, and both pass through a separator in the middle of a text
(`splitAll_append_cons`, `joinAll_append`).

A substitution copies a text and replaces the matches it comes across. `substitute_induction` is the
induction along that walk, for a relation between the text and what it becomes; the bookkeeping of
characters that are passed over does not appear in it.
-/

namespace TypeLens.Text

variable {α : Type} [DecidableEq α]

/-! ### Pieces -/

theorem splitAll_ne_nil (sep : α) (cs : List α) : splitAll sep cs ≠ [] := by
  cases cs with
  | nil => simp [splitAll]
  | cons c cs =>
    rw [splitAll]
    split
    · simp
    · split <;> simp

theorem splitAll_cons_self (sep : α) (cs : List α) :
    splitAll sep (sep :: cs) = [] :: splitAll sep cs := by
  rcases h : splitAll sep cs with - | ⟨piece, rest⟩
  · exact absurd h (splitAll_ne_nil sep cs)
  · simp [splitAll, h]

theorem splitAll_cons_of_ne {sep c : α} (hc : c ≠ sep) {cs piece : List α} {rest : List (List α)}
    (h : splitAll sep cs = piece :: rest) : splitAll sep (c :: cs) = (c :: piece) :: rest := by
  simp [splitAll, h, hc]

/-- A text is cut at a separator in it. -/
theorem splitAll_append_cons (sep : α) (xs ys : List α) :
    splitAll sep (xs ++ sep :: ys) = splitAll sep xs ++ splitAll sep ys := by
  induction xs with
  | nil => exact splitAll_cons_self sep ys
  | cons c xs ih =>
    by_cases hc : c = sep
    · subst hc
      rw [List.cons_append, splitAll_cons_self, splitAll_cons_self, ih, List.cons_append]
    · rcases h : splitAll sep xs with - | ⟨piece, rest⟩
      · exact absurd h (splitAll_ne_nil sep xs)
      · rw [h, List.cons_append] at ih
        rw [List.cons_append, splitAll_cons_of_ne hc ih, splitAll_cons_of_ne hc h,
          List.cons_append]

/-- Without a separator there is one piece. -/
theorem splitAll_of_not_mem {sep : α} {cs : List α} (h : sep ∉ cs) : splitAll sep cs = [cs] := by
  induction cs with
  | nil => rfl
  | cons c cs ih =>
    obtain ⟨hc, hcs⟩ := List.ne_and_not_mem_of_not_mem_cons h
    exact splitAll_cons_of_ne hc.symm (ih hcs)

/-- **Induction along the pieces of a text.** -/
theorem pieces_induction (sep : α) {motive : List α → Prop}
    (last : ∀ piece, sep ∉ piece → motive piece)
    (cons : ∀ piece rest, sep ∉ piece → motive rest → motive (piece ++ sep :: rest))
    (cs : List α) : motive cs := by
  obtain ⟨n, hn⟩ : ∃ n, cs.length = n := ⟨_, rfl⟩
  induction n using Nat.strongRecOn generalizing cs with
  | ind n ih =>
    by_cases h : sep ∈ cs
    · obtain ⟨piece, rest, rfl, hpiece⟩ := List.eq_append_cons_of_mem h
      refine cons piece rest hpiece (ih rest.length ?_ rest rfl)
      rw [← hn, List.length_append, List.length_cons]
      omega
    · exact last cs h

/-- No piece of a text holds the separator. -/
theorem not_mem_of_mem_splitAll {sep : α} {cs piece : List α} (h : piece ∈ splitAll sep cs) :
    sep ∉ piece := by
  induction cs using pieces_induction sep with
  | last front hfront =>
    rw [splitAll_of_not_mem hfront, List.mem_singleton] at h
    exact h ▸ hfront
  | cons front rest hfront ih =>
    rw [splitAll_append_cons, splitAll_of_not_mem hfront, List.singleton_append,
      List.mem_cons] at h
    rcases h with rfl | h
    · exact hfront
    · exact ih h

/-- The elements of a piece come from the text. -/
theorem mem_of_mem_splitAll {sep c : α} {cs piece : List α} (h : piece ∈ splitAll sep cs)
    (hc : c ∈ piece) : c ∈ cs := by
  induction cs using pieces_induction sep with
  | last front hfront =>
    rw [splitAll_of_not_mem hfront, List.mem_singleton] at h
    exact h ▸ hc
  | cons front rest hfront ih =>
    rw [splitAll_append_cons, splitAll_of_not_mem hfront, List.singleton_append,
      List.mem_cons] at h
    rcases h with rfl | h
    · exact List.mem_append_left _ hc
    · exact List.mem_append_right _ (List.mem_cons_of_mem _ (ih h))

omit [DecidableEq α] in
/-- The first piece is followed by a separator, unless it is the last. -/
theorem joinAll_cons {sep : List α} (piece : List α) {pieces : List (List α)} (h : pieces ≠ []) :
    joinAll sep (piece :: pieces) = piece ++ sep ++ joinAll sep pieces := by
  cases pieces with
  | nil => exact absurd rfl h
  | cons => rfl

omit [DecidableEq α] in
/-- Two lists of pieces are joined with a separator between them. -/
theorem joinAll_append {sep : List α} {xs ys : List (List α)} (hx : xs ≠ []) (hy : ys ≠ []) :
    joinAll sep (xs ++ ys) = joinAll sep xs ++ sep ++ joinAll sep ys := by
  induction xs with
  | nil => exact absurd rfl hx
  | cons x xs ih =>
    rcases xs with - | ⟨x', xs⟩
    · exact joinAll_cons x hy
    · rw [List.cons_append, joinAll_cons x (by simp), ih (by simp), joinAll_cons x (by simp)]
      simp only [List.append_assoc]

/-- Joining the pieces of a text gives it back. -/
theorem joinAll_splitAll (sep : α) (cs : List α) : joinAll [sep] (splitAll sep cs) = cs := by
  induction cs using pieces_induction sep with
  | last piece hpiece => rw [splitAll_of_not_mem hpiece, joinAll]
  | cons piece rest hpiece ih =>
    rw [splitAll_append_cons, splitAll_of_not_mem hpiece,
      joinAll_append (by simp) (splitAll_ne_nil sep rest), ih]
    simp [joinAll]

/-- Pieces that are joined are found again. -/
theorem splitAll_joinAll {sep : α} {pieces : List (List α)} (hne : pieces ≠ [])
    (h : ∀ piece ∈ pieces, sep ∉ piece) : splitAll sep (joinAll [sep] pieces) = pieces := by
  induction pieces with
  | nil => exact absurd rfl hne
  | cons piece pieces ih =>
    have hpiece := splitAll_of_not_mem (h piece List.mem_cons_self)
    rcases pieces with - | ⟨next, pieces⟩
    · exact hpiece
    · rw [joinAll_cons piece (by simp), List.append_assoc, List.singleton_append,
        splitAll_append_cons, hpiece, ih (by simp) fun q hq ↦ h q (List.mem_cons_of_mem _ hq),
        List.singleton_append]

/-! ### Words -/

/-- A text is put together again from what stands before and behind a word in it. -/
theorem append_of_cutFirst? {word cs pre post : List α} (h : cutFirst? word cs = some (pre, post)) :
    cs = pre ++ (word ++ post) := by
  induction cs generalizing pre with
  | nil =>
    obtain ⟨rest, hrest, heq⟩ := Option.map_eq_some_iff.1 h
    obtain ⟨rfl, rfl⟩ := Prod.mk.inj heq
    rw [List.nil_append]
    exact after?_eq_some_iff.1 hrest
  | cons c cs ih =>
    rw [cutFirst?] at h
    split at h
    · next rest hrest =>
      obtain ⟨rfl, rfl⟩ := Prod.mk.inj (Option.some.inj h)
      rw [List.nil_append]
      exact after?_eq_some_iff.1 hrest
    · obtain ⟨⟨front, back⟩, hcut, heq⟩ := Option.map_eq_some_iff.1 h
      obtain ⟨rfl, rfl⟩ := Prod.mk.inj heq
      rw [ih hcut, List.cons_append]

/-- A text that is cut at a word is made up of the two sides and the word. -/
theorem append_of_cutLast? {word cs pre post : List α} (h : cutLast? word cs = some (pre, post)) :
    cs = pre ++ (word ++ post) := by
  obtain ⟨⟨front, back⟩, hcut, heq⟩ := Option.map_eq_some_iff.1 h
  obtain ⟨rfl, rfl⟩ := Prod.mk.inj heq
  rw [← List.reverse_reverse cs, append_of_cutFirst? hcut]
  simp

/-- Only the first characters of a text decide whether it starts with a word. -/
theorem after?_eq_none_iff {word cs : List α} :
    after? word cs = none ↔ cs.take word.length ≠ word := by
  constructor
  · intro hnone htake
    have hsplit : cs = word ++ cs.drop word.length := by
      rw [← List.take_append_drop word.length cs, htake]
      simp
    rw [hsplit, after?_append] at hnone
    simp at hnone
  · intro htake
    rcases hafter : after? word cs with - | rest
    · rfl
    · rw [after?_eq_some_iff.1 hafter, List.take_left] at htake
      exact absurd rfl htake

/-- A word that is not at the start of a text is not there either when the text goes on with
something the word does not hold. -/
theorem after?_append_cons {word cs : List α} {c : α} (h : after? word cs = none) (hc : c ∉ word)
    (rest : List α) : after? word (cs ++ c :: rest) = none := by
  induction word generalizing cs with
  | nil => simp [after?] at h
  | cons w word ih =>
    obtain ⟨hw, hword⟩ := List.ne_and_not_mem_of_not_mem_cons hc
    cases cs with
    | nil => simp [after?, hw.symm]
    | cons d cs =>
      by_cases hd : w = d
      · simp only [after?, hd, if_true, List.cons_append] at h ⊢
        exact ih h hword
      · simp [after?, hd]

/-! ### Substitutions -/

omit [DecidableEq α] in
/-- Passing over characters is starting behind them. -/
theorem substituteFrom_eq_drop (m : List α → Option (Nat × List α)) (n : Nat) (cs : List α) :
    substituteFrom m n cs = substitute m (cs.drop n) := by
  induction n generalizing cs with
  | zero => rfl
  | succ n ih =>
    cases cs with
    | nil => rfl
    | cons c cs => exact ih cs

/-- A matcher that never matches an empty stretch of text. -/
def Advances (m : List α → Option (Nat × List α)) : Prop :=
  ∀ cs n out, m cs = some (n, out) → 0 < n

section

omit [DecidableEq α]

variable {m : List α → Option (Nat × List α)}

theorem substitute_of_none {c : α} {cs : List α} (h : m (c :: cs) = none) :
    substitute m (c :: cs) = c :: substitute m cs := by
  simp [substitute, substituteFrom, h]

/-- A match is replaced, and the scan goes on behind it. -/
theorem substitute_of_some (hm : Advances m) {cs : List α} {n : Nat} {out : List α}
    (h : m cs = some (n, out)) (hcs : cs ≠ []) :
    substitute m cs = out ++ substitute m (cs.drop n) := by
  obtain ⟨k, rfl⟩ : ∃ k, n = k + 1 := ⟨n - 1, by have := hm _ _ _ h; omega⟩
  cases cs with
  | nil => exact absurd rfl hcs
  | cons c cs =>
    rw [substitute, substituteFrom, h]
    simp only [Nat.add_sub_cancel, substituteFrom_eq_drop, List.drop_succ_cons]

/-- **Induction along a substitution.** -/
theorem substitute_induction (hm : Advances m) {motive : List α → List α → Prop}
    (nil : motive [] [])
    (keep : ∀ c cs out, m (c :: cs) = none → motive cs out → motive (c :: cs) (c :: out))
    (replace : ∀ cs n new out, m cs = some (n, new) → motive (cs.drop n) out →
      motive cs (new ++ out))
    (cs : List α) : motive cs (substitute m cs) := by
  obtain ⟨k, hk⟩ : ∃ k, cs.length = k := ⟨_, rfl⟩
  induction k using Nat.strongRecOn generalizing cs with
  | ind k ih =>
    cases cs with
    | nil => exact nil
    | cons c cs =>
      rcases h : m (c :: cs) with - | ⟨n, new⟩
      · rw [substitute_of_none h]
        exact keep c cs _ h (ih cs.length (by simp [← hk]) cs rfl)
      · have hn := hm _ _ _ h
        rw [substitute_of_some hm h (by simp)]
        refine replace _ n new _ h (ih _ ?_ _ rfl)
        rw [← hk, List.length_drop, List.length_cons]
        omega

end

end TypeLens.Text
