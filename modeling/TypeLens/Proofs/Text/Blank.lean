import Mathlib.Data.List.TakeWhile
import TypeLens.Text.Blank
import TypeLens.Text.Word

/-!
# Trimming

Laws of trimming, for any class of characters: what belongs to the class at either end of a text
does not matter (`trim_append_left`, `trim_append_right`), and what is left neither starts nor ends
with it (`ends_of_trim`, `trim_eq_self`).
-/

namespace TypeLens.Text

variable {α : Type}

theorem takeWhile_append_cons {p : α → Bool} {ws : List α} (h : ∀ c ∈ ws, p c = true) {d : α}
    (hd : p d = false) (cs : List α) : (ws ++ d :: cs).takeWhile p = ws := by
  rw [List.takeWhile_append_of_pos h, List.takeWhile_cons_of_neg (by simp [hd]), List.append_nil]

theorem dropWhile_append_cons {p : α → Bool} {ws : List α} (h : ∀ c ∈ ws, p c = true) {d : α}
    (hd : p d = false) (cs : List α) : (ws ++ d :: cs).dropWhile p = d :: cs := by
  rw [List.dropWhile_append_of_pos h, List.dropWhile_cons_of_neg (by simp [hd])]

/-- What is left starts with an element that stays. -/
theorem head_dropWhile (p : α → Bool) (cs : List α) :
    ∀ c ∈ (cs.dropWhile p).head?, p c = false := by
  intro c hc
  have h := List.head?_dropWhile_not p cs
  rw [Option.mem_def.1 hc] at h
  exact h

/-- What is dropped at the start does not matter. -/
theorem trim_append_left {p : α → Bool} {ws : List α} (h : ∀ c ∈ ws, p c = true) (cs : List α) :
    trim p (ws ++ cs) = trim p cs := by
  rw [trim, trimStart, List.dropWhile_append_of_pos h, trim, trimStart]

/-- What is dropped at the end does not matter. -/
theorem trimEnd_append_right {p : α → Bool} {ws : List α} (h : ∀ c ∈ ws, p c = true)
    (cs : List α) : trimEnd p (cs ++ ws) = trimEnd p cs := by
  rw [trimEnd, List.reverse_append, List.dropWhile_append_of_pos (by simpa using h), trimEnd]

/-- What would be trimmed may stand at the end. -/
theorem trim_append_right {p : α → Bool} {ws : List α} (h : ∀ c ∈ ws, p c = true) (cs : List α) :
    trim p (cs ++ ws) = trim p cs := by
  have hws : ws.dropWhile p = [] := List.dropWhile_eq_nil_iff.2 h
  rw [trim, trimStart, List.dropWhile_append, trim, trimStart]
  split
  · next hcs => rw [List.isEmpty_iff.1 hcs, hws]
  · exact trimEnd_append_right h _

/-- Nothing is dropped behind an element that stays. -/
theorem trimEnd_append_cons {p : α → Bool} {d : α} (hd : p d = false) (front cs : List α) :
    trimEnd p (front ++ d :: cs) = front ++ d :: trimEnd p cs := by
  have hstop : (d :: front.reverse).dropWhile p = d :: front.reverse :=
    List.dropWhile_cons_of_neg (by simp [hd])
  rw [trimEnd, trimEnd, List.reverse_append, List.reverse_cons, List.append_assoc,
    List.singleton_append, List.dropWhile_append, hstop]
  split
  · next hempty => simp [List.isEmpty_iff.1 hempty]
  · simp

theorem trim_cons {p : α → Bool} {c : α} (hc : p c = false) (cs : List α) :
    trim p (c :: cs) = c :: trimEnd p cs := by
  rw [trim, trimStart, List.dropWhile_cons_of_neg (by simp [hc])]
  exact trimEnd_append_cons hc [] cs

theorem trim_concat {p : α → Bool} {d : α} (hd : p d = false) (cs : List α) :
    trim p (cs ++ [d]) = cs.dropWhile p ++ [d] := by
  have hdrop : (cs ++ [d]).dropWhile p = cs.dropWhile p ++ [d] := by
    rw [List.dropWhile_append]
    split
    · next hempty => simp [List.isEmpty_iff.1 hempty, hd]
    · rfl
  rw [trim, trimStart, hdrop, trimEnd_concat_of_not hd]

/-- Nothing is left of a text that is dropped altogether. -/
theorem trim_of_forall {p : α → Bool} {cs : List α} (h : ∀ c ∈ cs, p c = true) :
    trim p cs = [] := by
  rw [← List.append_nil cs, trim_append_left h]
  rfl

/-- A text is what is left of it, with what was dropped at its end. -/
theorem exists_append_trimEnd (p : α → Bool) (cs : List α) :
    ∃ back, cs = trimEnd p cs ++ back ∧ ∀ c ∈ back, p c = true := by
  refine ⟨(cs.reverse.takeWhile p).reverse, ?_, ?_⟩
  · rw [trimEnd, ← List.reverse_append, List.takeWhile_append_dropWhile, List.reverse_reverse]
  · exact fun c hc ↦ List.mem_takeWhile_imp (List.mem_reverse.1 hc)

/-- A text is what is left of it, with what was dropped at its two ends. -/
theorem exists_append_trim (p : α → Bool) (cs : List α) :
    ∃ front back, cs = front ++ trim p cs ++ back ∧ (∀ c ∈ front, p c = true) ∧
      ∀ c ∈ back, p c = true := by
  obtain ⟨back, hrest, hback⟩ := exists_append_trimEnd p (cs.dropWhile p)
  refine ⟨cs.takeWhile p, back, ?_, fun c hc ↦ List.mem_takeWhile_imp hc, hback⟩
  rw [trim, trimStart, List.append_assoc, ← hrest, List.takeWhile_append_dropWhile]

/-- A text is left alone when neither its first nor its last element is dropped. -/
theorem trim_eq_self {p : α → Bool} {cs : List α} (hhead : ∀ c ∈ cs.head?, p c = false)
    (hlast : ∀ c ∈ cs.getLast?, p c = false) : trim p cs = cs := by
  have hdrop : ∀ {ds : List α}, (∀ c ∈ ds.head?, p c = false) → ds.dropWhile p = ds := by
    intro ds h
    cases ds with
    | nil => rfl
    | cons d ds => rw [List.dropWhile_cons_of_neg (by simp [h d rfl])]
  rw [trim, trimStart, hdrop hhead, trimEnd,
    hdrop (by rw [List.head?_reverse]; exact hlast), List.reverse_reverse]

/-- What is left ends with an element that stays. -/
theorem getLast_trimEnd (p : α → Bool) (cs : List α) :
    ∀ c ∈ (trimEnd p cs).getLast?, p c = false := by
  intro c hc
  rw [trimEnd, List.getLast?_reverse] at hc
  exact head_dropWhile p _ c hc

/-- Neither the first nor the last element of what is left would be dropped. -/
theorem ends_of_trim (p : α → Bool) (cs : List α) :
    (∀ c ∈ (trim p cs).head?, p c = false) ∧ ∀ c ∈ (trim p cs).getLast?, p c = false := by
  constructor
  · -- What is dropped at the end comes behind, so the first element is that of the rest.
    intro c hc
    obtain ⟨back, hsplit, -⟩ := exists_append_trimEnd p (cs.dropWhile p)
    have htrim : trimEnd p (cs.dropWhile p) = trim p cs := rfl
    refine head_dropWhile p cs c ?_
    rw [hsplit, htrim, Option.mem_def, List.head?_append, Option.mem_def.1 hc]
    rfl
  · exact getLast_trimEnd p (cs.dropWhile p)

/-- No digit of any script is blank. -/
theorem isBlank_of_isDigit {c : Char} (h : isDigit c = true) : isBlank c = false := by
  have hzeros : ∀ z ∈ digitZeros, (161 ≤ z ∧ z ≤ 5750) ∨ (5761 ≤ z ∧ z ≤ 8180) ∨ 12289 ≤ z := by
    decide
  -- The blanks lie below the digits of ASCII and in the gaps between the other digits.
  have hrange : (48 ≤ c.toNat ∧ c.toNat ≤ 57) ∨ (161 ≤ c.toNat ∧ c.toNat ≤ 5759) ∨
      (5761 ≤ c.toNat ∧ c.toNat ≤ 8189) ∨ 12289 ≤ c.toNat := by
    unfold isDigit digit? at h
    split at h
    · split at h
      · next hdigit =>
        have hlatin : '0' ≤ c ∧ c ≤ '9' := by simpa [isLatinDigit] using hdigit
        exact .inl ⟨hlatin.1, hlatin.2⟩
      · simp at h
    · rw [Option.isSome_map, List.find?_isSome] at h
      obtain ⟨z, hz, hbounds⟩ := h
      simp only [Bool.and_eq_true, decide_eq_true_eq] at hbounds
      have hz' := hzeros z hz
      omega
  simp only [isBlank, isWhite, Bool.or_eq_false_iff, Bool.and_eq_false_iff, decide_eq_false_iff_not,
    beq_eq_false_iff_ne]
  omega

/-- Latin letters and digits and the underscore are word characters. -/
theorem isWordChar_of_latin {c : Char}
    (h : (isLatinLetter c || isLatinDigit c || c == '_') = true) : isWordChar c = true := by
  have hascii : c.toNat < 128 := by
    simp only [isLatinLetter, isLatinDigit, Bool.or_eq_true, Bool.and_eq_true, decide_eq_true_eq,
      beq_iff_eq] at h
    rcases h with ((⟨-, hhi⟩ | ⟨-, hhi⟩) | ⟨-, hhi⟩) | rfl
    · have hhi' : c.toNat ≤ 122 := hhi
      omega
    · have hhi' : c.toNat ≤ 90 := hhi
      omega
    · have hhi' : c.toNat ≤ 57 := hhi
      omega
    · decide
  rw [isWordChar, if_pos hascii, h]

/-- No character of a name is blank. -/
theorem isBlank_of_isNameChar {c : Char} (h : isNameChar c = true) : isBlank c = false := by
  have hranges : ∀ r ∈ alphanumericRanges, (161 ≤ r.1 ∧ r.2 ≤ 5759) ∨ (5761 ≤ r.1 ∧ r.2 ≤ 8191) ∨
      (8288 ≤ r.1 ∧ r.2 ≤ 12287) ∨ 12289 ≤ r.1 := by
    decide +kernel
  have hvisible : (33 ≤ c.toNat ∧ c.toNat ≤ 127) ∨ (161 ≤ c.toNat ∧ c.toNat ≤ 5759) ∨
      (5761 ≤ c.toNat ∧ c.toNat ≤ 8191) ∨ (8288 ≤ c.toNat ∧ c.toNat ≤ 12287) ∨
      12289 ≤ c.toNat := by
    rcases Bool.or_eq_true_iff.1 h with hword | hdollar
    · unfold isWordChar at hword
      split at hword
      · next hascii =>
        simp only [isLatinLetter, isLatinDigit, Bool.or_eq_true, Bool.and_eq_true,
          decide_eq_true_eq, beq_iff_eq] at hword
        rcases hword with ((⟨hlo, -⟩ | ⟨hlo, -⟩) | ⟨hlo, -⟩) | rfl
        · have hlo' : 97 ≤ c.toNat := hlo
          omega
        · have hlo' : 65 ≤ c.toNat := hlo
          omega
        · have hlo' : 48 ≤ c.toNat := hlo
          omega
        · decide
      · obtain ⟨r, hr, hbounds⟩ := List.any_eq_true.1 hword
        simp only [Bool.and_eq_true, decide_eq_true_eq] at hbounds
        have hgap := hranges r hr
        omega
    · rw [beq_iff_eq.1 hdollar]
      decide
  simp only [isBlank, isWhite, Bool.or_eq_false_iff, Bool.and_eq_false_iff, decide_eq_false_iff_not,
    beq_eq_false_iff_ne]
  omega

end TypeLens.Text
