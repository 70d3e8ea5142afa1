import TypeLens.Layout.Essence
import TypeLens.Proofs.Text.Blank

/-!
# Nothing is left to drop in an essence

The essence of a declaration is *reduced*: it has no blanks and no semicolons, and no qualifier
starts in it behind anything but a word character (`reduced_essenceChars`). A reduced text is its
own essence (`Reduced.essenceChars_eq`), so taking the essence a second time changes nothing
(`essence_essence`).

Dropping a qualifier brings the characters around it together, but makes no new one. A qualifier
starts where no word character precedes and ends with its dot, so the character behind it has no
word character before it in either text. And the letters of a name that stays are followed by what
followed them before (`head?_dropWhile_dropQualifiersFrom`), since no qualifier starts behind a
letter.
-/

namespace TypeLens.Layout

open Text

/-! ### Qualifiers -/

/-- A word of Latin letters, digits and underscores that does not start with a digit. -/
def IsQualifier (word : List Char) : Prop :=
  ∃ c rest, word = c :: rest ∧ (isLatinLetter c || c == '_') = true ∧
    ∀ d ∈ rest, isQualifierChar d = true

theorem isWordChar_of_isQualifierChar {c : Char} (h : isQualifierChar c = true) :
    isWordChar c = true :=
  isWordChar_of_latin h

/-- The qualifier at the start of a text is a word with a dot behind it. -/
theorem qualifierLength?_eq_some_iff {cs : List Char} {n : Nat} :
    qualifierLength? cs = some n ↔
      ∃ word rest, IsQualifier word ∧ cs = word ++ '.' :: rest ∧ n = word.length + 1 := by
  constructor
  · intro h
    rcases cs with - | ⟨c, cs⟩
    · cases h
    rw [qualifierLength?] at h
    split at h
    · next hstart =>
      split at h
      · next rest hrest =>
        obtain rfl := Option.some.inj h
        refine ⟨c :: cs.takeWhile isQualifierChar, rest,
          ⟨c, _, rfl, hstart, fun _ ↦ List.mem_takeWhile_imp⟩, ?_, by simp⟩
        rw [List.cons_append, ← hrest, List.takeWhile_append_dropWhile]
      · cases h
    · cases h
  · rintro ⟨-, rest, ⟨c, word, rfl, hstart, hword⟩, rfl, rfl⟩
    rw [List.cons_append, qualifierLength?, if_pos hstart,
      dropWhile_append_cons hword (by decide), takeWhile_append_cons hword (by decide)]
    rfl

/-- Whether a text starts with a qualifier is told by its first character and by what follows the
letters behind it. -/
theorem qualifierLength?_cons_eq_none_iff {c : Char} {cs : List Char} :
    qualifierLength? (c :: cs) = none ↔ ((isLatinLetter c || c == '_') = true →
      (cs.dropWhile isQualifierChar).head? ≠ some '.') := by
  rw [qualifierLength?]
  split
  · next hstart =>
    rcases hrest : cs.dropWhile isQualifierChar with - | ⟨d, rest⟩
    · simp
    · rcases eq_or_ne d '.' with rfl | hd
      · simp [hstart]
      · simp [hd]
  · next hstart => simp [hstart]

/-! ### Dropping qualifiers -/

/-- A character stays if a word character precedes it or no qualifier starts there. -/
theorem dropQualifiersFrom_cons_of_none {inWord : Bool} {c : Char} {cs : List Char}
    (h : inWord = false → qualifierLength? (c :: cs) = none) :
    dropQualifiersFrom inWord 0 (c :: cs) = c :: dropQualifiersFrom (isWordChar c) 0 cs := by
  cases inWord with
  | false => simp [dropQualifiersFrom, h rfl]
  | true => simp [dropQualifiersFrom]

/-- Passing over some characters and one more is starting behind them. -/
theorem dropQualifiersFrom_append_cons (inWord : Bool) (xs : List Char) (d : Char)
    (cs : List Char) : dropQualifiersFrom inWord (xs.length + 1) (xs ++ d :: cs) =
      dropQualifiersFrom (isWordChar d) 0 cs := by
  induction xs generalizing inWord with
  | nil => rfl
  | cons x xs ih => exact ih (isWordChar x)

/-- A qualifier is dropped, and the text goes on behind its dot. -/
theorem dropQualifiersFrom_qualifier {word : List Char} (h : IsQualifier word) (cs : List Char) :
    dropQualifiersFrom false 0 (word ++ '.' :: cs) = dropQualifiersFrom false 0 cs := by
  have hlength : qualifierLength? (word ++ '.' :: cs) = some (word.length + 1) :=
    qualifierLength?_eq_some_iff.2 ⟨word, cs, h, rfl, rfl⟩
  obtain ⟨c, rest, rfl, -, -⟩ := h
  rw [List.cons_append] at hlength ⊢
  rw [dropQualifiersFrom]
  simp only [Bool.false_eq_true, if_false, hlength]
  exact dropQualifiersFrom_append_cons _ rest '.' cs

/-- **Induction along the qualifiers of a text**: what follows may start with one, or its first
character stays. -/
theorem qualifiers_induction {motive : Bool → List Char → Prop}
    (nil : ∀ inWord, motive inWord [])
    (drop : ∀ word cs, IsQualifier word → motive false cs → motive false (word ++ '.' :: cs))
    (keep : ∀ inWord c cs, (inWord = false → qualifierLength? (c :: cs) = none) →
      motive (isWordChar c) cs → motive inWord (c :: cs))
    (inWord : Bool) (cs : List Char) : motive inWord cs := by
  obtain ⟨n, hn⟩ : ∃ n, cs.length = n := ⟨_, rfl⟩
  induction n using Nat.strongRecOn generalizing inWord cs with
  | ind n ih =>
    rcases cs with - | ⟨c, cs⟩
    · exact nil inWord
    by_cases hnone : inWord = false → qualifierLength? (c :: cs) = none
    · exact keep inWord c cs hnone (ih cs.length (by simp [← hn]) _ cs rfl)
    · obtain ⟨rfl, hsome⟩ := Classical.not_imp.1 hnone
      obtain ⟨k, hk⟩ := Option.ne_none_iff_exists'.1 hsome
      obtain ⟨word, rest, hword, hsplit, -⟩ := qualifierLength?_eq_some_iff.1 hk
      rw [hsplit]
      refine drop word rest hword (ih rest.length ?_ false rest rfl)
      rw [← hn, hsplit, List.length_append, List.length_cons]
      omega

/-- Dropping qualifiers adds nothing. -/
theorem dropQualifiersFrom_sublist (inWord : Bool) (cs : List Char) :
    (dropQualifiersFrom inWord 0 cs).Sublist cs := by
  induction inWord, cs using qualifiers_induction with
  | nil => exact .slnil
  | drop word cs hword ih =>
    rw [dropQualifiersFrom_qualifier hword]
    exact ih.trans ((List.sublist_cons_self '.' cs).trans (List.sublist_append_right word _))
  | keep inWord c cs hnone ih =>
    rw [dropQualifiersFrom_cons_of_none hnone]
    exact ih.cons_cons c

/-- Behind a word character, the first character that belongs to no qualifier stays the same. -/
theorem head?_dropWhile_dropQualifiersFrom (cs : List Char) :
    ((dropQualifiersFrom true 0 cs).dropWhile isQualifierChar).head? =
      (cs.dropWhile isQualifierChar).head? := by
  induction cs with
  | nil => rfl
  | cons c cs ih =>
    rw [dropQualifiersFrom_cons_of_none (by simp)]
    by_cases hc : isQualifierChar c = true
    · rw [isWordChar_of_isQualifierChar hc, List.dropWhile_cons_of_pos hc,
        List.dropWhile_cons_of_pos hc, ih]
    · rw [List.dropWhile_cons_of_neg hc, List.dropWhile_cons_of_neg hc, List.head?_cons,
        List.head?_cons]

/-! ### Texts without qualifiers -/

/-- Whether a text ends with a word character, where the empty text ends as told. -/
def endsInWord (inWord : Bool) (cs : List Char) : Bool :=
  cs.getLast?.elim inWord isWordChar

@[simp]
theorem endsInWord_nil (inWord : Bool) : endsInWord inWord [] = inWord :=
  rfl

@[simp]
theorem endsInWord_cons (inWord : Bool) (c : Char) (cs : List Char) :
    endsInWord inWord (c :: cs) = endsInWord (isWordChar c) cs := by
  rw [endsInWord, endsInWord, List.getLast?_cons]
  cases cs.getLast? <;> rfl

/-- A text in which no qualifier starts behind anything but a word character. The flag tells whether
one precedes the text. -/
def Unqualified (inWord : Bool) (cs : List Char) : Prop :=
  ∀ front word back, IsQualifier word → cs = front ++ (word ++ '.' :: back) →
    endsInWord inWord front = true

theorem unqualified_nil (inWord : Bool) : Unqualified inWord [] := by
  intro front word back _ h
  simp at h

/-- A text has no qualifier if none starts at its first character, or in what follows. -/
theorem unqualified_cons_iff {inWord : Bool} {c : Char} {cs : List Char} :
    Unqualified inWord (c :: cs) ↔
      (inWord = false → qualifierLength? (c :: cs) = none) ∧ Unqualified (isWordChar c) cs := by
  constructor
  · intro h
    constructor
    · rintro rfl
      rcases hlength : qualifierLength? (c :: cs) with - | n
      · rfl
      · obtain ⟨word, rest, hword, hsplit, -⟩ := qualifierLength?_eq_some_iff.1 hlength
        cases h [] word rest hword hsplit
    · intro front word back hword hsplit
      have hends := h (c :: front) word back hword (by rw [hsplit, List.cons_append])
      rwa [endsInWord_cons] at hends
  · rintro ⟨hnone, h⟩ front word back hword hsplit
    rcases front with - | ⟨d, front⟩
    · cases inWord with
      | false =>
        have hlength := qualifierLength?_eq_some_iff.2 ⟨word, back, hword, hsplit, rfl⟩
        rw [hnone rfl] at hlength
        cases hlength
      | true => rfl
    · obtain ⟨rfl, hcs⟩ := List.cons_eq_cons.1 hsplit
      rw [endsInWord_cons]
      exact h front word back hword hcs

/-- **No qualifier is left** when they are dropped. -/
theorem unqualified_dropQualifiersFrom (inWord : Bool) (cs : List Char) :
    Unqualified inWord (dropQualifiersFrom inWord 0 cs) := by
  induction inWord, cs using qualifiers_induction with
  | nil inWord => exact unqualified_nil inWord
  | drop word cs hword ih => rwa [dropQualifiersFrom_qualifier hword]
  | keep inWord c cs hnone ih =>
    rw [dropQualifiersFrom_cons_of_none hnone]
    refine unqualified_cons_iff.2 ⟨fun hword ↦ ?_, ih⟩
    -- A name that starts with `c` is followed by what followed it before.
    refine qualifierLength?_cons_eq_none_iff.2 fun hstart ↦ ?_
    have hc : isWordChar c = true := by
      refine isWordChar_of_isQualifierChar ?_
      rw [isQualifierChar, Bool.or_right_comm, hstart, Bool.true_or]
    rw [hc, head?_dropWhile_dropQualifiersFrom]
    exact qualifierLength?_cons_eq_none_iff.1 (hnone hword) hstart

/-- A text without qualifiers stays as it is. -/
theorem Unqualified.dropQualifiersFrom_eq {inWord : Bool} {cs : List Char}
    (h : Unqualified inWord cs) : dropQualifiersFrom inWord 0 cs = cs := by
  induction cs generalizing inWord with
  | nil => rfl
  | cons c cs ih =>
    obtain ⟨hnone, hrest⟩ := unqualified_cons_iff.1 h
    rw [dropQualifiersFrom_cons_of_none hnone, ih hrest]

/-! ### Reduced texts -/

/-- A text in which there is nothing to drop. -/
structure Reduced (cs : List Char) : Prop where
  /-- It has no spacing. -/
  dense : ∀ c ∈ cs, isBlank c = false ∧ c ≠ ';'
  /-- It has no qualifiers. -/
  unqualified : Unqualified false cs

/-- **An essence is reduced.** -/
theorem reduced_essenceChars (cs : List Char) : Reduced (essenceChars cs) where
  dense c hc := by
    have hmem := (dropQualifiersFrom_sublist false _).subset hc
    simpa [dropSpacing] using (List.mem_filter.1 hmem).2
  unqualified := unqualified_dropQualifiersFrom false _

namespace Reduced

variable {cs : List Char}

/-- Without a blank there is no keyword. -/
theorem dropKeyword_eq (h : Reduced cs) : dropKeyword cs = cs := by
  unfold dropKeyword
  split
  · next b rest _ hrest =>
    have hb : b ∈ cs := (List.dropWhile_sublist _).subset (hrest ▸ List.mem_cons_self)
    rw [if_neg (by simp [(h.dense b hb).1])]
  · rfl

theorem dropSpacing_eq (h : Reduced cs) : dropSpacing cs = cs :=
  List.filter_eq_self.2 fun c hc ↦ by simp [h.dense c hc]

/-- A reduced text is its own essence. -/
theorem essenceChars_eq (h : Reduced cs) : essenceChars cs = cs := by
  rw [essenceChars, h.dropKeyword_eq, h.dropSpacing_eq]
  exact h.unqualified.dropQualifiersFrom_eq

end Reduced

/-- **An essence is its own essence**, for nothing is left to drop in it. -/
theorem essence_essence (text : String) :
    essence (essence text) = essence text ∧ Reduced (essence text).toList := by
  have hreduced : Reduced (essence text).toList := by
    rw [essence, String.toList_ofList]
    exact reduced_essenceChars text.toList
  refine ⟨?_, hreduced⟩
  rw [essence, hreduced.essenceChars_eq, String.ofList_toList]

/-- What stands behind a digit or a letter of another script is no qualifier; what stands behind its
dot may be one. -/
example : essence "type Out = 1a.b.c | é.d.e;" = "Out=1a.c|é.e" := by
  decide +kernel

end TypeLens.Layout
