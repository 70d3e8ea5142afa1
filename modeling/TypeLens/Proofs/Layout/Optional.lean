import TypeLens.Proofs.Layout.Survival

/-!
# Optional members of any key

Keys are quoted by one rule and member lines are read by another. The two agree on every key that is
not in brackets: the line of a member is read as its modifier, its key as it is spelled and its type
(`read?_member`), whatever the key is called, be it `readonly` or with a colon in it.

So where `undefined` ends the type of a member, it is cut off and the member becomes optional
(`sugar_undefined`), if the type has no arrow and no more `undefined` at its ends (`Settled`).
-/

namespace TypeLens.Layout

open Text

/-! ### Settled types -/

/-- A type on one line that has nothing to cut off. -/
structure Settled (type : List Char) : Prop where
  /-- No line is broken in it. -/
  smooth : Smooth type
  /-- There is no line feed in it. -/
  newline : '\n' ∉ type
  /-- There is no arrow in it. -/
  arrow : ¬"=>".toList <:+: type
  /-- It is not empty. -/
  ne_nil : type ≠ []
  /-- It starts with something visible. -/
  starts : ∀ c ∈ type.head?, isBlank c = false
  /-- It ends with something visible. -/
  ends : ∀ c ∈ type.getLast?, isBlank c = false
  /-- It does not start with `undefined`. -/
  front : ¬"undefined | ".toList <+: type
  /-- It does not end with `undefined`. -/
  back : ¬" | undefined".toList <:+ type

/-- Without the word at the start nothing is dropped. -/
theorem dropWords_of_not_prefix {word cs : List Char} (h : ¬word <+: cs) (budget : Nat) :
    dropWords word budget cs = cs := by
  cases budget with
  | zero => rfl
  | succ n =>
    rw [dropWords]
    rcases hafter : after? word cs with - | rest
    · rfl
    · exact absurd ⟨rest, (after?_eq_some_iff.1 hafter).symm⟩ h

namespace Settled

variable {type : List Char}

/-- An undefined alternative is taken off a settled type, and nothing else is. -/
theorem withoutUndefined_eq (h : Settled type) :
    withoutUndefined (type ++ " | undefined".toList) = type := by
  -- The end is cut off first, and read backwards: the type is left, in which nothing is cut.
  have htail : dropWords " | undefined".toList.reverse (type ++ " | undefined".toList).length
      (type ++ " | undefined".toList).reverse = type.reverse := by
    obtain ⟨n, hn⟩ : ∃ n, (type ++ " | undefined".toList).length = n + 1 :=
      ⟨_, List.length_append.trans rfl⟩
    rw [hn, List.reverse_append, dropWords, after?_append]
    refine dropWords_of_not_prefix (fun hback ↦ h.back ?_) n
    exact List.reverse_prefix.1 hback
  rw [withoutUndefined, htail, List.reverse_reverse]
  exact dropWords_of_not_prefix h.front _

/-- An arrow does not arise where `undefined` follows. -/
theorem not_occurs_arrow (h : Settled type) :
    occurs "=>".toList (type ++ " | undefined".toList) = false := by
  rw [← Bool.not_eq_true, occurs_iff]
  have hsplit : " | undefined".toList = ' ' :: "| undefined".toList := by decide
  rw [hsplit, infix_append_cons_iff (by decide), not_or]
  exact ⟨h.arrow, by decide⟩

theorem not_blank (h : Settled type) : ¬type.all isBlank = true := by
  intro hall
  obtain ⟨c, rest, rfl⟩ := List.exists_cons_of_ne_nil h.ne_nil
  have hc : isBlank c = true := List.all_eq_true.1 hall c List.mem_cons_self
  simp [h.starts c rfl] at hc

theorem trimEnd_eq (h : Settled type) : trimEnd isBlank type = type := by
  obtain ⟨front, c, rfl⟩ := (List.eq_nil_or_concat' type).resolve_left h.ne_nil
  exact trimEnd_concat_of_not (h.ends c (by simp))

end Settled

/-! ### Reading a member with a key -/

theorem readQuestion_append {mark : List Char} (h : mark = [] ∨ mark = ['?']) (rest : List Char) :
    Member.readQuestion (mark ++ ':' :: rest) = (decide (mark = ['?']), ':' :: rest) := by
  rcases h with rfl | rfl
  · rfl
  · rfl

/-- A type is read up to the final semicolon. -/
theorem readType?_append {type terminator : List Char} (hne : type ≠ [])
    (hlast : type.getLast? ≠ some ';') (h : terminator = [] ∨ terminator = [';']) :
    Member.readType? (type ++ terminator) = some (type, terminator) := by
  obtain ⟨c, rest, rfl⟩ := List.exists_cons_of_ne_nil hne
  -- A lone character is a type even if it is a semicolon, so how long the text is decides.
  rcases h with rfl | rfl
  · rw [List.append_nil]
    rcases rest with - | ⟨d, rest⟩
    · rfl
    · rw [Member.readType?, if_neg hlast]
      all_goals simp
  · obtain ⟨d, behind, hsplit⟩ : ∃ d behind, rest ++ [';'] = d :: behind :=
      List.exists_cons_of_ne_nil (by simp)
    rw [List.cons_append, hsplit, Member.readType?, ← hsplit, ← List.cons_append,
      List.getLast?_concat, if_pos rfl, List.dropLast_concat]
    all_goals simp

section

variable {modifier key mark type terminator : List Char}

/-- **A member is read as it is written**, if its key is not in brackets. -/
theorem read?_member (hkey : Spelling key) (hhead : key.head? ≠ some '[')
    (hmodifier : modifier = [] ∨ modifier = "readonly ".toList)
    (hmark : mark = [] ∨ mark = ['?']) (hne : type ≠ []) (hlast : type.getLast? ≠ some ';')
    (hterminator : terminator = [] ∨ terminator = [';']) :
    Member.read? (modifier ++ (key ++ (mark ++ (": ".toList ++ (type ++ terminator))))) =
      some ⟨modifier, key, decide (mark = ['?']), type, terminator⟩ := by
  have hcolon : ": ".toList ++ (type ++ terminator) = ':' :: ' ' :: (type ++ terminator) := rfl
  have hafter : after? ": ".toList (':' :: ' ' :: (type ++ terminator)) =
      some (type ++ terminator) := after?_append ": ".toList _
  rw [hcolon, Member.read?, readModifier_key hkey hmodifier hmark]
  simp only [readKey?_key_of_head hkey hhead hmark, readQuestion_append hmark, hafter,
    readType?_append hne hlast hterminator, Option.bind_eq_bind, Option.bind_some, Option.pure_def]

/-- **A member whose type ends with `undefined` becomes optional.** -/
theorem sugar_undefined (hkey : Spelling key) (hhead : key.head? ≠ some '[')
    (hmodifier : modifier = [] ∨ modifier = "readonly ".toList)
    (hmark : mark = [] ∨ mark = ['?']) (htype : Settled type)
    (hterminator : terminator = [] ∨ terminator = [';']) :
    sugar (modifier ++ (key ++ (mark ++ (": ".toList ++
        ((type ++ " | undefined".toList) ++ terminator))))) =
      modifier ++ (key ++ ("?: ".toList ++ (type ++ terminator))) := by
  have hlast : (type ++ " | undefined".toList).getLast? ≠ some ';' := by
    have hend : " | undefined".toList.getLast? = some 'd' := by decide
    rw [List.getLast?_append, hend]
    simp
  have hchanged : type ≠ type ++ " | undefined".toList := by
    simp
  rw [sugar, read?_member hkey hhead hmodifier hmark (by simp) hlast hterminator]
  simp only [htype.not_occurs_arrow, htype.withoutUndefined_eq, htype.trimEnd_eq, Member.chars,
    hchanged, htype.not_blank, or_self, Bool.false_eq_true, if_false, if_true, List.append_assoc]
  rfl

end

/-- **Keys are spelled reversibly, and every key is found in its member.** Different keys are
spelled differently; a key that is not spelled as it is stands between quotes, in which it is read
off again; and a member of any key that is on one line and not in brackets becomes optional where
its type ends with `undefined`. -/
theorem quote_reads_back :
    Function.Injective Key.quote ∧
      (∀ name, Key.quote name ≠ name → ∃ inner, (Key.quote name).toList = '"' :: (inner ++ ['"']) ∧
        Key.unescape? inner = some name.toList) ∧
      ∀ name type : String, Smooth name.toList → '\n' ∉ name.toList →
        name.toList.head? ≠ some '[' → Settled type.toList →
          sugar (Key.quote name ++ ": " ++ type ++ " | undefined;").toList =
            (Key.quote name ++ "?: " ++ type ++ ";").toList := by
  refine ⟨Key.quote_injective, fun name hne ↦ ?_, fun name type _ hname hhead htype ↦ ?_⟩
  · exact ⟨_, Key.toList_quote_of_ne hne, Key.unescape?_eq_some_iff.2 rfl⟩
  · have hkey : Spelling (Key.quote name).toList := by
      rw [Key.quote, String.toList_ofList]
      exact spelling_quoteChars hname
    -- A spelling starts with a bracket only if the key does.
    have hspelled : (Key.quote name).toList.head? ≠ some '[' := by
      by_cases hsame : Key.quote name = name
      · rwa [hsame]
      · rw [Key.toList_quote_of_ne hsame]
        simp
    have hsugar := sugar_undefined hkey hspelled (.inl rfl) (.inl rfl) htype (.inr rfl)
    simpa using hsugar

/-- A key with everything in it that means something in a member line. -/
def sampleKey : String :=
  "readonly \"a\\: b\"?: c | undefined"

/-- A key that reads like a member keeps its spelling when its member is written as an optional one,
and the type keeps the `undefined` inside it. -/
theorem quote_reads_back_sample :
    Key.quote sampleKey ≠ sampleKey ∧ Smooth sampleKey.toList ∧ '\n' ∉ sampleKey.toList ∧
      sampleKey.toList.head? ≠ some '[' ∧ Settled "x | undefined | y".toList ∧
      sugar (Key.quote sampleKey ++ ": " ++ "x | undefined | y" ++ " | undefined;").toList =
        (Key.quote sampleKey ++ "?: " ++ "x | undefined | y" ++ ";").toList := by
  have hhead : "x | undefined | y".toList.head? = some 'x' := by decide
  have hlast : "x | undefined | y".toList.getLast? = some 'y' := by decide
  have htype : Settled "x | undefined | y".toList :=
    ⟨by decide, by decide, by decide, by decide,
      fun c hc ↦ Option.some.inj (hhead.symm.trans hc) ▸ by decide,
      fun c hc ↦ Option.some.inj (hlast.symm.trans hc) ▸ by decide, by decide, by decide⟩
  exact ⟨by decide, by decide, by decide, by decide, htype,
    quote_reads_back.2.2 sampleKey "x | undefined | y" (by decide) (by decide) (by decide) htype⟩

end TypeLens.Layout
