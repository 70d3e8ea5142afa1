import TypeLens.Proofs.Layout.ImportPath

/-!
# Optional members

What writing a member as an optional member does to its line. Reading a member line loses nothing
(`Member.chars_of_read?`), so a line that is rewritten is a line from whose type some `undefined`
was cut at either end, with a question mark added if there was none (`Sugars`, `sugar_cases`). Hence
the line is strictly shorter afterwards (`weight_sugar`), it stays whole (`Whole.sugar`), and it
keeps its braces (`indentFrom_eq`).
-/

namespace TypeLens.Layout

open Text

/-! ### Reading a member -/

namespace Member

/-- The modifier and what stands behind it are the line. -/
theorem append_readModifier (cs : List Char) : (readModifier cs).1 ++ (readModifier cs).2 = cs := by
  unfold readModifier
  split
  · next rest hrest =>
    split
    · rfl
    · rw [List.append_assoc, List.takeWhile_append_dropWhile]
      exact (after?_eq_some_iff.1 hrest).symm
  · rfl

/-- A quoted key and what stands behind it are the line. -/
theorem append_of_readQuoted? {cs key rest : List Char} (h : readQuoted? cs = some (key, rest)) :
    key ++ rest = cs := by
  fun_induction readQuoted? cs generalizing key with
  | case1 => simp at h
  | case2 cs =>
    obtain ⟨rfl, rfl⟩ := Prod.mk.inj (Option.some.inj h)
    rfl
  | case3 => simp at h
  | case4 c cs ih =>
    obtain ⟨⟨front, back⟩, hread, heq⟩ := Option.map_eq_some_iff.1 h
    obtain ⟨rfl, rfl⟩ := Prod.mk.inj heq
    rw [List.cons_append, List.cons_append, ih hread]
  | case5 c cs _ _ _ ih =>
    obtain ⟨⟨front, back⟩, hread, heq⟩ := Option.map_eq_some_iff.1 h
    obtain ⟨rfl, rfl⟩ := Prod.mk.inj heq
    rw [List.cons_append, ih hread]

/-- A key and what stands behind it are the line, and there is a key. -/
theorem append_of_readKey? {cs key rest : List Char} (h : readKey? cs = some (key, rest)) :
    key ++ rest = cs ∧ key ≠ [] := by
  unfold readKey? at h
  split at h
  · obtain ⟨⟨front, back⟩, hread, heq⟩ := Option.map_eq_some_iff.1 h
    obtain ⟨rfl, rfl⟩ := Prod.mk.inj heq
    exact ⟨by rw [List.cons_append, append_of_readQuoted? hread], by simp⟩
  · refine ⟨append_of_name? h, ?_⟩
    rintro rfl
    unfold name? at h
    split at h
    · simp at h
    · split at h <;> simp at h

theorem append_readQuestion (cs : List Char) :
    (if (readQuestion cs).1 then ['?'] else []) ++ (readQuestion cs).2 = cs := by
  unfold readQuestion
  split <;> rfl

/-- The type and its semicolon are the line. -/
theorem append_of_readType? {cs type terminator : List Char}
    (h : readType? cs = some (type, terminator)) :
    type ++ terminator = cs ∧ (terminator = [] ∨ terminator = [';']) := by
  unfold readType? at h
  split at h
  · simp at h
  · obtain ⟨rfl, rfl⟩ := Prod.mk.inj (Option.some.inj h)
    exact ⟨rfl, .inl rfl⟩
  · split at h
    · next hlast =>
      obtain ⟨rfl, rfl⟩ := Prod.mk.inj (Option.some.inj h)
      obtain ⟨front, rfl⟩ := List.getLast?_eq_some_iff.1 hlast
      exact ⟨by rw [List.dropLast_concat], .inr rfl⟩
    · obtain ⟨rfl, rfl⟩ := Prod.mk.inj (Option.some.inj h)
      exact ⟨List.append_nil _, .inl rfl⟩

/-- **Nothing is lost when a member is read.** -/
theorem chars_of_read? {line : List Char} {m : Member} (h : read? line = some m) :
    m.chars = line ∧ m.key ≠ [] ∧ (m.terminator = [] ∨ m.terminator = [';']) := by
  simp only [read?, Option.bind_eq_bind, Option.bind_eq_some_iff, Option.pure_def,
    Option.some.injEq] at h
  obtain ⟨⟨key, rest⟩, hkey, behind, hcolon, ⟨type, terminator⟩, htype, rfl⟩ := h
  obtain ⟨hrest, hne⟩ := append_of_readKey? hkey
  obtain ⟨hbehind, hterminator⟩ := append_of_readType? htype
  refine ⟨?_, hne, hterminator⟩
  have hquestion := append_readQuestion rest
  rw [after?_eq_some_iff.1 hcolon] at hquestion
  have hline := append_readModifier line
  simp only [chars, List.append_assoc]
  rw [hbehind, hquestion, hrest, hline]

end Member

/-! ### Cutting out `undefined` -/

/-- What is dropped are copies of the word. -/
theorem exists_append_dropWords (word : List Char) (budget : Nat) (cs : List Char) :
    ∃ cut, cs = cut ++ dropWords word budget cs ∧ (∀ c ∈ cut, c ∈ word) ∧
      (cut = [] ∨ weight word ≤ weight cut) := by
  induction budget generalizing cs with
  | zero => exact ⟨[], rfl, by simp, .inl rfl⟩
  | succ n ih =>
    rw [dropWords]
    split
    · next rest hrest =>
      obtain ⟨cut, hcut, hmem, -⟩ := ih rest
      refine ⟨word ++ cut, ?_, ?_, .inr ?_⟩
      · rw [List.append_assoc, ← hcut, after?_eq_some_iff.1 hrest]
      · intro c hc
        rcases List.mem_append.1 hc with hc | hc
        · exact hc
        · exact hmem c hc
      · rw [weight_append]
        omega
    · exact ⟨[], rfl, by simp, .inl rfl⟩

/-- The characters that are cut out of a type. -/
def IsScrap (cs : List Char) : Prop :=
  ∀ c ∈ cs, isBlank c = true ∨ c ∈ "undefined|".toList

instance : DecidablePred IsScrap :=
  fun cs ↦ decidable_of_iff (cs.all fun c ↦ isBlank c || c ∈ "undefined|".toList)
    (by simp [IsScrap])

/-- A scrap has blanks, bars and the letters of `undefined` only. -/
theorem IsScrap.not_mem {cs : List Char} (h : IsScrap cs) {c : Char} (hblank : isBlank c = false)
    (hc : c ∉ "undefined|".toList) : c ∉ cs := by
  intro hmem
  rcases h c hmem with hc' | hc'
  · simp [hc'] at hblank
  · exact hc hc'

/-- What is cut out of a type are copies of `undefined` with a bar. -/
theorem exists_append_withoutUndefined (type : List Char) :
    ∃ front back, type = front ++ (withoutUndefined type ++ back) ∧ IsScrap front ∧ IsScrap back ∧
      (withoutUndefined type = type ∨ 10 ≤ weight (front ++ back)) := by
  -- First the end of the type is cut, read backwards, and then its start.
  obtain ⟨back, hback, hbackmem, hbackweight⟩ :=
    exists_append_dropWords " | undefined".toList.reverse type.length type.reverse
  obtain ⟨tail, htail⟩ :
      ∃ tail, (dropWords " | undefined".toList.reverse type.length type.reverse).reverse = tail :=
    ⟨_, rfl⟩
  obtain ⟨front, hfront, hfrontmem, hfrontweight⟩ :=
    exists_append_dropWords "undefined | ".toList tail.length tail
  have hwithout : withoutUndefined type = dropWords "undefined | ".toList tail.length tail := by
    rw [← htail]
    rfl
  have htype : type = tail ++ back.reverse := by
    rw [← htail, ← List.reverse_append, ← hback, List.reverse_reverse]
  have hscrap : IsScrap " | undefined".toList.reverse := by decide
  have hscrap' : IsScrap "undefined | ".toList := by decide
  have hword : weight " | undefined".toList.reverse = 10 := by decide
  have hword' : weight "undefined | ".toList = 10 := by decide
  have hreverse : weight back.reverse = weight back := by
    rw [weight, dropSpacing, List.filter_reverse, List.length_reverse]
    rfl
  refine ⟨front, back.reverse, ?_, fun c hc ↦ hscrap' c (hfrontmem c hc),
    fun c hc ↦ hscrap c (hbackmem c (List.mem_reverse.1 hc)), ?_⟩
  · rw [hwithout, ← List.append_assoc, ← hfront, htype]
  · rw [weight_append, hreverse]
    rcases hbackweight with rfl | hbackweight
    · rcases hfrontweight with rfl | hfrontweight
      · left
        rw [hwithout, htype]
        simpa using hfront.symm
      · right
        omega
    · right
      omega

/-- A member line and the same line with an optional member: what is kept, and what is cut out. -/
inductive Sugars : List Char → List Char → Prop
  | intro {front mark cut core gap terminator : List Char} (hfront : front ≠ [])
      (hmark : mark = [] ∨ mark = ['?']) (hcut : IsScrap cut) (hgap : IsScrap gap)
      (hweight : 10 ≤ weight (cut ++ gap)) (hcore : core ≠ [])
      (hlast : ∀ c ∈ core.getLast?, isBlank c = false)
      (hterminator : terminator = [] ∨ terminator = [';']) :
      Sugars (front ++ (mark ++ (": ".toList ++ (cut ++ (core ++ (gap ++ terminator))))))
        (front ++ (['?'] ++ (": ".toList ++ (core ++ terminator))))

/-- **Writing a member as an optional one** takes only scraps out of its line. Up to the colon a
question mark may be put in. Behind it the type loses what belongs to `undefined` and the blanks
that were next to that, at its start or at its end, and keeps something in between. -/
theorem Member.sugars_chars {m : Member} (hkey : m.key ≠ [])
    (hterminator : m.terminator = [] ∨ m.terminator = [';'])
    (hchanged : withoutUndefined m.type ≠ m.type)
    (hvisible : ¬(withoutUndefined m.type).all isBlank = true) :
    Sugars m.chars
      { m with optional := true, type := trimEnd isBlank (withoutUndefined m.type) }.chars := by
  obtain ⟨cut, back, hsplit, hcut, hback, hweight⟩ := exists_append_withoutUndefined m.type
  obtain ⟨blanks, hrest, hblanks⟩ := exists_append_trimEnd isBlank (withoutUndefined m.type)
  have hlast := getLast_trimEnd isBlank (withoutUndefined m.type)
  generalize trimEnd isBlank (withoutUndefined m.type) = core at hrest hlast ⊢
  have hcore : core ≠ [] := by
    rintro rfl
    rw [List.nil_append] at hrest
    rw [hrest] at hvisible
    exact hvisible (List.all_eq_true.2 hblanks)
  -- The blanks before what is cut at the end go with it.
  have hgap : IsScrap (blanks ++ back) := by
    intro c hc
    rcases List.mem_append.1 hc with hc | hc
    · exact .inl (hblanks c hc)
    · exact hback c hc
  have hten : 10 ≤ weight (cut ++ (blanks ++ back)) := by
    have hless := hweight.resolve_left hchanged
    simp only [weight_append] at hless ⊢
    omega
  have hmark : (if m.optional then ['?'] else []) = [] ∨
      (if m.optional then ['?'] else []) = ['?'] := by
    cases m.optional
    · exact .inl rfl
    · exact .inr rfl
  have hfront : m.modifier ++ m.key ≠ [] := by simp [hkey]
  have hsugars := Sugars.intro hfront hmark hcut hgap hten hcore hlast hterminator
  have htype : m.type = cut ++ (core ++ (blanks ++ back)) := by
    rw [← List.append_assoc core, ← hrest, ← hsplit]
  simp only [Member.chars, htype, List.append_assoc, if_true] at hsugars ⊢
  exact hsugars

/-- **A line stays as it is, or `undefined` is cut out of the type of its member.** -/
theorem sugar_cases (line : List Char) : sugar line = line ∨ Sugars line (sugar line) := by
  unfold sugar
  split
  · exact .inl rfl
  · next m hread =>
    split
    · exact .inl rfl
    · dsimp only
      split
      · exact .inl rfl
      · next htype =>
        obtain ⟨hline, hkey, hterminator⟩ := Member.chars_of_read? hread
        obtain ⟨hchanged, hvisible⟩ := not_or.1 htype
        have hsugars := Member.sugars_chars hkey hterminator hchanged hvisible
        rw [hline] at hsugars
        exact .inr hsugars

/-! ### What becomes of the line -/

namespace Sugars

variable {line new : List Char}

/-- A rewritten line is shorter. -/
theorem weight_lt (h : Sugars line new) : weight new < weight line := by
  obtain ⟨-, -, -, -, hweight, -, -, -⟩ := h
  have hquestion : weight ['?'] = 1 := by decide
  simp only [weight_append, hquestion] at hweight ⊢
  omega

/-- Only blanks, question marks and the characters of `undefined` come and go. -/
theorem mem_iff (h : Sugars line new) {c : Char} (hblank : isBlank c = false)
    (hc : c ∉ "?undefined|".toList) : c ∈ new ↔ c ∈ line := by
  obtain @⟨front, mark, cut, core, gap, terminator, -, hmark, hcut, hgap, -, -, -, -⟩ := h
  have hsplit : "?undefined|".toList = ['?'] ++ "undefined|".toList := by decide
  rw [hsplit, List.mem_append, not_or] at hc
  obtain ⟨hquestion, hword⟩ := hc
  have hnomark : c ∉ mark := by
    rcases hmark with rfl | rfl
    · simp
    · exact hquestion
  simp only [List.mem_append, hquestion, hnomark, hcut.not_mem hblank hword,
    hgap.not_mem hblank hword, false_or]

theorem colon_mem (h : Sugars line new) : ':' ∈ line := by
  obtain ⟨-, -, -, -, -, -, -, -⟩ := h
  simp

/-- **A rewritten line stays whole.** -/
theorem whole (h : Sugars line new) (hline : Whole line) : Whole new := by
  obtain @⟨front, mark, cut, core, gap, terminator, hfront, -, -, -, -, hcore, hlast, hterminator⟩
    := h
  obtain ⟨c, rest, rfl⟩ := List.exists_cons_of_ne_nil hfront
  have hend : core ++ terminator ≠ [] := by simp [hcore]
  have hend' : core ++ (gap ++ terminator) ≠ [] := by simp [hcore]
  -- Before its last character, the line keeps what it had before its last character.
  have hinner : ∀ d ∈ (core ++ terminator).dropLast,
      d ∈ (core ++ (gap ++ terminator)).dropLast := by
    intro d hd
    rcases hterminator with rfl | rfl
    · rw [List.append_nil] at hd
      exact mem_dropLast_append_append [] (gap ++ []) hd
    · rw [List.dropLast_concat] at hd
      rw [← List.append_assoc, List.dropLast_concat]
      exact List.mem_append_left _ hd
  have hends := ends_of_trim isBlank
    (c :: rest ++ (mark ++ (": ".toList ++ (cut ++ (core ++ (gap ++ terminator))))))
  rw [hline.trimmed] at hends
  have hclose := hline.close
  have hnewline := hline.newline
  have hwithin := hline.inner
  simp only [List.cons_append, List.tail_cons, List.mem_cons, List.mem_append, not_or]
    at hclose hnewline
  rw [List.dropLast_append_of_ne_nil (by simp), List.dropLast_append_of_ne_nil (by simp),
    List.dropLast_append_of_ne_nil (by simp [hcore]), List.dropLast_append_of_ne_nil hend']
    at hwithin
  exact {
    close := by
      simp [hclose]
    inner := fun d hd ↦ by
      rw [List.dropLast_append_of_ne_nil (by simp), List.dropLast_append_of_ne_nil (by simp),
        List.dropLast_append_of_ne_nil hend] at hd
      simp only [List.mem_append] at hd hwithin
      rcases hd with hd | hd | hd | hd
      · exact hwithin d (.inl hd)
      · rw [List.mem_singleton.1 hd]
        decide
      · exact hwithin d (.inr (.inr (.inl hd)))
      · exact hwithin d (.inr (.inr (.inr (.inr (hinner d hd)))))
    newline := by
      simp [hnewline]
    ne_nil := by simp
    trimmed := by
      refine trim_eq_self (fun d hd ↦ hends.1 d hd) fun d hd ↦ ?_
      rcases hterminator with rfl | rfl
      · refine hlast d ?_
        rw [List.append_nil, ← List.append_assoc, ← List.append_assoc, List.getLast?_append,
          Option.or_of_isSome (by simpa using hcore)] at hd
        exact hd
      · rw [← List.append_assoc, ← List.append_assoc, ← List.append_assoc, List.getLast?_concat,
          Option.mem_some_iff] at hd
        rw [← hd]
        decide }

end Sugars

theorem weight_sugar (line : List Char) :
    weight (sugar line) < weight line ∨ sugar line = line := by
  rcases sugar_cases line with hsame | hsugars
  · exact .inr hsame
  · exact .inl hsugars.weight_lt

theorem Whole.sugar {line : List Char} (h : Whole line) : Whole (sugar line) := by
  rcases sugar_cases line with hsame | hsugars
  · exact hsame.symm ▸ h
  · exact hsugars.whole h

theorem mem_sugar_iff {line : List Char} {c : Char} (hblank : isBlank c = false)
    (hc : c ∉ "?undefined|".toList) : c ∈ sugar line ↔ c ∈ line := by
  rcases sugar_cases line with hsame | hsugars
  · rw [hsame]
  · exact hsugars.mem_iff hblank hc

/-- A line without a colon is no member. -/
theorem sugar_of_not_mem {line : List Char} (h : ':' ∉ line) : sugar line = line := by
  rcases sugar_cases line with hsame | hsugars
  · exact hsame
  · exact absurd hsugars.colon_mem h

/-- The lines of a laid-out text before imports are shortened and braces closed. -/
theorem indentFrom_eq (width depth : Nat) (lines : List (List Char)) :
    indentFrom width depth lines = nest width depth (lines.map sugar) := by
  have hopen : ∀ line, '{' ∈ sugar line ↔ '{' ∈ line :=
    fun line ↦ mem_sugar_iff (by decide) (by decide)
  have hclose : ∀ line, '}' ∈ sugar line ↔ '}' ∈ line :=
    fun line ↦ mem_sugar_iff (by decide) (by decide)
  induction lines generalizing depth with
  | nil => rfl
  | cons line lines ih =>
    rw [indentFrom, List.map_cons, nest, ih]
    simp only [ownDepth, nextDepth, hopen, hclose]

end TypeLens.Layout
