import TypeLens.Proofs.Layout.Key

/-!
# Keys that outlast the layout

A word on one line is found in a text exactly if it is found there without blank lines
(`infix_dropBlankLines_iff`). Closing braces keeps a word without braces if no note has all of its
characters and it neither starts nor ends with a blank (`Sturdy.infix_closeBraces`).

A text *declares* a key where a member with that key may start. A key at which no line is broken
stays at the start of its line, and so it is found in the layout (`Declares.infix_reflow`): if it is
quoted in any case, otherwise if there are no imports whose paths could run across it.
-/

namespace TypeLens.Layout

open Text Key

/-! ### Words on one line -/

/-- Line feeds at the end carry no word. -/
theorem infix_trimEnd_newline_iff {word cs : List Char} (hfeed : '\n' ∉ word) (hne : word ≠ []) :
    word <:+: trimEnd (· == '\n') cs ↔ word <:+: cs := by
  obtain ⟨feeds, hcs, hfeeds⟩ := exists_append_trimEnd (· == '\n') cs
  generalize trimEnd (· == '\n') cs = kept at hcs ⊢
  subst hcs
  rcases feeds with - | ⟨c, feeds⟩
  · rw [List.append_nil]
  · obtain rfl : c = '\n' := beq_iff_eq.1 (hfeeds c List.mem_cons_self)
    rw [infix_append_cons_iff hfeed, or_iff_left]
    intro hword
    obtain ⟨d, rest, rfl⟩ := List.exists_cons_of_ne_nil hne
    have hd := hfeeds d (List.mem_cons_of_mem _ (hword.subset List.mem_cons_self))
    simp [beq_iff_eq.1 hd] at hfeed

/-- **Dropping blank lines neither breaks nor makes a word on one line.** -/
theorem infix_dropBlankLines_iff {word cs : List Char} (hfeed : '\n' ∉ word)
    (hvisible : ∃ c ∈ word, isBlank c = false) : word <:+: dropBlankLines cs ↔ word <:+: cs := by
  obtain ⟨c, hc, hblank⟩ := hvisible
  have hne : word ≠ [] := List.ne_nil_of_mem hc
  have hkept : ∀ line, word <:+: line → (!line.all isBlank) = true := by
    intro line hword
    have hall : line.all isBlank ≠ true := by
      intro hall
      simp [List.all_eq_true.1 hall c (hword.subset hc)] at hblank
    simpa using hall
  have hlines : (∃ line ∈ (splitAll '\n' cs).filter fun line ↦ !line.all isBlank, word <:+: line) ↔
      ∃ line ∈ splitAll '\n' cs, word <:+: line := by
    constructor
    · rintro ⟨line, hline, hword⟩
      exact ⟨line, List.mem_of_mem_filter hline, hword⟩
    · rintro ⟨line, hline, hword⟩
      exact ⟨line, List.mem_filter.2 ⟨hline, hkept line hword⟩, hword⟩
  have hjoin : ∀ lines, word <:+: joinAll ['\n'] lines ↔ ∃ line ∈ lines, word <:+: line := by
    intro lines
    rcases eq_or_ne lines [] with rfl | hlines
    · simp [joinAll, hne]
    · exact infix_joinAll_iff hfeed hlines
  rw [dropBlankLines, infix_trimEnd_newline_iff hfeed hne, hjoin, hlines, ← hjoin, joinAll_splitAll]

/-! ### Words without braces -/

/-- A word that stays whole when braces are closed. -/
structure Sturdy (word : List Char) : Prop where
  open_not_mem : '{' ∉ word
  close_not_mem : '}' ∉ word
  /-- It starts with something visible. -/
  starts : ∃ c rest, word = c :: rest ∧ isBlank c = false
  /-- It ends with something visible. -/
  ends : ∃ front c, word = front ++ [c] ∧ isBlank c = false
  /-- It has a character that no note has. -/
  marked : ∃ c ∈ word, isBlank c = false ∧ isDigit c = false ∧ c ∉ "...more;".toList

namespace Sturdy

variable {word : List Char}

/-- Trimming stops at a word that starts and ends with something visible. -/
theorem infix_trim (h : Sturdy word) {cs : List Char} (hword : word <:+: cs) :
    word <:+: trim isBlank cs := by
  obtain ⟨c, rest, hstart, hc⟩ := h.starts
  obtain ⟨front, d, hend, hd⟩ := h.ends
  obtain ⟨before, behind, rfl⟩ := hword
  have hdrop : (before ++ (word ++ behind)).dropWhile isBlank =
      before.dropWhile isBlank ++ (word ++ behind) := by
    rw [List.dropWhile_append]
    split
    · next hempty =>
      rw [List.isEmpty_iff.1 hempty, hstart, List.cons_append,
        List.dropWhile_cons_of_neg (by simp [hc]), List.nil_append]
    · rfl
  have hsplit : before.dropWhile isBlank ++ (word ++ behind) =
      (before.dropWhile isBlank ++ front) ++ d :: behind := by simp [hend]
  refine ⟨before.dropWhile isBlank, trimEnd isBlank behind, ?_⟩
  rw [trim, trimStart, List.append_assoc, List.append_assoc, hdrop, hsplit, trimEnd_append_cons hd,
    hend]
  simp

/-- **Closing braces keeps a sturdy word.** -/
theorem infix_closeBraces (h : Sturdy word) {cs : List Char} (hword : word <:+: cs) :
    word <:+: closeBraces cs := by
  obtain ⟨c, hc, hblank, hdigit, hnote⟩ := h.marked
  have hgroup : ∀ before body new behind, (word <:+: body → word <:+: new) →
      word <:+: before ++ '{' :: (body ++ '}' :: behind) →
        word <:+: before ++ '{' :: (new ++ '}' :: behind) := by
    intro before body new behind hnew
    simp only [infix_append_cons_iff h.open_not_mem, infix_append_cons_iff h.close_not_mem]
    exact Or.imp_right (Or.imp_left hnew)
  rw [closeBraces]
  refine matchesGroups_placeholder?.preserves ?_ (matchesGroups_excessBraces?.preserves ?_
    (matchesGroups_emptyBraces?.preserves ?_ hword))
  · rintro before body - behind ⟨-, -, last, hlast, rfl⟩
    refine hgroup before body _ behind fun hbody ↦ ?_
    have hall : ¬body.all isBlank = true := by
      intro hall
      simp [List.all_eq_true.1 hall c (hbody.subset hc)] at hblank
    rw [if_neg hall]
    exact h.infix_trim hbody
  · rintro before body - behind ⟨count, hbody, rfl⟩
    exact hgroup before body _ behind fun hword ↦
      absurd (hword.subset hc) (hbody.not_mem hblank hdigit hnote)
  · rintro before body - behind ⟨hbody, rfl⟩
    exact hgroup before body _ behind fun hword ↦ absurd (hword.subset hc) (hbody.not_mem hblank)

end Sturdy

/-! ### Declared keys -/

/-- A text with a member under a key: behind a brace or a semicolon and a blank stand the key, with
or without `readonly` before it, and a colon, with or without a question mark before it. -/
inductive Declares (key : List Char) : List Char → Prop
  | intro {before modifier mark rest : List Char} {start : Char}
      (hstart : start = '{' ∨ start = ';')
      (hmodifier : modifier = [] ∨ modifier = "readonly ".toList)
      (hmark : mark = [] ∨ mark = ['?']) :
      Declares key (before ++ start :: ' ' :: (modifier ++ (key ++ (mark ++ ':' :: rest))))

/-- A text without braces and semicolons. -/
def Smooth (cs : List Char) : Prop :=
  ∀ c ∈ cs, c ≠ '{' ∧ c ≠ '}' ∧ c ≠ ';'

instance : DecidablePred Smooth :=
  fun cs ↦ List.decidableBAll _ cs

theorem smooth_modifier {modifier : List Char}
    (h : modifier = [] ∨ modifier = "readonly ".toList) : Smooth modifier ∧ '\n' ∉ modifier := by
  rcases h with rfl | rfl
  all_goals decide

/-- A line goes on as long as nothing breaks it. -/
theorem exists_memberLines_cons {c d : Char} {front : List Char} (hc : isBlank c = false)
    (hbreak : c ≠ '{' ∧ c ≠ ';') (hfront : Smooth front) (hfeed : '\n' ∉ front)
    (hd : isBlank d = false) (hclose : d ≠ '}') (tail : List Char) :
    ∃ line below,
      memberLines (c :: (front ++ d :: tail)) = (c :: (front ++ d :: line)) :: below := by
  obtain ⟨rest, hrest⟩ := breakMembers_cons hclose tail
  obtain ⟨line, below, -, hlines⟩ := trimmedLines_cons hd rest
  have hbody : breakMembers (front ++ d :: tail) = front ++ d :: rest := by
    rw [breakMembers_append, breakMembers_eq_self hfront, hrest]
  refine ⟨line, below, ?_⟩
  rw [← hlines c front hc hfeed, ← hbody, memberLines_eq]
  by_cases hbrace : c = '}'
  · rw [hbrace]
    exact trimmedLines_blank_append (by decide : Blank ['\n']) _
  · rw [← List.singleton_append, breakMembers_append,
      breakMembers_eq_self (List.forall_mem_singleton.2 ⟨hbreak.1, hbrace, hbreak.2⟩)]
    rfl

/-- A line starts where a member does. -/
theorem memberLines_declaration {start : Char} (hstart : start = '{' ∨ start = ';')
    (before cs : List Char) :
    memberLines (before ++ start :: ' ' :: cs) =
      memberLines (before ++ [start]) ++ memberLines cs := by
  rw [memberLines_append_break hstart]
  exact congrArg _ (memberLines_blank_append (by decide : Blank [' ']) cs)

theorem isBlank_getLast_append {ws : List Char} (hws : Blank ws) (hne : ws ≠ []) (cs : List Char) :
    ∀ c ∈ (cs ++ ws).getLast?, isBlank c = true := by
  intro c hc
  rw [List.getLast?_append, Option.or_of_isSome (by simpa using hne)] at hc
  exact hws c (List.mem_of_getLast? hc)

/-- A line of a draft, with what stands before and behind it. -/
theorem exists_draft_append_cons (width depth : Nat) (above : List (List Char)) (line : List Char)
    (below : List (List Char)) :
    ∃ front back, draft width depth (above ++ line :: below) = front ++ (line ++ back) ∧
      ∀ c ∈ front.getLast?, isBlank c = true := by
  rcases eq_or_ne above [] with rfl | habove
  · exact ⟨_, _, draft_cons width depth line below,
      fun c hc ↦ blank_replicate_space _ c (List.mem_of_getLast? hc)⟩
  · have hdraft := draft_append width depth habove (List.cons_ne_nil line below)
    rw [draft_cons, ← List.cons_append, ← List.append_assoc] at hdraft
    refine ⟨_, _, hdraft, isBlank_getLast_append ?_ (List.cons_ne_nil _ _) _⟩
    exact Blank.append (by decide : Blank ['\n']) (blank_replicate_space _)

/-- A declared key that nothing breaks stands in the draft as it was. -/
theorem Declares.exists_draft {key cs : List Char} (h : Declares key cs) (hkey : Spelling key)
    (hplain : Smooth key) (hfeed : '\n' ∉ key) (width : Nat) :
    ∃ front mark back, draft width 0 ((memberLines cs).map sugar) =
        front ++ (key ++ (mark ++ ':' :: back)) ∧ (mark = [] ∨ mark = ['?']) ∧
      front.getLast? ≠ some '(' := by
  obtain @⟨before, modifier, mark, rest, start, hstart, hmodifier, hmark⟩ := h
  have hvisible : ∃ c tail, modifier ++ (key ++ mark) = c :: tail ∧ isBlank c = false := by
    obtain ⟨c, tail, rfl, hc⟩ := hkey.exists_cons
    rcases hmodifier with rfl | rfl
    · exact ⟨c, _, rfl, hc⟩
    · exact ⟨'r', _, rfl, by decide⟩
  have hall : Smooth (modifier ++ (key ++ mark)) ∧ '\n' ∉ modifier ++ (key ++ mark) := by
    obtain ⟨hreadonly, hreadonly'⟩ := smooth_modifier hmodifier
    have hmark' : Smooth mark ∧ '\n' ∉ mark := by
      rcases hmark with rfl | rfl
      all_goals decide
    constructor
    · exact List.forall_mem_append.2
        ⟨hreadonly, List.forall_mem_append.2 ⟨hplain, hmark'.1⟩⟩
    · simp [hreadonly', hfeed, hmark'.2]
  obtain ⟨c, tail, hhead, hc⟩ := hvisible
  rw [hhead] at hall
  obtain ⟨hsmooth, hfeed⟩ := hall
  obtain ⟨hfirst, hsmooth⟩ := List.forall_mem_cons.1 hsmooth
  -- Nothing breaks the declaration before the colon, so all of that stands on one line.
  obtain ⟨line, below, hlines⟩ := exists_memberLines_cons hc ⟨hfirst.1, hfirst.2.2⟩ hsmooth
    (List.not_mem_of_not_mem_cons hfeed) (by decide : isBlank ':' = false) (by decide) rest
  rw [← List.cons_append, ← List.cons_append, ← hhead] at hlines
  simp only [List.append_assoc] at hlines
  obtain ⟨mark', rest', hmark', hsugar⟩ := exists_sugar_key hkey hmodifier hmark line
  obtain ⟨front, back, hdraft, hfront⟩ := exists_draft_append_cons width 0
    ((memberLines (before ++ [start])).map sugar) (modifier ++ (key ++ (mark' ++ ':' :: rest')))
    (below.map sugar)
  refine ⟨front ++ modifier, mark', rest' ++ back, ?_, hmark', fun hlast ↦ ?_⟩
  · rw [memberLines_declaration hstart, hlines, List.map_append, List.map_cons, hsugar, hdraft]
    simp
  · rcases hmodifier with rfl | rfl
    · rw [List.append_nil] at hlast
      exact absurd (hfront _ hlast) (by decide)
    · simp at hlast

/-- **A declared key that nothing breaks is found in the layout**, if it is quoted or there are no
imports. -/
theorem Declares.infix_reflow {key cs : List Char} (h : Declares key cs) (hkey : Spelling key)
    (hplain : Smooth key) (hfeed : '\n' ∉ key)
    (hquoted : (∃ name, key = '"' :: (escape name ++ ['"'])) ∨ ¬importOpening <:+: cs)
    (width : Nat) : key <:+: reflow width cs := by
  obtain ⟨front, mark, back, hdraft, hmark, hfront⟩ := h.exists_draft hkey hplain hfeed width
  obtain ⟨c, rest, hcons, hc⟩ := hkey.exists_cons
  have hvisible : ∃ c ∈ key, isBlank c = false := ⟨c, by simp [hcons], hc⟩
  have hopen : '{' ∉ key := fun hmem ↦ (hplain _ hmem).1 rfl
  have hclose : '}' ∉ key := fun hmem ↦ (hplain _ hmem).2.1 rfl
  rcases hquoted with ⟨name, rfl⟩ | himport
  · have hsturdy : Sturdy ('"' :: (escape name ++ ['"'])) := {
      open_not_mem := hopen
      close_not_mem := hclose
      starts := ⟨'"', _, rfl, by decide⟩
      ends := ⟨'"' :: escape name, '"', rfl, by decide⟩
      marked := ⟨'"', List.mem_cons_self, by decide⟩ }
    rw [reflow, indentFrom_eq, infix_dropBlankLines_iff hfeed hvisible]
    refine hsturdy.infix_closeBraces ?_
    have hshort := quoted_infix_shortenImports hfront name (mark ++ ':' :: back)
    have hsplit : front ++ ('"' :: (escape name ++ ['"']) ++ (mark ++ ':' :: back)) =
        front ++ '"' :: (escape name ++ '"' :: (mark ++ ':' :: back)) := by simp
    rw [← hsplit, ← hdraft] at hshort
    exact hshort
  · -- A bare key may read like a word of a note, but with its colon it does not.
    have hsturdy : Sturdy (key ++ (mark ++ [':'])) := {
      open_not_mem := by rcases hmark with rfl | rfl <;> simp [hopen]
      close_not_mem := by rcases hmark with rfl | rfl <;> simp [hclose]
      starts := ⟨c, rest ++ (mark ++ [':']), by simp [hcons], hc⟩
      ends := ⟨key ++ mark, ':', by simp, by decide⟩
      marked := ⟨':', by simp, by decide⟩ }
    rw [reflow_of_no_import width himport, infix_dropBlankLines_iff hfeed hvisible, hdraft]
    have hword : key ++ (mark ++ [':']) <:+: front ++ (key ++ (mark ++ ':' :: back)) :=
      ⟨front, back, by simp⟩
    exact List.IsInfix.trans ⟨[], mark ++ [':'], by simp⟩ (hsturdy.infix_closeBraces hword)

end TypeLens.Layout
