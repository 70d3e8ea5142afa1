import TypeLens.Proofs.Layout.Stretch
import TypeLens.Proofs.Tree.Key

/-!
# Keys in a member line

A key on one line is a name, a text in brackets or a text in quotes (`Spelling`). Where a line
starts with such a key and a colon follows, the key is read as it was written, so a member that is
written as an optional member keeps its key (`exists_sugar_key`).

Shortening an import path does not change a quoted key either (`quoted_infix_shortenImports`). The
quotes of an import stand behind and before a parenthesis, while those inside a key stand behind a
backslash: an import may end with the quote that opens a key or start with the one that closes it,
and then the key keeps its characters, but it has no room for a path.
-/

namespace TypeLens.Layout

open Text Key

/-! ### The spelling of a key -/

/-- How a key on one line is spelled. -/
inductive Spelling : List Char → Prop
  | name {key : List Char} (h : isName key = true) : Spelling key
  | bracketed (inner : List Char) : Spelling ('[' :: (inner ++ [']']))
  | quoted (name : List Char) : Spelling ('"' :: (escape name ++ ['"']))

/-- A quoted name is a spelling of a key, since the quotes inside it are escaped. -/
theorem spelling_quoteChars {name : List Char} (h : '\n' ∉ name) : Spelling (quoteChars name) := by
  have hbody : withoutFinalNewline name = name := by
    rw [withoutFinalNewline, if_neg]
    exact fun hlast ↦ h (List.mem_of_getLast? hlast)
  unfold quoteChars
  split
  · next hbare =>
    rw [isBare, hbody] at hbare
    rcases Bool.or_eq_true_iff.1 hbare with hname | hbracketed
    · exact .name hname
    · unfold isBracketed at hbracketed
      split at hbracketed
      · next rest =>
        obtain ⟨hlast, -⟩ := Bool.and_eq_true_iff.1 hbracketed
        obtain ⟨inner, rfl⟩ := List.getLast?_eq_some_iff.1 (beq_iff_eq.1 hlast)
        exact .bracketed inner
      · cases hbracketed
  · exact .quoted name

/-- Quoting brings in no line feed. -/
theorem newline_not_mem_quoteChars {name : List Char} (h : '\n' ∉ name) :
    '\n' ∉ quoteChars name := by
  have hescape : '\n' ∉ escape name := by
    intro hmem
    obtain ⟨c, hc, hmem⟩ := List.mem_flatMap.1 hmem
    split at hmem
    · simp only [List.mem_cons, List.not_mem_nil, or_false] at hmem
      rcases hmem with hmem | rfl
      · exact absurd hmem (by decide)
      · exact h hc
    · obtain rfl := List.mem_singleton.1 hmem
      exact h hc
  unfold quoteChars
  split
  · exact h
  · simp [hescape]

theorem isNameChar_of_isNameStart {c : Char} (h : isNameStart c = true) : isNameChar c = true := by
  rw [isNameStart, Bool.or_eq_true] at h
  rw [isNameChar, Bool.or_eq_true]
  refine h.imp_left fun hword ↦ isWordChar_of_latin ?_
  rw [Bool.or_right_comm, hword, Bool.true_or]

theorem isNameChar_of_isName {key : List Char} (h : isName key = true) :
    ∀ c ∈ key, isNameChar c = true := by
  rcases key with - | ⟨c, key⟩
  · simp
  · obtain ⟨hstart, hall⟩ := Bool.and_eq_true_iff.1 h
    exact List.forall_mem_cons.2 ⟨isNameChar_of_isNameStart hstart, List.all_eq_true.1 hall⟩

namespace Spelling

variable {key : List Char}

/-- A key starts with something visible. -/
theorem exists_cons (h : Spelling key) : ∃ c rest, key = c :: rest ∧ isBlank c = false := by
  cases h with
  | name h =>
    rcases key with - | ⟨c, rest⟩
    · cases h
    · exact ⟨c, rest, rfl, isBlank_of_isNameChar (isNameChar_of_isName h c List.mem_cons_self)⟩
  | bracketed => exact ⟨_, _, rfl, by decide⟩
  | quoted => exact ⟨_, _, rfl, by decide⟩

end Spelling

/-! ### Reading a key -/

/-- A quoted key is read up to its own closing quote. -/
theorem readQuoted?_escape (name rest : List Char) :
    Member.readQuoted? (escape name ++ '"' :: rest) = some (escape name ++ ['"'], rest) := by
  induction name with
  | nil => rfl
  | cons c name ih =>
    rw [escape_cons]
    split
    · simp only [List.cons_append, List.nil_append, Member.readQuoted?, ih, Option.map_some]
    · next hplain =>
      obtain ⟨hbackslash, hquote⟩ := not_or.1 hplain
      rw [List.append_assoc, List.singleton_append, Member.readQuoted?, ih]
      · rfl
      · exact hquote
      · exact fun h ↦ absurd h hbackslash
      · exact fun d ds h ↦ absurd h hbackslash

/-- A quoted key that is cut off is not read. -/
theorem readQuoted?_unclosed {name front back : List Char} {c : Char} (hbackslash : c ≠ '\\')
    (hquote : c ≠ '"') (h : escape name ++ ['"'] = front ++ c :: back) :
    Member.readQuoted? (front ++ [c]) = none := by
  have hplain : ∀ {d cs}, d ≠ '\\' → d ≠ '"' → Member.readQuoted? cs = none →
      Member.readQuoted? (d :: cs) = none := by
    intro d cs hd hd' hnone
    rw [Member.readQuoted?, hnone, Option.map_none]
    · exact hd'
    · exact fun e ↦ absurd e hd
    · exact fun e es heq ↦ absurd heq hd
  have hsingle : Member.readQuoted? ([] ++ [c]) = none := hplain hbackslash hquote rfl
  induction name generalizing front with
  | nil =>
    rcases front with - | ⟨d, front⟩
    · exact hsingle
    · have hnil := List.tail_eq_of_cons_eq h
      simp at hnil
  | cons d name ih =>
    rcases front with - | ⟨e, front⟩
    · exact hsingle
    rw [escape_cons] at h
    -- The character at the cut needs no escape, so it is not the second one of a pair.
    split at h
    · next hspecial =>
      obtain ⟨rfl, hrest⟩ := List.cons_eq_cons.1 h
      rcases front with - | ⟨e, front⟩
      · obtain rfl := List.head_eq_of_cons_eq hrest
        exact absurd hspecial (not_or.2 ⟨hbackslash, hquote⟩)
      · rw [List.cons_append, List.cons_append, Member.readQuoted?,
          ih (List.tail_eq_of_cons_eq hrest), Option.map_none]
    · next hother =>
      obtain ⟨hd, hd'⟩ := not_or.1 hother
      obtain rfl := List.head_eq_of_cons_eq h
      exact hplain hd hd' (ih (List.tail_eq_of_cons_eq h))

section

variable {modifier key mark : List Char}

/-- A modifier is read as it is written. -/
theorem readModifier_append {cs : List Char}
    (hmodifier : modifier = [] ∨ modifier = "readonly ".toList)
    (hvisible : ∃ c rest, cs = c :: rest ∧ isBlank c = false)
    (hword : ∀ behind, cs = "readonly".toList ++ behind → behind.takeWhile isBlank = []) :
    Member.readModifier (modifier ++ cs) = (modifier, cs) := by
  rcases hmodifier with rfl | rfl
  · rw [List.nil_append, Member.readModifier]
    split
    · next behind hafter => rw [hword behind (after?_eq_some_iff.1 hafter)]
    · rfl
  · obtain ⟨c, rest, rfl, hc⟩ := hvisible
    have hsplit : "readonly ".toList = "readonly".toList ++ [' '] := by decide
    have htake : ([' '] ++ c :: rest).takeWhile isBlank = [' '] :=
      takeWhile_append_cons (by decide : Blank [' ']) hc rest
    have hdrop : ([' '] ++ c :: rest).dropWhile isBlank = c :: rest :=
      dropWhile_append_cons (by decide : Blank [' ']) hc rest
    rw [hsplit, List.append_assoc, Member.readModifier, after?_append]
    simp only [htake, hdrop]

/-- What follows the word `readonly` in a key is a character of a name, the question mark or the
colon. -/
theorem readModifier_key (h : Spelling key)
    (hmodifier : modifier = [] ∨ modifier = "readonly ".toList)
    (hmark : mark = [] ∨ mark = ['?']) (rest : List Char) :
    Member.readModifier (modifier ++ (key ++ (mark ++ ':' :: rest))) =
      (modifier, key ++ (mark ++ ':' :: rest)) := by
  obtain ⟨c, tail, hkey, hc⟩ := h.exists_cons
  refine readModifier_append hmodifier ⟨c, _, by rw [hkey, List.cons_append], hc⟩ ?_
  intro behind hsplit
  have hvisible : ∀ d ∈ key ++ mark, isBlank d = false := by
    cases h with
    | name h =>
      intro d hd
      rcases List.mem_append.1 hd with hd | hd
      · exact isBlank_of_isNameChar (isNameChar_of_isName h d hd)
      · rcases hmark with rfl | rfl
        · simp at hd
        · rw [List.mem_singleton.1 hd]
          decide
    | bracketed => simp at hsplit
    | quoted => simp at hsplit
  rw [← List.append_assoc, eq_comm] at hsplit
  rcases append_eq_append_cons hsplit with ⟨mid, hword, -⟩ | ⟨mid, hmid, rfl⟩
  · have hcolon : ':' ∈ "readonly".toList := by simp [hword]
    exact absurd hcolon (by decide)
  · rcases mid with - | ⟨d, mid⟩
    · rfl
    · rw [List.cons_append, List.takeWhile_cons_of_neg]
      simp [hvisible d (by simp [hmid])]

/-- A key in front of its colon is read as it is written, unless it is in brackets. -/
theorem readKey?_key_of_head (h : Spelling key) (hhead : key.head? ≠ some '[')
    (hmark : mark = [] ∨ mark = ['?']) (rest : List Char) :
    Member.readKey? (key ++ (mark ++ ':' :: rest)) = some (key, mark ++ ':' :: rest) := by
  cases h with
  | name h =>
    rcases key with - | ⟨c, key⟩
    · cases h
    obtain ⟨hstart, hall⟩ := Bool.and_eq_true_iff.1 h
    have hquote : c ≠ '"' := by
      rintro rfl
      exact absurd hstart (by decide)
    obtain ⟨d, behind, hbehind, hd⟩ : ∃ d behind, mark ++ ':' :: rest = d :: behind ∧
        isNameChar d = false := by
      rcases hmark with rfl | rfl
      · exact ⟨_, _, rfl, by decide⟩
      · exact ⟨_, _, rfl, by decide⟩
    rw [hbehind, List.cons_append, Member.readKey?, name?, if_pos hstart,
      takeWhile_append_cons (List.all_eq_true.1 hall) hd,
      dropWhile_append_cons (List.all_eq_true.1 hall) hd]
    exact fun cs heq ↦ hquote (List.head_eq_of_cons_eq heq)
  | bracketed => exact absurd rfl hhead
  | quoted name =>
    rw [List.cons_append, List.append_assoc, List.singleton_append, Member.readKey?,
      readQuoted?_escape]
    rfl

/-- A key in front of its colon is read as it is written, or not at all. -/
theorem readKey?_key (h : Spelling key) (hmark : mark = [] ∨ mark = ['?']) (rest : List Char) :
    Member.readKey? (key ++ (mark ++ ':' :: rest)) = some (key, mark ++ ':' :: rest) ∨
      Member.readKey? (key ++ (mark ++ ':' :: rest)) = none := by
  by_cases hhead : key.head? = some '['
  · obtain ⟨inner, rfl⟩ := List.head?_eq_some_iff.1 hhead
    exact .inr rfl
  · exact .inl (readKey?_key_of_head h hhead hmark rest)

/-- **A member keeps its key** when it is written as an optional member. -/
theorem exists_sugar_key (h : Spelling key)
    (hmodifier : modifier = [] ∨ modifier = "readonly ".toList)
    (hmark : mark = [] ∨ mark = ['?']) (rest : List Char) :
    ∃ mark' rest', (mark' = [] ∨ mark' = ['?']) ∧
      sugar (modifier ++ (key ++ (mark ++ ':' :: rest))) =
        modifier ++ (key ++ (mark' ++ ':' :: rest')) := by
  have hsame : ∃ mark' rest', (mark' = [] ∨ mark' = ['?']) ∧
      modifier ++ (key ++ (mark ++ ':' :: rest)) =
        modifier ++ (key ++ (mark' ++ ':' :: rest')) := ⟨mark, rest, hmark, rfl⟩
  unfold sugar
  split
  · exact hsame
  · next m hread =>
    -- The reader of members takes the modifier and the key as they were declared.
    obtain ⟨hm, hk⟩ : m.modifier = modifier ∧ m.key = key := by
      rw [Member.read?, readModifier_key h hmodifier hmark] at hread
      rcases readKey?_key h hmark rest with hkey | hkey
      · simp only [hkey, Option.bind_eq_bind, Option.bind_some, Option.bind_eq_some_iff,
          Option.pure_def, Option.some.injEq] at hread
        obtain ⟨behind, -, ⟨type, terminator⟩, -, rfl⟩ := hread
        exact ⟨rfl, rfl⟩
      · simp [hkey] at hread
    split
    · exact hsame
    · dsimp only
      split
      · exact hsame
      · refine ⟨['?'], ' ' :: (trimEnd isBlank (withoutUndefined m.type) ++ m.terminator),
          .inr rfl, ?_⟩
        rw [Member.chars, hm, hk]
        simp

/-- A line that ends inside its key is no member. -/
theorem sugar_unclosed {front back : List Char} (h : Spelling (front ++ '{' :: back))
    (hmodifier : modifier = [] ∨ modifier = "readonly ".toList) :
    sugar (modifier ++ (front ++ ['{'])) = modifier ++ (front ++ ['{']) := by
  obtain ⟨c, rest, hfront, hc, hkey⟩ : ∃ c rest, front = c :: rest ∧ (c = '[' ∨ c = '"') ∧
      Member.readKey? (front ++ ['{']) = none := by
    -- A bare name has no brace, so the key is bracketed or quoted, and is not closed on this line.
    generalize hwhole : front ++ '{' :: back = key at h
    cases h with
    | name h =>
      have hbrace := isNameChar_of_isName h '{' (by simp [← hwhole])
      exact absurd hbrace (by decide)
    | bracketed inner =>
      rcases front with - | ⟨c, front⟩
      · exact absurd (List.head_eq_of_cons_eq hwhole) (by decide)
      · obtain ⟨rfl, -⟩ := List.cons_eq_cons.1 hwhole
        exact ⟨'[', front, rfl, .inl rfl, rfl⟩
    | quoted name =>
      rcases front with - | ⟨c, front⟩
      · exact absurd (List.head_eq_of_cons_eq hwhole) (by decide)
      · obtain ⟨rfl, hrest⟩ := List.cons_eq_cons.1 hwhole
        have hnone := readQuoted?_unclosed (by decide) (by decide) hrest.symm
        refine ⟨'"', front, rfl, .inr rfl, ?_⟩
        rw [List.cons_append, Member.readKey?, hnone, Option.map_none]
  have hread : Member.read? (modifier ++ (front ++ ['{'])) = none := by
    rw [Member.read?, readModifier_append hmodifier]
    · simp [hkey]
    · refine ⟨c, rest ++ ['{'], by rw [hfront, List.cons_append], ?_⟩
      rcases hc with rfl | rfl
      all_goals decide
    · intro behind hword
      rw [hfront] at hword
      rcases hc with rfl | rfl
      all_goals exact absurd (List.head_eq_of_cons_eq hword) (by decide)
  rw [sugar, hread]

end

/-! ### Imports and quoted keys -/

/-- A character that needs no escape is read off an escaped name. -/
theorem exists_of_escape_eq {name rest behind : List Char} {c : Char} (hbackslash : c ≠ '\\')
    (hquote : c ≠ '"') (h : escape name ++ '"' :: rest = c :: behind) :
    ∃ tail, name = c :: tail ∧ behind = escape tail ++ '"' :: rest := by
  rcases name with - | ⟨d, name⟩
  · exact absurd (List.head_eq_of_cons_eq h).symm hquote
  · rw [escape_cons] at h
    split at h
    · exact absurd (List.head_eq_of_cons_eq h).symm hbackslash
    · obtain ⟨rfl, hrest⟩ := List.cons_eq_cons.1 h
      exact ⟨name, rfl, hrest.symm⟩

/-- The first quote in a quoted key that no backslash precedes is the closing one. -/
theorem escape_eq_of_append_eq {name stem rest behind : List Char} (hbackslash : '\\' ∉ stem)
    (hquote : '"' ∉ stem) (h : escape name ++ '"' :: rest = stem ++ '"' :: behind) :
    escape name = stem := by
  induction stem generalizing name with
  | nil =>
    rcases name with - | ⟨c, name⟩
    · rfl
    · rw [escape_cons] at h
      split at h
      · exact absurd (List.head_eq_of_cons_eq h) (by decide)
      · next hplain => exact absurd (.inr (List.head_eq_of_cons_eq h)) hplain
  | cons c stem ih =>
    have hc : ¬(c = '\\' ∨ c = '"') :=
      not_or.2 ⟨(List.ne_of_not_mem_cons hbackslash).symm, (List.ne_of_not_mem_cons hquote).symm⟩
    obtain ⟨hc', hc''⟩ := not_or.1 hc
    obtain ⟨name, rfl, hrest⟩ := exists_of_escape_eq hc' hc'' h
    rw [escape_cons, if_neg hc, List.singleton_append,
      ih (List.not_mem_of_not_mem_cons hbackslash) (List.not_mem_of_not_mem_cons hquote) hrest.symm]

/-- How an import starts, up to its quote. -/
def importStem : List Char :=
  ['t', 'y', 'p', 'e', 'o', 'f', ' ', 'i', 'm', 'p', 'o', 'r', 't', '(']

theorem importOpening_append (cs : List Char) : importOpening ++ cs = importStem ++ '"' :: cs :=
  rfl

theorem after?_importOpening_cons {c : Char} (hc : c ≠ 't') (cs : List Char) :
    after? importOpening (c :: cs) = none := by
  simp [importOpening, after?, hc.symm]

/-- Up to its closing quote, what is left of a quoted key is copied. -/
theorem escape_prefix_shortenImports (name rest : List Char) :
    escape name ++ ['"'] <+: shortenImports (escape name ++ '"' :: rest) := by
  induction name with
  | nil =>
    rw [escape, List.flatMap_nil, List.nil_append, List.nil_append,
      shortenImports_cons (after?_importOpening_cons (by decide) _)]
    exact (List.prefix_cons_inj _).2 List.nil_prefix
  | cons c name ih =>
    rcases hafter : after? importOpening (escape (c :: name) ++ '"' :: rest) with - | behind
    · rw [escape_cons] at hafter ⊢
      split at hafter
      · next hspecial =>
        have hc : c ≠ 't' := by
          rintro rfl
          exact absurd hspecial (by decide)
        simp only [if_pos hspecial, List.cons_append, List.nil_append]
        rw [shortenImports_cons (after?_importOpening_cons (by decide) _),
          shortenImports_cons (after?_importOpening_cons hc _)]
        exact (List.prefix_cons_inj _).2 ((List.prefix_cons_inj _).2 ih)
      · next hplain =>
        simp only [if_neg hplain, List.cons_append, List.nil_append] at hafter ⊢
        rw [shortenImports_cons hafter]
        exact (List.prefix_cons_inj _).2 ih
    · -- The import opens with the closing quote of the key, and its opening is copied.
      have hsplit := after?_eq_some_iff.1 hafter
      have hstem : escape (c :: name) = importStem := escape_eq_of_append_eq (by decide) (by decide)
        (hsplit.trans (importOpening_append behind))
      have hopening : escape (c :: name) ++ ['"'] = importOpening := by
        rw [hstem]
        rfl
      have htake := take_shortenImports (importOpening ++ behind)
      rw [List.take_left] at htake
      rw [hopening, hsplit]
      exact List.prefix_iff_eq_take.2 htake.symm

/-- **An import path does not reach into a quoted key** that no parenthesis precedes. -/
theorem quoted_infix_shortenImports {front : List Char} (hfront : front.getLast? ≠ some '(')
    (name rest : List Char) : '"' :: (escape name ++ ['"']) <:+:
      shortenImports (front ++ '"' :: (escape name ++ '"' :: rest)) := by
  obtain ⟨n, hn⟩ : ∃ n, front.length = n := ⟨_, rfl⟩
  induction n using Nat.strongRecOn generalizing front with
  | ind n ih =>
    rcases hmatch : importMatch? (front ++ '"' :: (escape name ++ '"' :: rest)) with - | ⟨k, out⟩
    · rcases front with - | ⟨c, front⟩
      · rw [List.nil_append, shortenImports_cons (after?_importOpening_cons (by decide) _)]
        exact ((List.prefix_cons_inj _).2 (escape_prefix_shortenImports name rest)).isInfix
      · have hcopy : shortenImports (c :: (front ++ '"' :: (escape name ++ '"' :: rest))) =
            c :: shortenImports (front ++ '"' :: (escape name ++ '"' :: rest)) :=
          substitute_of_none hmatch
        have hlast : front.getLast? ≠ some '(' := by
          intro hlast
          simp [List.getLast?_cons, hlast] at hfront
        rw [List.cons_append, hcopy]
        exact List.infix_cons (ih front.length (by simp [← hn]) hlast rfl)
    · obtain ⟨path, behind, hpath, hsplit, -, -⟩ := importMatch?_eq_some_iff.1 hmatch
      rw [hsplit, shortenImports_import hpath]
      rw [importOpening_append] at hsplit
      -- The quote that opens the key comes behind the import or closes its path.
      rcases append_cons_eq_append_cons hsplit with ⟨mid, rfl, hmid⟩ | ⟨-, rfl, -⟩ | ⟨mid, hstem, -⟩
      · have hclosing : importClosing ++ behind = '"' :: (')' :: behind) := rfl
        rw [hclosing] at hmid
        rcases append_cons_eq_append_cons hmid.symm with ⟨inner, rfl, hinner⟩ | ⟨-, rfl, hkey⟩ |
          ⟨inner, rfl, -⟩
        · rcases inner with - | ⟨d, inner⟩
          · exact absurd (List.head_eq_of_cons_eq hinner) (by decide)
          · obtain ⟨-, rfl⟩ := List.cons_eq_cons.1 hinner
            have hlast : inner.getLast? ≠ some '(' := by
              intro hlast
              simp [List.getLast?_cons, List.getLast?_append, hlast] at hfront
            have hless : inner.length < n := by
              rw [← hn]
              simp only [List.length_append, List.length_cons]
              omega
            have hrest := ih inner.length hless hlast rfl
            exact List.infix_append_of_infix_right (List.infix_append_of_infix_right
              (List.infix_append_of_infix_right hrest))
        · -- The key starts with the parenthesis of the import.
          obtain ⟨name, rfl, rfl⟩ := exists_of_escape_eq (by decide) (by decide) hkey
          have hcopy : '"' :: (escape (')' :: name) ++ ['"']) <+:
              importClosing ++ shortenImports (escape name ++ '"' :: rest) :=
            (List.prefix_append_right_inj importClosing).2 (escape_prefix_shortenImports name rest)
          exact List.infix_append_of_infix_right (List.infix_append_of_infix_right hcopy.isInfix)
        · simp at hpath
      · exact absurd rfl hfront
      · have hquote : '"' ∈ importStem := by simp [hstem]
        exact absurd hquote (by decide)

end TypeLens.Layout
