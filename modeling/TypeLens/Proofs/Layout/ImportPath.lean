import TypeLens.Proofs.Layout.Spacing

/-!
# Shortening import paths

What shortening the imports of a text does to its lines. A path is replaced by a part of it, up to
the direction of its slashes, so the rewritten text is strictly shorter whenever it differs at all
(`weight_shortenImports`), and a whole line stays whole (`Whole.shortenImports`).

An import is looked for in the whole text, so one that is opened on a line and not closed there may
run on over the end of the line. The imports of a line are *complete* when this does not happen
(`ImportsComplete`). Then lines are rewritten one by one (`shortenImports_draft`).
-/

namespace TypeLens.Layout

open Text

/-- The number of characters of a text without its spacing. -/
def weight (cs : List Char) : Nat :=
  (dropSpacing cs).length

theorem weight_append (xs ys : List Char) : weight (xs ++ ys) = weight xs + weight ys := by
  rw [weight, dropSpacing_append, List.length_append, weight, weight]

theorem weight_cons (c : Char) (cs : List Char) : weight (c :: cs) = weight [c] + weight cs :=
  weight_append [c] cs

theorem weight_le_of_lt_or_eq {new old : List Char} (h : weight new < weight old ∨ new = old) :
    weight new ≤ weight old := by
  rcases h with hless | rfl
  · exact hless.le
  · exact le_rfl

/-! ### The module part of a path -/

/-- Turning slashes changes no weight. -/
theorem weight_forwardSlashes (path : List Char) : weight (forwardSlashes path) = weight path := by
  induction path with
  | nil => rfl
  | cons c path ih =>
    have hhead : weight (forwardSlashes [c]) = weight [c] := by
      by_cases hc : c = '\\'
      · subst hc
        decide
      · simp [forwardSlashes, hc]
    rw [weight_cons c path, ← ih, ← hhead, ← weight_append]
    rfl

/-- Turning slashes brings in nothing but slashes. -/
theorem mem_of_mem_forwardSlashes {c : Char} {path : List Char} (hc : c ≠ '/')
    (h : c ∈ forwardSlashes path) : c ∈ path := by
  obtain ⟨d, hd, rfl⟩ := List.mem_map.1 h
  split at hc
  · exact absurd rfl hc
  · next hslash => rwa [if_neg hslash]

/-- The last segment is what stands between two stretches of a path, and it has no slash. -/
theorem exists_append_lastSegment (path : List Char) :
    '/' ∉ lastSegment path ∧ ∃ front back, path = front ++ (lastSegment path ++ back) := by
  constructor
  · intro hc
    have hkeep := List.mem_takeWhile_imp (List.mem_reverse.1 hc)
    simp at hkeep
  · refine ⟨((path.reverse.dropWhile (· == '/')).dropWhile (· != '/')).reverse,
      (path.reverse.takeWhile (· == '/')).reverse, ?_⟩
    rw [lastSegment, ← List.reverse_append, ← List.reverse_append, List.append_assoc,
      List.takeWhile_append_dropWhile, List.takeWhile_append_dropWhile, List.reverse_reverse]

/-- A path that starts like a file has a slash. -/
theorem slash_mem_forwardSlashes {path : List Char}
    (h : (startsLikeFile (forwardSlashes path) || startsWithDrive path) = true) :
    '/' ∈ forwardSlashes path := by
  rcases Bool.or_eq_true_iff.1 h with hfile | hdrive
  · obtain ⟨start, hstart, hsome⟩ := List.any_eq_true.1 hfile
    obtain ⟨rest, hrest⟩ := Option.isSome_iff_exists.1 hsome
    have hslash : '/' ∈ start.toList := by
      simp only [List.mem_cons, List.not_mem_nil, or_false] at hstart
      rcases hstart with rfl | rfl | rfl
      all_goals decide
    rw [after?_eq_some_iff.1 hrest]
    exact List.mem_append_left _ hslash
  · unfold startsWithDrive at hdrive
    split at hdrive
    · next d s rest =>
      have hs : s = '/' ∨ s = '\\' := by simpa using (Bool.and_eq_true_iff.1 hdrive).2
      rcases hs with rfl | rfl
      all_goals simp [forwardSlashes]
    · simp at hdrive

/-- A path stays as it is, or something with a slash is cut off. -/
theorem modulePart_cases (path : List Char) :
    modulePart path = path ∨ ∃ front back, '/' ∈ front ++ back ∧
      forwardSlashes path = front ++ (modulePart path ++ back) := by
  unfold modulePart
  dsimp only
  split
  · next pre package hcut =>
    refine .inr ⟨pre ++ "node_modules/".toList, [], by simp, ?_⟩
    rw [append_of_cutLast? hcut]
    simp
  · split
    · next hfile =>
      obtain ⟨hsegment, front, back, hsplit⟩ := exists_append_lastSegment (forwardSlashes path)
      refine .inr ⟨front, back, ?_, hsplit⟩
      have hslash := slash_mem_forwardSlashes hfile
      rw [hsplit] at hslash
      simpa [hsegment] using hslash
    · exact .inl rfl

/-- The module part of a path has no characters but those of the path. -/
theorem mem_of_mem_modulePart {c : Char} {path : List Char} (hc : c ≠ '/')
    (h : c ∈ modulePart path) : c ∈ path := by
  rcases modulePart_cases path with hsame | ⟨front, back, -, hsplit⟩
  · exact hsame ▸ h
  · refine mem_of_mem_forwardSlashes hc ?_
    rw [hsplit]
    simp [h]

/-- A path gets shorter or stays as it is. -/
theorem weight_modulePart (path : List Char) :
    weight (modulePart path) < weight path ∨ modulePart path = path := by
  rcases modulePart_cases path with hsame | ⟨front, back, hslash, hsplit⟩
  · exact .inr hsame
  · left
    have hpos : 0 < weight (front ++ back) := by
      refine List.length_pos_of_mem (List.mem_filter.2 ⟨hslash, by decide⟩)
    have hweight := congrArg weight hsplit
    rw [weight_forwardSlashes, weight_append, weight_append] at hweight
    rw [weight_append] at hpos
    omega

/-! ### Imports in a text -/

/-- How an import starts. -/
def importOpening : List Char :=
  ['t', 'y', 'p', 'e', 'o', 'f', ' ', 'i', 'm', 'p', 'o', 'r', 't', '(', '"']

/-- How an import ends. -/
def importClosing : List Char :=
  ['"', ')']

theorem toList_importOpening : "typeof import(\"".toList = importOpening := by
  simp [importOpening]

theorem toList_importClosing : "\")".toList = importClosing := by
  simp [importClosing]

/-- An import is matched when a quote ends its path and closes it. -/
theorem importMatch?_eq_some_iff {cs out : List Char} {n : Nat} :
    importMatch? cs = some (n, out) ↔ ∃ path rest, '"' ∉ path ∧
      cs = importOpening ++ (path ++ (importClosing ++ rest)) ∧
        n = (importOpening ++ (path ++ importClosing)).length ∧
          out = importOpening ++ (modulePart path ++ importClosing) := by
  constructor
  · intro h
    simp only [importMatch?, toList_importOpening, toList_importClosing, Option.bind_eq_bind,
      Option.bind_eq_some_iff, after?_eq_some_iff, Option.pure_def, Option.some.injEq,
      Prod.mk.injEq] at h
    obtain ⟨rest, hcs, behind, hbehind, rfl, rfl⟩ := h
    refine ⟨rest.takeWhile (· != '"'), behind, ?_, ?_, ?_, List.append_assoc _ _ _⟩
    · intro hc
      have hkeep := List.mem_takeWhile_imp hc
      simp at hkeep
    · rw [hcs, ← hbehind, List.takeWhile_append_dropWhile]
    · rw [List.length_append, List.length_append, Nat.add_assoc]
  · rintro ⟨path, rest, hpath, rfl, rfl, rfl⟩
    have hkeep : ∀ c ∈ path, (c != '"') = true := by
      intro c hc
      have hne : c ≠ '"' := fun e ↦ hpath (e ▸ hc)
      simp [hne]
    have hclosing : importClosing ++ rest = '"' :: ')' :: rest := rfl
    have htake : (path ++ (importClosing ++ rest)).takeWhile (· != '"') = path := by
      rw [hclosing, takeWhile_append_cons hkeep (by decide)]
    have hdrop : (path ++ (importClosing ++ rest)).dropWhile (· != '"') =
        importClosing ++ rest := by
      rw [hclosing, dropWhile_append_cons hkeep (by decide)]
    simp only [importMatch?, toList_importOpening, toList_importClosing, after?_append,
      Option.bind_eq_bind, Option.bind_some, htake, hdrop, List.length_append, Nat.add_assoc,
      List.append_assoc, Option.pure_def]

theorem advances_importMatch? : Advances importMatch? := by
  intro cs n out hmatch
  obtain ⟨path, rest, -, -, rfl, -⟩ := importMatch?_eq_some_iff.1 hmatch
  rw [List.length_append]
  exact Nat.lt_of_lt_of_le (by decide : 0 < importOpening.length) (Nat.le_add_right _ _)

/-- Nothing matches where no import opens. -/
theorem importMatch?_eq_none {cs : List Char} (h : after? importOpening cs = none) :
    importMatch? cs = none := by
  rcases hmatch : importMatch? cs with - | ⟨n, out⟩
  · rfl
  · obtain ⟨path, rest, -, rfl, -⟩ := importMatch?_eq_some_iff.1 hmatch
    simp at h

/-- Where no import starts, a character is copied. -/
theorem shortenImports_cons {c : Char} {cs : List Char}
    (h : after? importOpening (c :: cs) = none) :
    shortenImports (c :: cs) = c :: shortenImports cs :=
  substitute_of_none (importMatch?_eq_none h)

/-- Behind an import the text goes on. -/
theorem drop_import (path rest : List Char) :
    (importOpening ++ (path ++ (importClosing ++ rest))).drop
      (importOpening ++ (path ++ importClosing)).length = rest := by
  have hsplit : importOpening ++ (path ++ (importClosing ++ rest)) =
      (importOpening ++ (path ++ importClosing)) ++ rest := by
    simp only [List.append_assoc]
  rw [hsplit, List.drop_left]

/-- An import is copied with the module part of its path. -/
theorem shortenImports_import {path : List Char} (h : '"' ∉ path) (rest : List Char) :
    shortenImports (importOpening ++ (path ++ (importClosing ++ rest))) =
      importOpening ++ (modulePart path ++ (importClosing ++ shortenImports rest)) := by
  have hmatch := importMatch?_eq_some_iff.2 ⟨path, rest, h, rfl, rfl, rfl⟩
  rw [shortenImports, substitute_of_some advances_importMatch? hmatch (by simp [importOpening]),
    drop_import, List.append_assoc, List.append_assoc]
  rfl

/-- **Induction along the imports of a text.** -/
theorem shortenImports_induction {motive : List Char → List Char → Prop} (nil : motive [] [])
    (keep : ∀ c cs out, importMatch? (c :: cs) = none → motive cs out → motive (c :: cs) (c :: out))
    (path : ∀ path rest out, '"' ∉ path → motive rest out →
      motive (importOpening ++ (path ++ (importClosing ++ rest)))
        (importOpening ++ (modulePart path ++ (importClosing ++ out))))
    (cs : List Char) : motive cs (shortenImports cs) := by
  refine substitute_induction advances_importMatch? nil keep ?_ cs
  intro cs n new out hmatch ih
  obtain ⟨p, rest, hp, rfl, rfl, rfl⟩ := importMatch?_eq_some_iff.1 hmatch
  rw [drop_import] at ih
  simpa only [List.append_assoc] using path p rest out hp ih

/-! ### Lines with imports -/

/-- A text gets shorter or stays as it is. -/
theorem weight_shortenImports (cs : List Char) :
    weight (shortenImports cs) < weight cs ∨ shortenImports cs = cs := by
  refine shortenImports_induction (motive := fun cs out ↦ weight out < weight cs ∨ out = cs)
    (.inr rfl) ?_ ?_ cs
  · intro c cs out _ ih
    rcases ih with hless | rfl
    · left
      rw [weight_cons c out, weight_cons c cs]
      omega
    · exact .inr rfl
  · intro path rest out _ ih
    simp only [weight_append]
    have hpath := weight_modulePart path
    have hrest := weight_le_of_lt_or_eq ih
    rcases hpath with hless | hsame
    · left
      omega
    · rw [hsame]
      rcases ih with hless | rfl
      · left
        omega
      · exact .inr rfl

/-- The characters of a shortened text come from the text, slashes apart. -/
theorem mem_of_mem_shortenImports {c : Char} (hc : c ≠ '/') {cs : List Char}
    (h : c ∈ shortenImports cs) : c ∈ cs := by
  revert h
  refine shortenImports_induction (motive := fun cs out ↦ c ∈ out → c ∈ cs) id ?_ ?_ cs
  · intro d cs out _ ih hmem
    rcases List.mem_cons.1 hmem with rfl | hmem
    · exact List.mem_cons_self
    · exact List.mem_cons_of_mem _ (ih hmem)
  · intro path rest out _ ih hmem
    simp only [List.mem_append] at hmem ⊢
    rcases hmem with hmem | hmem | hmem | hmem
    · exact .inl hmem
    · exact .inr (.inl (mem_of_mem_modulePart hc hmem))
    · exact .inr (.inr (.inl hmem))
    · exact .inr (.inr (.inr (ih hmem)))

/-- Shortening starts behind the opening of an import. -/
theorem take_shortenImports (cs : List Char) :
    (shortenImports cs).take importOpening.length = cs.take importOpening.length := by
  refine shortenImports_induction
    (motive := fun cs out ↦ out.take importOpening.length = cs.take importOpening.length)
    rfl ?_ ?_ cs
  · intro c cs out _ ih
    -- Behind the character that is copied, one character less is asked for.
    have hshort := congrArg (List.take 14) ih
    rw [List.take_take, List.take_take] at hshort
    exact congrArg (c :: ·) hshort
  · intro path rest out _ _
    rw [List.take_left, List.take_left]

theorem head?_shortenImports (cs : List Char) : (shortenImports cs).head? = cs.head? := by
  have h := congrArg List.head? (take_shortenImports cs)
  rwa [List.head?_take, List.head?_take, if_neg (by decide), if_neg (by decide)] at h

/-- Shortening keeps the last character and brings nothing but slashes before it. -/
theorem ends_shortenImports (cs : List Char) :
    (shortenImports cs).getLast? = cs.getLast? ∧
      ∀ c ≠ '/', c ∈ (shortenImports cs).dropLast → c ∈ cs.dropLast := by
  -- The last character goes through the induction too, for it tells whether anything is left
  -- behind.
  refine shortenImports_induction (motive := fun cs out ↦ out.getLast? = cs.getLast? ∧
    ∀ c ≠ '/', c ∈ out.dropLast → c ∈ cs.dropLast) ⟨rfl, by simp⟩ ?_ ?_ cs
  · rintro d cs out - ⟨hlast, hinner⟩
    rcases eq_or_ne out [] with rfl | hout
    · have hcs : cs = [] := List.getLast?_eq_none_iff.1 hlast.symm
      simp [hcs]
    · have hcs : cs ≠ [] := fun e ↦ hout (List.getLast?_eq_none_iff.1 (by rw [hlast, e]; rfl))
      refine ⟨by simp [List.getLast?_cons, hlast], ?_⟩
      rw [List.dropLast_cons_of_ne_nil hout, List.dropLast_cons_of_ne_nil hcs]
      intro c hc hmem
      rcases List.mem_cons.1 hmem with rfl | hmem
      · exact List.mem_cons_self
      · exact List.mem_cons_of_mem _ (hinner c hc hmem)
  · rintro path rest out - ⟨hlast, hinner⟩
    have hend : ∀ p cs : List Char, (importOpening ++ (p ++ (importClosing ++ cs))).dropLast =
        importOpening ++ (p ++ (importClosing ++ cs).dropLast) := by
      intro p cs
      rw [List.dropLast_append_of_ne_nil (by simp [importClosing]),
        List.dropLast_append_of_ne_nil (by simp [importClosing])]
    have htail : ∀ c ≠ '/', c ∈ (importClosing ++ out).dropLast →
        c ∈ (importClosing ++ rest).dropLast := by
      rcases eq_or_ne out [] with rfl | hout
      · have hrest : rest = [] := List.getLast?_eq_none_iff.1 hlast.symm
        exact fun c _ hmem ↦ hrest ▸ hmem
      · have hrest : rest ≠ [] := fun e ↦ hout (List.getLast?_eq_none_iff.1 (by rw [hlast, e]; rfl))
        rw [List.dropLast_append_of_ne_nil hout, List.dropLast_append_of_ne_nil hrest]
        intro c hc hmem
        rcases List.mem_append.1 hmem with hmem | hmem
        · exact List.mem_append_left _ hmem
        · exact List.mem_append_right _ (hinner c hc hmem)
    refine ⟨by simp [List.getLast?_append, List.getLast?_cons, importClosing, hlast],
      fun c hc hmem ↦ ?_⟩
    rw [hend, List.mem_append, List.mem_append] at hmem ⊢
    rcases hmem with hmem | hmem | hmem
    · exact .inl hmem
    · exact .inr (.inl (mem_of_mem_modulePart hc hmem))
    · exact .inr (.inr (htail c hc hmem))

/-- **A whole line stays whole.** -/
theorem Whole.shortenImports {line : List Char} (h : Whole line) : Whole (shortenImports line) := by
  obtain ⟨hlast, hinner⟩ := ends_shortenImports line
  obtain ⟨c, rest, rfl⟩ := List.exists_cons_of_ne_nil h.ne_nil
  have hends := ends_of_trim isBlank (c :: rest)
  rw [h.trimmed] at hends
  have hne : Layout.shortenImports (c :: rest) ≠ [] :=
    fun e ↦ by simp [e, List.getLast?_cons] at hlast
  exact {
    close := by
      have hrest : '}' ∉ rest := h.close
      intro hmem
      by_cases hc : c = '}'
      -- No import starts with a closing brace, so one at the start of the line is copied.
      · rw [hc, shortenImports_cons (by simp [after?, importOpening])] at hmem
        exact hrest (mem_of_mem_shortenImports (by decide) hmem)
      · have hline := mem_of_mem_shortenImports (by decide) (List.mem_of_mem_tail hmem)
        simp [hrest, Ne.symm hc] at hline
    inner := fun d hd ↦ by
      constructor
      · rintro rfl
        exact (h.inner _ (hinner _ (by decide) hd)).1 rfl
      · rintro rfl
        exact (h.inner _ (hinner _ (by decide) hd)).2 rfl
    newline := fun hmem ↦ h.newline (mem_of_mem_shortenImports (by decide) hmem)
    ne_nil := hne
    trimmed := by
      refine trim_eq_self ?_ ?_
      · rw [head?_shortenImports]
        exact hends.1
      · rw [hlast]
        exact hends.2 }

/-! ### Complete imports -/

/-- Every import that starts in a text ends in it. -/
inductive ImportsComplete : List Char → Prop
  /-- There is no import in an empty text. -/
  | nil : ImportsComplete []
  /-- No import starts with the first character. -/
  | char {c : Char} {cs : List Char} (hstart : after? importOpening (c :: cs) = none)
      (hcs : ImportsComplete cs) : ImportsComplete (c :: cs)
  /-- An import with its path is followed by complete imports. -/
  | path {path rest : List Char} (hpath : '"' ∉ path) (hrest : ImportsComplete rest) :
      ImportsComplete (importOpening ++ (path ++ (importClosing ++ rest)))

/-- No import starts in a text without quotes. -/
theorem after?_importOpening_of_not_mem {cs : List Char} (h : '"' ∉ cs) :
    after? importOpening cs = none := by
  rcases hstart : after? importOpening cs with - | rest
  · rfl
  · rw [after?_eq_some_iff.1 hstart] at h
    simp [importOpening] at h

theorem importsComplete_of_not_mem {cs : List Char} (h : '"' ∉ cs) : ImportsComplete cs := by
  induction cs with
  | nil => exact .nil
  | cons c cs ih =>
    exact .char (after?_importOpening_of_not_mem h) (ih (List.not_mem_of_not_mem_cons h))

/-- A text without quotes has no import to shorten. -/
theorem shortenImports_of_not_mem {cs : List Char} (h : '"' ∉ cs) : shortenImports cs = cs := by
  induction cs with
  | nil => rfl
  | cons c cs ih =>
    rw [shortenImports_cons (after?_importOpening_of_not_mem h),
      ih (List.not_mem_of_not_mem_cons h)]

namespace ImportsComplete

variable {cs : List Char}

/-- Imports that are complete do not run over the end of their line. -/
theorem shortenImports_append_newline (h : ImportsComplete cs) (rest : List Char) :
    shortenImports (cs ++ '\n' :: rest) = shortenImports cs ++ '\n' :: shortenImports rest := by
  induction h with
  | nil => exact shortenImports_cons (by simp [after?, importOpening])
  | @char c cs hstart _ ih =>
    -- The opening of an import has no line feed, so what follows does not complete one.
    have hlonger : after? importOpening (c :: (cs ++ '\n' :: rest)) = none :=
      after?_append_cons hstart (by decide) rest
    rw [List.cons_append, shortenImports_cons hlonger, ih, shortenImports_cons hstart,
      List.cons_append]
  | @path path tail hpath _ ih =>
    simp only [List.append_assoc]
    rw [shortenImports_import hpath, ih, shortenImports_import hpath]
    simp only [List.append_assoc]

/-- Shortened imports are complete. -/
theorem shortenImports (h : ImportsComplete cs) : ImportsComplete (shortenImports cs) := by
  induction h with
  | nil => exact .nil
  | @char c cs hstart _ ih =>
    have htake := take_shortenImports (c :: cs)
    rw [shortenImports_cons hstart] at htake ⊢
    rw [after?_eq_none_iff, ← htake] at hstart
    exact .char (after?_eq_none_iff.2 hstart) ih
  | @path path rest hpath _ ih =>
    rw [shortenImports_import hpath]
    exact .path (fun hc ↦ hpath (mem_of_mem_modulePart (by decide) hc)) ih

end ImportsComplete

/-- Indentation stays as it is when the imports behind it are shortened. -/
theorem shortenImports_space_append (n : Nat) (cs : List Char) :
    shortenImports (List.replicate n ' ' ++ cs) = List.replicate n ' ' ++ shortenImports cs := by
  induction n with
  | zero => rfl
  | succ n ih =>
    rw [List.replicate_succ, List.cons_append,
      shortenImports_cons (by simp [after?, importOpening]), ih, List.cons_append]

/-- **Lines with complete imports are rewritten one by one.** -/
theorem shortenImports_draft (width depth : Nat) {lines : List (List Char)}
    (hwhole : ∀ line ∈ lines, Whole line) (hlines : ∀ line ∈ lines, ImportsComplete line) :
    shortenImports (draft width depth lines) = draft width depth (lines.map shortenImports) := by
  induction lines generalizing depth with
  | nil => rfl
  | cons line lines ih =>
    obtain ⟨hline, hrest⟩ := List.forall_mem_cons.1 hwhole
    obtain ⟨hcomplete, hrest'⟩ := List.forall_mem_cons.1 hlines
    have hopen : '{' ∈ shortenImports line ↔ '{' ∈ line := by
      rw [hline.shortenImports.open_mem_iff, hline.open_mem_iff, (ends_shortenImports line).1]
    have hclose : '}' ∈ shortenImports line ↔ '}' ∈ line := by
      rw [hline.shortenImports.close_mem_iff, hline.close_mem_iff, head?_shortenImports]
    have hown : ownDepth depth (shortenImports line) = ownDepth depth line := by
      simp only [ownDepth, hclose]
    have hnext : nextDepth depth (shortenImports line) = nextDepth depth line := by
      simp only [nextDepth, hown, hopen]
    rw [List.map_cons, draft_cons, draft_cons, hown, hnext, shortenImports_space_append]
    simp only [List.map_eq_nil_iff]
    split
    · rw [List.append_nil, List.append_nil]
    · rw [hcomplete.shortenImports_append_newline, ih _ hrest hrest']

end TypeLens.Layout
