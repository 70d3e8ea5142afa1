import TypeLens.Proofs.Layout.Survival
import TypeLens.Proofs.Layout.Tidy

/-!
# Keys with braces

The layout breaks lines at braces and semicolons wherever they stand, in a quoted key too. What is
put together again afterwards are short groups, so a key stays whole exactly if it is *compact*: it
has no semicolon, and its braces belong to short groups (`Compact`).

* A key that is found in a tidy text is compact (`Tidy.compact`): a brace at which a line was broken
  would need a line feed next to it, and a key has none.
* In the draft, the groups of a compact key are *loosened*: where nothing stood between the braces
  there are blanks, and a note is spread over several lines (`Compact.exists_draft`). Each of the
  two substitutions that close braces takes up the groups of the key one after the other
  (`Loosened.exists_substitute`), and what they leave is the key.

So a declared key is found in the layout of a text without placeholders and imports exactly if it is
compact (`Declares.infix_reflow_iff`).
-/

namespace TypeLens.Layout

open Text Key

/-! ### Compact keys -/

/-- A text without semicolons whose braces belong to short groups. -/
inductive Compact : List Char → Prop
  | smooth {key : List Char} (h : Smooth key) : Compact key
  | group {front body key : List Char} (hfront : Smooth front) (hbody : IsShort body)
      (hkey : Compact key) : Compact (front ++ '{' :: (body ++ '}' :: key))

/-- A text is compact if its semicolons and braces are where they should be. -/
theorem compact_of_forall {key : List Char} (hsemicolon : ';' ∉ key)
    (hopening : ∀ front back, key = front ++ '{' :: back → OpensShort back)
    (hclosing : ∀ front back, key = front ++ '}' :: back → ClosesShort front) : Compact key := by
  obtain ⟨n, hn⟩ : ∃ n, key.length = n := ⟨_, rfl⟩
  induction n using Nat.strongRecOn generalizing key with
  | ind n ih =>
    -- Before the first opening brace there is nothing to close.
    have hsmooth : ∀ front back, key = front ++ back → '{' ∉ front → Smooth front := by
      rintro front back rfl hopen c hc
      refine ⟨fun e ↦ hopen (e ▸ hc), ?_, fun e ↦ hsemicolon (List.mem_append_left _ (e ▸ hc))⟩
      rintro rfl
      obtain ⟨mid, rest, rfl⟩ := List.append_of_mem hc
      obtain ⟨start, body, -, rfl⟩ := hclosing mid _ (List.append_assoc _ _ _)
      simp at hopen
    by_cases hopen : '{' ∈ key
    · obtain ⟨front, back, rfl, hfront⟩ := List.eq_append_cons_of_mem hopen
      obtain ⟨body, rest, hbody, rfl⟩ := hopening front back rfl
      have hsplit : ∀ mid c behind, front ++ '{' :: (body ++ '}' :: (mid ++ c :: behind)) =
          ((front ++ '{' :: body) ++ '}' :: mid) ++ c :: behind := by simp
      refine .group (hsmooth front _ rfl hfront) hbody (ih rest.length ?_ ?_ ?_ ?_ rfl)
      · rw [← hn]
        simp only [List.length_append, List.length_cons]
        omega
      · exact fun hc ↦ hsemicolon (by simp [hc])
      · rintro mid behind rfl
        exact hopening _ behind (hsplit mid '{' behind)
      · rintro mid behind rfl
        exact (hclosing _ behind (hsplit mid '}' behind)).of_append_close
    · exact .smooth (hsmooth key [] (by simp) hopen)

namespace Spelling

variable {front back : List Char} {c : Char}

/-- A key with a character that no name has stands in brackets or in quotes. -/
theorem enclosed {key : List Char} (h : Spelling key) (hc : c ∈ key)
    (hname : isNameChar c = false) :
    ∃ first last, key.head? = some first ∧ key.getLast? = some last ∧
      (first = '[' ∨ first = '"') ∧ (last = ']' ∨ last = '"') := by
  cases h with
  | name h =>
    rw [isNameChar_of_isName h c hc] at hname
    exact absurd hname (by decide)
  | bracketed inner =>
    have hlast : ('[' :: inner ++ [']']).getLast? = some ']' := List.getLast?_concat
    exact ⟨'[', ']', rfl, hlast, .inl rfl, .inl rfl⟩
  | quoted name =>
    have hlast : ('"' :: escape name ++ ['"']).getLast? = some '"' := List.getLast?_concat
    exact ⟨'"', '"', rfl, hlast, .inr rfl, .inr rfl⟩

/-- A character of no name is not the first one of its key, unless it opens the key. -/
theorem exists_front (h : Spelling (front ++ c :: back)) (hname : isNameChar c = false)
    (hc : c ≠ '[' ∧ c ≠ '"') :
    ∃ first rest, front = first :: rest ∧ (first = '[' ∨ first = '"') := by
  obtain ⟨first, -, hhead, -, hshape, -⟩ := h.enclosed (by simp) hname
  rcases front with - | ⟨d, front⟩
  · obtain rfl : c = first := by simpa using hhead
    exact absurd hshape (not_or.2 hc)
  · obtain rfl : d = first := by simpa using hhead
    exact ⟨d, front, rfl, hshape⟩

/-- Nor is it the last one, unless it closes the key. -/
theorem exists_mem_back (h : Spelling (front ++ c :: back)) (hname : isNameChar c = false)
    (hc : c ≠ ']' ∧ c ≠ '"') : ∃ last ∈ back, last = ']' ∨ last = '"' := by
  obtain ⟨-, last, -, hlast, -, hshape⟩ := h.enclosed (by simp) hname
  rw [List.getLast?_append, Option.or_of_isSome (by simp)] at hlast
  refine ⟨last, (List.mem_cons.1 (List.mem_of_getLast? hlast)).resolve_left ?_, hshape⟩
  rintro rfl
  exact absurd hshape (not_or.2 hc)

end Spelling

/-- **A key that is found in a tidy text is compact.** -/
theorem Tidy.compact {key cs : List Char} (h : Tidy cs) (hkey : Spelling key) (hfeed : '\n' ∉ key)
    (hword : key <:+: cs) : Compact key := by
  obtain ⟨before, behind, rfl⟩ := hword
  have hsplit : ∀ front c back, before ++ (front ++ c :: back) ++ behind =
      (before ++ front) ++ c :: (back ++ behind) := by simp
  have hshort : ∀ {body}, IsShort body → ∀ c ∈ body, c ≠ '[' ∧ c ≠ ']' ∧ c ≠ '"' := by
    intro body hbody c hc
    refine ⟨?_, ?_, ?_⟩
    all_goals
      rintro rfl
      exact hbody.not_mem (by decide) (by decide) hc
  -- A semicolon or a brace that ends its line would end the key, and a closing brace that starts
  -- its line would start it. So there is no semicolon, and all braces are those of short groups.
  refine compact_of_forall (fun hc ↦ ?_) ?_ ?_
  · obtain ⟨front, back, rfl⟩ := List.append_of_mem hc
    obtain ⟨last, hmem, -⟩ := hkey.exists_mem_back (by decide) (by decide)
    have hnil := (h.semicolon (hsplit front ';' back)).eq_nil fun hc ↦ hfeed (by simp [hc])
    simp [hnil] at hmem
  · rintro front back rfl
    obtain ⟨last, hmem, hshape⟩ := hkey.exists_mem_back (by decide) (by decide)
    rcases h.opening (hsplit front '{' back) with hends | ⟨body, rest, hbody, hback⟩
    · have hnil := hends.eq_nil fun hc ↦ hfeed (by simp [hc])
      simp [hnil] at hmem
    · rcases append_eq_append_cons hback with ⟨mid, rfl, -⟩ | ⟨mid, rfl, -⟩
      · exact ⟨body, mid, hbody, rfl⟩
      · exact absurd hshape (not_or.2 (hshort hbody last (List.mem_append_left _ hmem)).2)
  · rintro front back rfl
    obtain ⟨first, rest, rfl, hshape⟩ := hkey.exists_front (by decide) (by decide)
    rcases h.closing (hsplit _ '}' back) with hstarts | ⟨start, body, hbody, hfront⟩
    · have hspace := hstarts.eq_space (fun hc ↦ hfeed (List.mem_append_left _ hc)) first
        List.mem_cons_self
      rw [hspace] at hshape
      exact absurd hshape (by decide)
    · rcases append_eq_append_cons hfront with ⟨mid, -, rfl⟩ | ⟨mid, -, hmid⟩
      · have hne := hshort hbody first (by simp)
        exact absurd hshape (not_or.2 ⟨hne.1, hne.2.2⟩)
      · exact ⟨mid, body, hbody, hmid⟩

/-! ### Loosened keys -/

/-- What becomes of the body of a group in a substitution: it is rewritten, or it stays. -/
def Becomes (Rewrites : List Char → List Char → Prop) (body new : List Char) : Prop :=
  Rewrites body new ∨ body = new ∧ '{' ∉ body ∧ '}' ∉ body ∧ ∀ out, ¬Rewrites body out

/-- Two texts that differ in the bodies of their groups only, which are related by `R`. -/
inductive Loosened (R : List Char → List Char → Prop) : List Char → List Char → Prop
  | smooth {key : List Char} (h : Smooth key) : Loosened R key key
  | group {front body gap key new : List Char} (hfront : Smooth front) (hgap : R body gap)
      (hkey : Loosened R key new) :
      Loosened R (front ++ '{' :: (body ++ '}' :: key)) (front ++ '{' :: (gap ++ '}' :: new))

namespace Loosened

variable {R S : List Char → List Char → Prop} {key new : List Char}

theorem eq_of_eq (h : Loosened Eq key new) : new = key := by
  induction h with
  | smooth => rfl
  | group _ hgap _ ih => rw [hgap, ih]

/-- The first character of a key is no character of a group. -/
theorem head?_eq (h : Loosened R key new) (hopen : key.head? ≠ some '{') :
    new.head? = key.head? := by
  cases h with
  | smooth => rfl
  | @group front =>
    rcases front with - | ⟨c, front⟩
    · exact absurd rfl hopen
    · rfl

/-- **A substitution takes up the groups of a text one after the other.** -/
theorem exists_substitute {matcher : List Char → Option (Nat × List Char)}
    {Rewrites : List Char → List Char → Prop} (hm : MatchesGroups matcher [] Rewrites)
    (hstep : ∀ body gap, R body gap → ∃ gap', S body gap' ∧ Becomes Rewrites gap gap')
    (h : Loosened R key new) :
    ∃ new', Loosened S key new' ∧
      ∀ rest, substitute matcher (new ++ rest) = new' ++ substitute matcher rest := by
  induction h with
  | @smooth key h =>
    exact ⟨key, .smooth h, hm.substitute_append_of_not_mem key fun hc ↦ (h _ hc).1 rfl⟩
  | @group front body gap key new hfront hgap _ ih =>
    obtain ⟨new', hnew, hrest⟩ := ih
    obtain ⟨gap', hgap', hrewrite⟩ := hstep body gap hgap
    refine ⟨front ++ '{' :: (gap' ++ '}' :: new'), .group hfront hgap' hnew, fun rest ↦ ?_⟩
    have hgroup : substitute matcher ('{' :: (gap ++ '}' :: (new ++ rest))) =
        '{' :: (gap' ++ '}' :: substitute matcher (new ++ rest)) := by
      rcases hrewrite with hrewrite | ⟨rfl, hopen, hclose, hnone⟩
      · exact hm.substitute_group hrewrite _
      · exact hm.substitute_group_of_not hopen hclose hnone _
    have hcopy := hm.substitute_append_of_not_mem front (fun hc ↦ (hfront _ hc).1 rfl)
      ('{' :: (gap ++ '}' :: (new ++ rest)))
    rw [hgroup, hrest] at hcopy
    simpa using hcopy

/-- A text whose first character no body has is substituted apart from what stands before it. -/
theorem exists_append_substitute {matcher : List Char → Option (Nat × List Char)}
    {Rewrites : List Char → List Char → Prop} (hm : MatchesGroups matcher [] Rewrites)
    (hstep : ∀ body gap, R body gap → ∃ gap', S body gap' ∧ Becomes Rewrites gap gap')
    (h : Loosened R key new) {first : Char} (hhead : key.head? = some first)
    (hbrace : first ≠ '{' ∧ first ≠ '}') (hfirst : ∀ body out, Rewrites body out → first ∉ body)
    (front back : List Char) :
    ∃ front' new' back', Loosened S key new' ∧
      substitute matcher (front ++ (new ++ back)) = front' ++ (new' ++ back') := by
  obtain ⟨new', hnew, hrest⟩ := h.exists_substitute hm hstep
  have hsame := h.head?_eq (by simpa [hhead] using hbrace.1)
  rw [hhead] at hsame
  obtain ⟨tail, rfl⟩ := List.head?_eq_some_iff.1 hsame
  refine ⟨substitute matcher front, new', substitute matcher back, hnew, ?_⟩
  rw [List.cons_append, hm.substitute_append_cons hbrace.2 hfirst, ← List.cons_append, hrest]

end Loosened

/-- What a short body becomes in a draft. -/
def Spreads (body gap : List Char) : Prop :=
  body = [] ∧ Blank gap ∨ Restates gap body

/-- What is left of it when empty braces are closed. -/
def Gathers (body gap : List Char) : Prop :=
  body = [] ∧ gap = [] ∨ Restates gap body

/-- What a short body became is gathered again when empty braces are closed. -/
theorem Spreads.exists_gathers {body gap : List Char} (h : Spreads body gap) :
    ∃ gap', Gathers body gap' ∧ Becomes (fun body new ↦ Blank body ∧ new = []) gap gap' := by
  rcases h with ⟨rfl, hblank⟩ | ⟨count, hnote, rfl⟩
  · exact ⟨[], .inl ⟨rfl, rfl⟩, .inl ⟨hblank, rfl⟩⟩
  · exact ⟨gap, .inr ⟨count, hnote, rfl⟩, .inr ⟨rfl, hnote.open_not_mem, hnote.close_not_mem,
      fun out hout ↦ hnote.not_blank hout.1⟩⟩

/-- And it is the body again when notes are restated. -/
theorem Gathers.exists_eq {body gap : List Char} (h : Gathers body gap) :
    ∃ gap', body = gap' ∧ Becomes Restates gap gap' := by
  rcases h with ⟨rfl, rfl⟩ | hrestates
  · refine ⟨[], rfl, .inr ⟨rfl, by simp, by simp, ?_⟩⟩
    rintro out ⟨count, hnote, -⟩
    exact hnote.not_blank blank_nil
  · exact ⟨body, rfl, .inl hrestates⟩

/-- **Closing braces gives a loosened key back.** -/
theorem Loosened.infix_closeBraces {key new : List Char} (h : Loosened Spreads key new)
    {first : Char} (hhead : key.head? = some first) (hfirst : first = '[' ∨ first = '"')
    {front back : List Char} (hplaceholder : ¬placeholderOpening <:+: front ++ (new ++ back)) :
    key <:+: closeBraces (front ++ (new ++ back)) := by
  have hbrace : first ≠ '{' ∧ first ≠ '}' := by
    rcases hfirst with rfl | rfl
    all_goals decide
  have hblank : ∀ body out : List Char, Blank body ∧ out = [] → first ∉ body := by
    rintro body out ⟨hbody, -⟩
    rcases hfirst with rfl | rfl
    all_goals exact hbody.not_mem (by decide)
  have hnote : ∀ body out, Restates body out → first ∉ body := by
    rintro body out ⟨count, hbody, -⟩
    rcases hfirst with rfl | rfl
    all_goals exact hbody.not_mem (by decide) (by decide) (by decide)
  obtain ⟨front', mid, back', hmid, hempty⟩ := h.exists_append_substitute (S := Gathers)
    matchesGroups_emptyBraces? (fun _ _ ↦ Spreads.exists_gathers) hhead hbrace hblank front back
  obtain ⟨front'', out, back'', hout, hexcess⟩ := hmid.exists_append_substitute (S := Eq)
    matchesGroups_excessBraces? (fun _ _ ↦ Gathers.exists_eq) hhead hbrace hnote front' back'
  rw [closeBraces_of_no_placeholder hplaceholder, hempty, hexcess, hout.eq_of_eq]
  exact ⟨front'', back'', List.append_assoc _ _ _⟩

/-! ### Compact keys in a draft -/

/-- A line up to an opening brace is whole. -/
theorem whole_concat_open {head : List Char} (hvisible : ∃ c rest, head = c :: rest ∧
    isBlank c = false) (hclose : '}' ∉ head.tail) (hinner : ∀ c ∈ head, c ≠ '{' ∧ c ≠ ';')
    (hfeed : '\n' ∉ head) : Whole (head ++ ['{']) := by
  obtain ⟨c, rest, rfl, hc⟩ := hvisible
  exact {
    close := by simpa using hclose
    inner := by rwa [List.dropLast_concat]
    newline := by simpa using hfeed
    ne_nil := by simp
    trimmed := by
      refine trim_eq_self (fun d hd ↦ ?_) fun d hd ↦ ?_
      · obtain rfl : c = d := by simpa using hd
        exact hc
      · rw [List.getLast?_concat, Option.mem_some_iff] at hd
        rw [← hd]
        decide }

/-- A line that starts with a closing brace is no member. -/
theorem sugar_cons_close (cs : List Char) : sugar ('}' :: cs) = '}' :: cs := by
  have hread : Member.read? ('}' :: cs) = none := rfl
  rw [sugar, hread]

/-- The lines of a short body are no members. -/
theorem IsShort.map_sugar {body : List Char} (h : IsShort body) :
    (memberLines body).map sugar = memberLines body := by
  refine (List.map_congr_left fun line hline ↦ ?_).trans (List.map_id _)
  exact sugar_of_not_mem fun hc ↦
    h.not_mem (by decide) (by decide) (mem_of_mem_memberLines hline hc)

/-- **A short group in a draft.** What stands before it on its line is kept, if it is no member, and
its body is spread over the lines between the braces. -/
theorem exists_draft_short (width : Nat) {head body rest : List Char}
    (hhead : Whole (head ++ ['{'])) (hsugar : sugar (head ++ ['{']) = head ++ ['{'])
    (hbody : IsShort body) {P : List Char → Prop}
    (hrest : ∀ depth, ∃ n behind, P behind ∧
      draft width depth ((memberLines ('}' :: rest)).map sugar) =
        List.replicate n ' ' ++ '}' :: behind) (depth : Nat) :
    ∃ n gap behind, Spreads body gap ∧ P behind ∧
      draft width depth ((memberLines (head ++ '{' :: (body ++ '}' :: rest))).map sugar) =
        List.replicate n ' ' ++ (head ++ '{' :: (gap ++ '}' :: behind)) := by
  obtain ⟨line, lines, hlines⟩ := memberLines_cons_close rest
  have hne : (memberLines ('}' :: rest)).map sugar ≠ [] := by simp [hlines]
  rw [memberLines_group, memberLines_of_whole hhead, List.map_append, List.map_append,
    List.map_cons, List.map_nil, hsugar, hbody.map_sugar, List.append_assoc, List.singleton_append,
    draft_cons, if_neg (by simp [hlines])]
  obtain ⟨n, behind, hP, hdraft⟩ := hrest (nextDepth depth (head ++ ['{']))
  have hfeed : Blank ['\n'] := by decide
  have hback : Blank (['\n'] ++ List.replicate n ' ') := hfeed.append (blank_replicate_space n)
  rcases hbody with rfl | ⟨count, hcount, hdigits, rfl⟩
  · refine ⟨width * ownDepth depth (head ++ ['{']), ['\n'] ++ List.replicate n ' ', behind,
      .inl ⟨rfl, hback⟩, hP, ?_⟩
    rw [memberLines_of_blank blank_nil, List.nil_append, hdraft]
    simp
  · have hnote := IsNote.written hcount hdigits
    refine ⟨width * ownDepth depth (head ++ ['{']), _, behind,
      .inr ⟨count, hnote.draft width (nextDepth depth (head ++ ['{'])) hfeed hback, rfl⟩, hP, ?_⟩
    rw [draft_append _ _ hnote.memberLines_ne_nil hne, hnote.foldl_nextDepth, hdraft]
    simp

/-- **A compact key in a draft** is loosened where it follows a closing brace. -/
theorem Compact.exists_draft (width : Nat) {key : List Char} (h : Compact key) (hfeed : '\n' ∉ key)
    {d : Char} (hd : isBlank d = false) (hclose : d ≠ '}') (tail : List Char) (depth : Nat) :
    ∃ n behind, (∃ new back, Loosened Spreads key new ∧ behind = new ++ back) ∧
      draft width depth ((memberLines ('}' :: (key ++ d :: tail))).map sugar) =
        List.replicate n ' ' ++ '}' :: behind := by
  induction h generalizing depth with
  | @smooth key h =>
    obtain ⟨line, below, hlines⟩ := exists_memberLines_cons (by decide : isBlank '}' = false)
      (by decide) h hfeed hd hclose tail
    rw [hlines, List.map_cons, sugar_cons_close, draft_cons]
    exact ⟨_, _, ⟨key, _, .smooth h, List.append_assoc _ _ _⟩, rfl⟩
  | @group front body key hfront hbody _ ih =>
    have hwhole : Whole (('}' :: front) ++ ['{']) := by
      refine whole_concat_open ⟨'}', front, rfl, by decide⟩ (fun hc ↦ (hfront _ hc).2.1 rfl) ?_ ?_
      · exact List.forall_mem_cons.2 ⟨by decide, fun c hc ↦ ⟨(hfront c hc).1, (hfront c hc).2.2⟩⟩
      · exact fun hc ↦
          hfeed (List.mem_append_left _ ((List.mem_cons.1 hc).resolve_left (by decide)))
    have hrest : '\n' ∉ key := fun hc ↦ hfeed (by simp [hc])
    obtain ⟨n, gap, behind, hgap, ⟨new, back, hnew, rfl⟩, hdraft⟩ :=
      exists_draft_short width hwhole (sugar_cons_close _) hbody (ih hrest) depth
    refine ⟨n, _, ⟨_, back, .group hfront hgap hnew, rfl⟩, ?_⟩
    simpa using hdraft

/-- The draft of the last lines ends the draft of all. -/
theorem exists_draft_append (width depth : Nat) (xs ys : List (List Char)) :
    ∃ front depth', draft width depth (xs ++ ys) = front ++ draft width depth' ys := by
  rcases eq_or_ne xs [] with rfl | hx
  · exact ⟨[], depth, rfl⟩
  rcases eq_or_ne ys [] with rfl | hy
  · exact ⟨draft width depth xs, depth, by simp [draft, nest, joinAll]⟩
  · refine ⟨draft width depth xs ++ ['\n'], xs.foldl nextDepth depth, ?_⟩
    rw [draft_append width depth hx hy, List.append_assoc, List.singleton_append]

/-! ### Declared keys -/

namespace Declares

variable {key cs : List Char}

/-- A declared key that starts with a short group is loosened in the draft. -/
theorem exists_draft_group {front body : List Char}
    (h : Declares (front ++ '{' :: (body ++ '}' :: key)) cs)
    (hkey : Spelling (front ++ '{' :: (body ++ '}' :: key)))
    (hfeed : '\n' ∉ front ++ '{' :: (body ++ '}' :: key)) (hfront : Smooth front)
    (hbody : IsShort body) (hrest : Compact key) (width : Nat) :
    ∃ above new back, Loosened Spreads (front ++ '{' :: (body ++ '}' :: key)) new ∧
      draft width 0 ((memberLines cs).map sugar) = above ++ (new ++ back) := by
  obtain @⟨before, modifier, mark, rest, start, hstart, hmodifier, hmark⟩ := h
  obtain ⟨d, tail, htail, hd, hclose⟩ : ∃ d tail, mark ++ ':' :: rest = d :: tail ∧
      isBlank d = false ∧ d ≠ '}' := by
    rcases hmark with rfl | rfl
    · exact ⟨':', rest, rfl, by decide⟩
    · exact ⟨'?', ':' :: rest, rfl, by decide⟩
  -- Up to the brace the declaration is one line. It is cut off inside its key, so it is not
  -- sugared.
  have hwhole : Whole ((modifier ++ front) ++ ['{']) := by
    obtain ⟨hreadonly, hreadonly'⟩ := smooth_modifier hmodifier
    obtain ⟨c, front, rfl, hc⟩ := hkey.exists_front (by decide) (by decide)
    have hsmooth : Smooth (modifier ++ c :: front) :=
      List.forall_mem_append.2 ⟨hreadonly, hfront⟩
    refine whole_concat_open ?_ (fun hc ↦ (hsmooth _ (List.mem_of_mem_tail hc)).2.1 rfl)
      (fun c hc ↦ ⟨(hsmooth c hc).1, (hsmooth c hc).2.2⟩) fun hc ↦ ?_
    · rcases hmodifier with rfl | rfl
      · rcases hc with rfl | rfl
        · exact ⟨'[', front, rfl, by decide⟩
        · exact ⟨'"', front, rfl, by decide⟩
      · exact ⟨'r', _, rfl, by decide⟩
    · exact (List.mem_append.1 hc).elim hreadonly' fun hc ↦ hfeed (List.mem_append_left _ hc)
  have hsugar : sugar ((modifier ++ front) ++ ['{']) = (modifier ++ front) ++ ['{'] := by
    rw [List.append_assoc]
    exact sugar_unclosed hkey hmodifier
  -- The lines above take the draft to some depth, at which the group follows.
  obtain ⟨above, depth, habove⟩ := exists_draft_append width 0
    ((memberLines (before ++ [start])).map sugar)
    ((memberLines ((modifier ++ front) ++ '{' :: (body ++ '}' :: (key ++ d :: tail)))).map sugar)
  obtain ⟨n, gap, behind, hgap, ⟨new, back, hnew, rfl⟩, hdraft⟩ :=
    exists_draft_short width hwhole hsugar hbody
      (hrest.exists_draft width (fun hc ↦ hfeed (by simp [hc])) hd hclose tail) depth
  refine ⟨above ++ (List.replicate n ' ' ++ modifier), front ++ '{' :: (gap ++ '}' :: new), back,
    .group hfront hgap hnew, ?_⟩
  rw [hdraft] at habove
  rw [memberLines_declaration hstart, htail, List.map_append]
  simpa using habove

/-- **A compact key that is declared is found in the layout** of a text without placeholders and
imports. -/
theorem infix_reflow_of_compact (h : Declares key cs) (hkey : Spelling key) (hfeed : '\n' ∉ key)
    (hplaceholder : ¬placeholderOpening <:+: cs) (himport : ¬importOpening <:+: cs)
    (hcompact : Compact key) (width : Nat) : key <:+: reflow width cs := by
  cases hcompact with
  | smooth hplain => exact h.infix_reflow hkey hplain hfeed (.inr himport) width
  | group hfront hbody hrest =>
    obtain ⟨above, new, back, hnew, hdraft⟩ :=
      h.exists_draft_group hkey hfeed hfront hbody hrest width
    obtain ⟨first, -, hhead, -, hfirst, -⟩ :=
      hkey.enclosed (by simp) (by decide : isNameChar '{' = false)
    have hvisible : isBlank '{' = false := by decide
    rw [reflow_of_no_import width himport, infix_dropBlankLines_iff hfeed ⟨'{', by simp, hvisible⟩,
      hdraft]
    refine hnew.infix_closeBraces hhead hfirst ?_
    rw [← hdraft]
    exact mt rigid_placeholderOpening.infix_of_draft hplaceholder

/-- **A declared key is found in the layout exactly if it is compact**, in a text without
placeholders and imports. -/
theorem infix_reflow_iff (h : Declares key cs) (hkey : Spelling key) (hfeed : '\n' ∉ key)
    (hplaceholder : ¬placeholderOpening <:+: cs) (himport : ¬importOpening <:+: cs) (width : Nat) :
    key <:+: reflow width cs ↔ Compact key := by
  constructor
  · intro hword
    obtain ⟨c, rest, hcons, hc⟩ := hkey.exists_cons
    rw [reflow_of_no_import width himport,
      infix_dropBlankLines_iff hfeed ⟨c, by simp [hcons], hc⟩] at hword
    exact (tidy_closeBraces_draft width hplaceholder).compact hkey hfeed hword
  · exact fun hcompact ↦
      h.infix_reflow_of_compact hkey hfeed hplaceholder himport hcompact width

end Declares

end TypeLens.Layout
