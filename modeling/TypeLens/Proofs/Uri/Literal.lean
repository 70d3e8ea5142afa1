import Mathlib.Data.List.TakeWhile
import TypeLens.Path
import TypeLens.Proofs.Text.Infix
import TypeLens.Uri

/-!
# Paths that survive in a URI

The URI of a path is the path behind the scheme, with no character escaped. Read back, it loses its
tabs and line ends and all from the first question mark or number sign on, and its escapes are
decoded. So it gives the path back exactly if none of this can happen to the path, if the path is
*literal* (`toPath_ofPath_iff`).

None of the steps makes a text longer, and each one shortens a text that it changes. So the lengths
alone tell that no step undoes what an earlier one did.
-/

namespace TypeLens.Uri

open Text

/-! ### Bytes -/

/-- The number of characters that are begun and not completed. -/
def begun (state : Option Partial) : Nat :=
  if state.isSome then 1 else 0

theorem length_beginChar_le (b : Nat) : (beginChar b).1.length + begun (beginChar b).2 ≤ 1 := by
  unfold beginChar
  split
  · simp [begun]
  · split <;> simp [begun]

/-- A byte adds at most one character, or begins one. -/
theorem length_readByte_le (state : Option Partial) (b : Nat) :
    (readByte state b).1.length + begun (readByte state b).2 ≤ 1 + begun state := by
  have hbegin := length_beginChar_le b
  cases state with
  | none => exact hbegin.trans (Nat.le_add_right 1 _)
  | some p =>
    simp only [readByte]
    split
    · split <;> simp [begun]
    · show (replacement :: (beginChar b).1).length + begun (beginChar b).2 ≤ 2
      rw [List.length_cons]
      omega

/-- There are no more characters than bytes. -/
theorem length_decodeFrom_le (state : Option Partial) (bytes : List Nat) :
    (decodeFrom state bytes).length ≤ bytes.length + begun state := by
  induction bytes generalizing state with
  | nil => cases state <;> simp [decodeFrom, begun]
  | cons b bytes ih =>
    have hread := length_readByte_le state b
    have hrest := ih (readByte state b).2
    rw [decodeFrom, List.length_append, List.length_cons]
    omega

theorem length_decodeLossy_le (bytes : List Nat) : (decodeLossy bytes).length ≤ bytes.length :=
  length_decodeFrom_le none bytes

/-- An ASCII byte is decoded on its own. -/
theorem decodeLossy_cons {c : Char} (h : isAscii c = true) (bytes : List Nat) :
    decodeLossy (c.toNat :: bytes) = c :: decodeLossy bytes := by
  have hbegin : beginChar c.toNat = ([c], none) := by
    rw [beginChar, if_pos (by simpa [isAscii] using h), Char.ofNat_toNat]
  rw [decodeLossy, decodeFrom, readByte, hbegin]
  rfl

/-- The bytes of ASCII characters are read as these characters. -/
theorem decodeLossy_map_toNat {cs : List Char} (h : ∀ c ∈ cs, isAscii c = true) :
    decodeLossy (cs.map Char.toNat) = cs := by
  induction cs with
  | nil => rfl
  | cons c cs ih =>
    obtain ⟨hc, hcs⟩ := List.forall_mem_cons.1 h
    rw [List.map_cons, decodeLossy_cons hc, ih hcs]

/-! ### Escapes -/

/-- A text has an escape: a percent sign with two hexadecimal digits behind it. -/
def HasEscape (cs : List Char) : Prop :=
  ∃ a b, (Json.hexDigit? a).isSome ∧ (Json.hexDigit? b).isSome ∧ ['%', a, b] <:+: cs

theorem HasEscape.mono {xs ys : List Char} (h : HasEscape xs) (hxs : xs <:+: ys) :
    HasEscape ys := by
  obtain ⟨a, b, ha, hb, hescape⟩ := h
  exact ⟨a, b, ha, hb, hescape.trans hxs⟩

theorem isAscii_of_le {c d : Char} (h : c ≤ d) (hd : d.toNat < 128) : isAscii c = true :=
  decide_eq_true (lt_of_le_of_lt (Char.le_def.1 h) hd)

/-- Hexadecimal digits are ASCII. -/
theorem isAscii_of_hexDigit? {c : Char} (h : (Json.hexDigit? c).isSome) : isAscii c = true := by
  unfold Json.hexDigit? at h
  split at h
  · next hc => exact isAscii_of_le hc.2 (by decide)
  · split at h
    · next hc => exact isAscii_of_le hc.2 (by decide)
    · split at h
      · next hc => exact isAscii_of_le hc.2 (by decide)
      · cases h

/-- An escape lies on one side of a character that is not ASCII. -/
theorem hasEscape_append_cons_iff {xs ys : List Char} {c : Char} (hc : isAscii c = false) :
    HasEscape (xs ++ c :: ys) ↔ HasEscape xs ∨ HasEscape ys := by
  have hne : ∀ {d : Char}, isAscii d = true → c ≠ d := by
    rintro d hd rfl
    rw [hc] at hd
    cases hd
  constructor
  · rintro ⟨a, b, ha, hb, hescape⟩
    have hnot : c ∉ ['%', a, b] := by
      simp [hne (isAscii_of_hexDigit? ha), hne (isAscii_of_hexDigit? hb),
        hne (show isAscii '%' = true by decide)]
    exact ((infix_append_cons_iff hnot).1 hescape).imp (fun h ↦ ⟨a, b, ha, hb, h⟩)
      fun h ↦ ⟨a, b, ha, hb, h⟩
  · rintro (h | h)
    · exact h.mono (List.infix_append_of_infix_left List.infix_rfl)
    · exact h.mono (List.infix_append_of_infix_right (List.infix_cons List.infix_rfl))

/-- A text has an escape at its start or behind it. -/
theorem hasEscape_cons_iff {c : Char} {cs : List Char} :
    HasEscape (c :: cs) ↔ (∃ a b rest, c = '%' ∧ (Json.hexDigit? a).isSome ∧
      (Json.hexDigit? b).isSome ∧ cs = a :: b :: rest) ∨ HasEscape cs := by
  constructor
  · rintro ⟨a, b, ha, hb, hescape⟩
    rcases List.infix_cons_iff.1 hescape with hprefix | hescape
    · obtain ⟨rest, hrest⟩ := hprefix
      obtain ⟨rfl, rfl⟩ := List.cons_eq_cons.1 hrest
      exact .inl ⟨a, b, rest, rfl, ha, hb, rfl⟩
    · exact .inr ⟨a, b, ha, hb, hescape⟩
  · rintro (⟨a, b, rest, rfl, ha, hb, rfl⟩ | h)
    · exact ⟨a, b, ha, hb, ⟨[], rest, rfl⟩⟩
    · exact h.mono (List.infix_cons List.infix_rfl)

/-- Unescaping changes exactly the texts with an escape, and makes them shorter. -/
theorem unescape_spec (cs : List Char) :
    (HasEscape cs → (unescape cs).length < cs.length) ∧
      (¬HasEscape cs → unescape cs = cs.map Char.toNat) := by
  have hle : ∀ {ds : List Char}, ((HasEscape ds → (unescape ds).length < ds.length) ∧
      (¬HasEscape ds → unescape ds = ds.map Char.toNat)) → (unescape ds).length ≤ ds.length := by
    rintro ds ⟨hlt, heq⟩
    by_cases h : HasEscape ds
    · exact (hlt h).le
    · simp [heq h]
  -- Only an escape makes the text shorter. In front of anything else, the escapes are those of the
  -- rest.
  induction cs using unescape.induct with
  | case1 => exact ⟨fun ⟨a, b, _, _, h⟩ ↦ by simp at h, fun _ ↦ rfl⟩
  | case2 a b cs x y hy hx ih =>
    have hescape : HasEscape ('%' :: a :: b :: cs) :=
      ⟨a, b, by simp [hx], by simp [hy], [], cs, rfl⟩
    refine ⟨fun _ ↦ ?_, fun h ↦ absurd hescape h⟩
    have := hle ih
    simp only [unescape, hx, hy, List.length_cons]
    omega
  | case3 a b cs hnot ih =>
    have hiff : HasEscape ('%' :: a :: b :: cs) ↔ HasEscape (a :: b :: cs) := by
      rw [hasEscape_cons_iff, or_iff_right]
      rintro ⟨_, _, rest, -, ha, hb, ⟨⟩⟩
      obtain ⟨x, hx⟩ := Option.isSome_iff_exists.1 ha
      obtain ⟨y, hy⟩ := Option.isSome_iff_exists.1 hb
      exact hnot x y hx hy
    have hun : unescape ('%' :: a :: b :: cs) = '%'.toNat :: unescape (a :: b :: cs) := by
      rw [unescape]
      split
      · next x y hx hy => exact absurd hy (hnot x y hx)
      · rfl
    rw [hiff, hun, List.length_cons, List.length_cons, Nat.succ_lt_succ_iff, List.map_cons,
      List.cons.injEq]
    exact ⟨ih.1, fun h ↦ ⟨rfl, ih.2 h⟩⟩
  | case4 c cs hnot ih =>
    have hiff : HasEscape (c :: cs) ↔ HasEscape cs := by
      rw [hasEscape_cons_iff, or_iff_right]
      rintro ⟨a, b, rest, hc, -, -, heq⟩
      exact hnot a b rest hc heq
    rw [hiff, unescape.eq_3 _ _ hnot, List.length_cons, List.length_cons, Nat.succ_lt_succ_iff,
      List.map_cons, List.cons.injEq]
    exact ⟨ih.1, fun h ↦ ⟨rfl, ih.2 h⟩⟩

/-! ### Runs -/

/-- A run of ASCII is collected before it is decoded. -/
theorem decodeRuns_append {xs : List Char} (h : ∀ c ∈ xs, isAscii c = true)
    (run cs : List Char) : decodeRuns run (xs ++ cs) = decodeRuns (xs.reverse ++ run) cs := by
  induction xs generalizing run with
  | nil => rfl
  | cons c xs ih =>
    obtain ⟨hc, hxs⟩ := List.forall_mem_cons.1 h
    rw [List.cons_append, decodeRuns, if_pos hc, ih hxs]
    simp

/-- A text that is all ASCII is decoded in one run. -/
theorem percentDecode_run {xs : List Char} (h : ∀ c ∈ xs, isAscii c = true) :
    percentDecode xs = decodeLossy (unescape xs) := by
  have hruns := decodeRuns_append h [] []
  rw [List.append_nil] at hruns
  rw [percentDecode, hruns, decodeRuns]
  simp

/-- A character that is not ASCII stays, and a run of ASCII characters ends before it. -/
theorem percentDecode_run_append_cons {xs : List Char} (h : ∀ c ∈ xs, isAscii c = true) {c : Char}
    (hc : isAscii c = false) (cs : List Char) :
    percentDecode (xs ++ c :: cs) = decodeLossy (unescape xs) ++ c :: percentDecode cs := by
  rw [percentDecode, decodeRuns_append h, decodeRuns, if_neg (by simp [hc])]
  simp [percentDecode]

/-- **Induction along the runs of a text.** -/
theorem runs_induction {motive : List Char → Prop}
    (last : ∀ run, (∀ c ∈ run, isAscii c = true) → motive run)
    (cons : ∀ run c rest, (∀ c ∈ run, isAscii c = true) → isAscii c = false → motive rest →
      motive (run ++ c :: rest))
    (cs : List Char) : motive cs := by
  obtain ⟨n, hn⟩ : ∃ n, cs.length = n := ⟨_, rfl⟩
  induction n using Nat.strongRecOn generalizing cs with
  | ind n ih =>
    have hrun : ∀ c ∈ cs.takeWhile isAscii, isAscii c = true := fun c ↦ List.mem_takeWhile_imp
    rcases hdrop : cs.dropWhile isAscii with - | ⟨c, rest⟩
    · rw [← List.takeWhile_append_dropWhile (p := isAscii) (l := cs), hdrop, List.append_nil]
      exact last _ hrun
    · have hc : isAscii c = false := by
        have hhead := List.head?_dropWhile_not isAscii cs
        rw [hdrop] at hhead
        simpa using hhead
      have hcs : cs = cs.takeWhile isAscii ++ c :: rest := by
        rw [← hdrop, List.takeWhile_append_dropWhile]
      rw [hcs]
      refine cons _ c rest hrun hc (ih rest.length ?_ rest rfl)
      rw [← hn, hcs, List.length_append, List.length_cons]
      omega

/-- A character that begins no escape stays. -/
theorem percentDecode_cons {c : Char} (hc : isAscii c = true) (hpercent : c ≠ '%')
    (cs : List Char) : percentDecode (c :: cs) = c :: percentDecode cs := by
  have hunescape : ∀ run, decodeLossy (unescape (c :: run)) = c :: decodeLossy (unescape run) := by
    intro run
    rw [unescape.eq_3 _ _ fun _ _ _ h _ ↦ hpercent h, decodeLossy_cons hc]
  induction cs using runs_induction with
  | last run hrun =>
    rw [percentDecode_run (List.forall_mem_cons.2 ⟨hc, hrun⟩), percentDecode_run hrun,
      hunescape]
  | cons run d rest hrun hd =>
    rw [← List.cons_append, percentDecode_run_append_cons (List.forall_mem_cons.2 ⟨hc, hrun⟩) hd,
      percentDecode_run_append_cons hrun hd, hunescape, List.cons_append]

/-- Decoding changes exactly the texts with an escape, and makes them shorter. -/
theorem percentDecode_spec (cs : List Char) :
    (HasEscape cs → (percentDecode cs).length < cs.length) ∧
      (¬HasEscape cs → percentDecode cs = cs) := by
  have hle : ∀ run : List Char, (decodeLossy (unescape run)).length ≤ (unescape run).length :=
    fun run ↦ length_decodeLossy_le _
  -- A run of ASCII is decoded on its own, and the character that ends it is copied.
  induction cs using runs_induction with
  | last run hrun =>
    obtain ⟨hlt, heq⟩ := unescape_spec run
    rw [percentDecode_run hrun]
    refine ⟨fun h ↦ (hle run).trans_lt (hlt h), fun h ↦ ?_⟩
    rw [heq h, decodeLossy_map_toNat hrun]
  | cons run c rest hrun hc ih =>
    obtain ⟨hlt, heq⟩ := unescape_spec run
    rw [percentDecode_run_append_cons hrun hc, hasEscape_append_cons_iff hc]
    refine ⟨fun h ↦ ?_, fun h ↦ ?_⟩
    · simp only [List.length_append, List.length_cons]
      have hrunLe : (unescape run).length ≤ run.length := by
        by_cases hescape : HasEscape run
        · exact (hlt hescape).le
        · simp [heq hescape]
      have hrestLe : (percentDecode rest).length ≤ rest.length := by
        by_cases hescape : HasEscape rest
        · exact (ih.1 hescape).le
        · rw [ih.2 hescape]
      have hrunDecoded := hle run
      rcases h with h | h
      · have := hlt h
        omega
      · have := ih.1 h
        omega
    · obtain ⟨hnot, hnotRest⟩ := not_or.1 h
      rw [heq hnot, decodeLossy_map_toNat hrun, ih.2 hnotRest]

theorem length_percentDecode_le (cs : List Char) : (percentDecode cs).length ≤ cs.length := by
  by_cases h : HasEscape cs
  · exact ((percentDecode_spec cs).1 h).le
  · rw [(percentDecode_spec cs).2 h]

/-- A text is left alone exactly if it has no escape. -/
theorem percentDecode_eq_self_iff {cs : List Char} : percentDecode cs = cs ↔ ¬HasEscape cs := by
  refine ⟨fun heq h ↦ ?_, (percentDecode_spec cs).2⟩
  have hlt := (percentDecode_spec cs).1 h
  rw [heq] at hlt
  exact lt_irrefl _ hlt

/-! ### Paths -/

/-- The characters that do not count in a URI. -/
def dropped : List Char := ['\t', '\n', '\r']

/-- The characters that end the path of a URI. -/
def enders : List Char := ['#', '?']

/-- A text that a URI has no other meaning for. -/
structure Literal (cs : List Char) : Prop where
  /-- All characters count. -/
  kept : ∀ c ∈ cs, c ∉ dropped
  /-- No character ends a path. -/
  inner : ∀ c ∈ cs, c ∉ enders
  /-- Nothing is escaped. -/
  plain : ¬HasEscape cs

/-- What the path of a URI is read as. -/
def readBack (cs : List Char) : List Char :=
  percentDecode ((cs.filter (· ∉ dropped)).takeWhile (· ∉ enders))

section

variable {cs : List Char}

theorem readBack_of_literal (h : Literal cs) : readBack cs = cs := by
  rw [readBack, List.filter_eq_self.2 (by simpa using h.kept),
    List.takeWhile_eq_self_iff.2 (by simpa using h.inner), percentDecode_eq_self_iff.2 h.plain]

/-- A text that does not become shorter is literal. -/
theorem literal_of_length_le (h : cs.length ≤ (readBack cs).length) : Literal cs := by
  have hfilter := List.length_filter_le (· ∉ dropped) cs
  have htake := (List.takeWhile_prefix (· ∉ enders) (l := cs.filter (· ∉ dropped))).length_le
  have hdecode := length_percentDecode_le ((cs.filter (· ∉ dropped)).takeWhile (· ∉ enders))
  rw [readBack] at h
  have hkept : cs.filter (· ∉ dropped) = cs := List.filter_sublist.eq_of_length (by omega)
  rw [hkept] at h htake hdecode
  have hinner : cs.takeWhile (· ∉ enders) = cs :=
    (List.takeWhile_prefix _).eq_of_length (by omega)
  rw [hinner] at h
  exact ⟨by simpa using List.filter_eq_self.1 hkept,
    by simpa using List.takeWhile_eq_self_iff.1 hinner,
    fun hescape ↦ h.not_gt ((percentDecode_spec cs).1 hescape)⟩

/-- A text is literal exactly if it is read back as it is. -/
theorem readBack_eq_self_iff : readBack cs = cs ↔ Literal cs :=
  ⟨fun heq ↦ literal_of_length_le (congrArg List.length heq).ge, readBack_of_literal⟩

instance : DecidablePred Literal := fun _ ↦ decidable_of_iff _ readBack_eq_self_iff

theorem head?_readBack (h : cs.head? = some '/') : (readBack cs).head? = some '/' := by
  obtain ⟨rest, rfl⟩ := List.head?_eq_some_iff.1 h
  rw [readBack, List.filter_cons_of_pos (by decide), List.takeWhile_cons_of_pos (by decide),
    percentDecode_cons (by decide) (by decide)]
  rfl

end

/-- What the URI of an absolute path is read as. -/
theorem toPath_ofPath {path : String} (h : Path.isAbsolute path = true) :
    toPath (ofPath path) = .ok (.ofList (readBack path.toList)) := by
  obtain ⟨cs, hcs⟩ : ∃ cs, path.toList = '/' :: cs :=
    List.head?_eq_some_iff.1 (by simpa [Path.isAbsolute] using h)
  have hafter : after? fileScheme (ofPath path).toList = some path.toList := by
    rw [ofPath, String.toList_append, String.toList_ofList, after?_append]
  have hfilter : path.toList.filter (fun c ↦ c != '\t' && c != '\n' && c != '\r') =
      path.toList.filter (· ∉ dropped) := by
    refine List.filter_congr fun c _ ↦ ?_
    simp [dropped, bne, Bool.beq_eq_decide_eq, Bool.and_assoc]
  have hrest : path.toList.filter (· ∉ dropped) = '/' :: cs.filter (· ∉ dropped) := by
    rw [hcs, List.filter_cons, if_pos (by decide)]
  -- The authority ends at the first slash, where the path begins, so it is empty.
  have hauthority : ∀ cs : List Char, ('/' :: cs).takeWhile (fun c ↦ !endsAuthority c) = [] ∧
      ('/' :: cs).dropWhile (fun c ↦ !endsAuthority c) = '/' :: cs :=
    fun cs ↦ ⟨rfl, rfl⟩
  have hpart : pathPart (path.toList.filter (· ∉ dropped)) =
      (path.toList.filter (· ∉ dropped)).takeWhile (· ∉ enders) := by
    rw [pathPart, hrest, (hauthority _).2]
    congr 1
    funext c
    simp [enders, bne, Bool.beq_eq_decide_eq]
  rw [toPath, hafter]
  simp only [hfilter, hpart]
  rw [hrest, (hauthority _).1, ← hrest]
  rfl

/-- **A URI gives back exactly the literal paths.** -/
theorem toPath_ofPath_iff {path : String} (h : Path.isAbsolute path = true) :
    toPath (ofPath path) = .ok path ↔ Literal path.toList := by
  rw [toPath_ofPath h, Except.ok.injEq, ← String.toList_inj, String.toList_ofList,
    readBack_eq_self_iff]

example : Literal "/pkg/a b%.ts".toList ∧ ¬Literal "/pkg/a%20b.ts".toList := by
  decide +kernel

end TypeLens.Uri
