import TypeLens.Proofs.Text.Utf8
import TypeLens.Proofs.Uri.Literal

/-!
# Escaped paths

A client that names a file by a URI escapes the bytes of its path: letters, digits, `-`, `.`, `_`,
`~` and slashes stay as they are, and every other byte is written as a percent sign and two
hexadecimal digits, in either case (`Escapes`). **Such a URI gives the path back**
(`toPath_escaped`).

Nothing that has a meaning of its own in a URI is left in an escaped path, so the whole text behind
the scheme is read as the path. It is one run of ASCII characters, so the bytes of a character are
decoded together however they were written, and as they are the bytes of a text, none of them is
replaced.
-/

namespace TypeLens.Uri

open Text

/-- Whether a character stands for itself in an escaped path. -/
def isUnreserved (c : Char) : Bool :=
  c.isAlphanum || ['-', '.', '_', '~', '/'].contains c

/-- A text is the escaped form of bytes. -/
inductive Escapes : List UInt8 → List Char → Prop
  /-- No bytes. -/
  | nil : Escapes [] []
  /-- A byte that stands for itself. -/
  | plain {b : UInt8} {bytes : List UInt8} {cs : List Char} :
      isUnreserved (.ofNat b.toNat) = true → Escapes bytes cs →
      Escapes (b :: bytes) (.ofNat b.toNat :: cs)
  /-- A byte that is escaped, by any hexadecimal digits that have its value. -/
  | escaped {b : UInt8} {bytes : List UInt8} {x y : Char} {cs : List Char} :
      isUnreserved (.ofNat b.toNat) = false → Json.hexDigit? x = some (b.toNat / 16) →
      Json.hexDigit? y = some (b.toNat % 16) → Escapes bytes cs →
      Escapes (b :: bytes) ('%' :: x :: y :: cs)

/-- All bytes can be escaped. -/
theorem exists_escapes (bytes : List UInt8) : ∃ cs, Escapes bytes cs := by
  have hdigit : ∀ n < 16, Json.hexDigit? (Nat.digitChar n) = some n := by decide
  induction bytes with
  | nil => exact ⟨[], .nil⟩
  | cons b bytes ih =>
    obtain ⟨cs, hcs⟩ := ih
    have hb := b.toNat_lt
    cases h : isUnreserved (.ofNat b.toNat) with
    | true => exact ⟨_, .plain h hcs⟩
    | false => exact ⟨_, .escaped h (hdigit _ (by omega)) (hdigit _ (by omega)) hcs⟩

/-! ### Characters of an escaped text -/

/-- A character that has no meaning of its own in a URI. -/
def IsInner (c : Char) : Prop :=
  isAscii c = true ∧ c ∉ dropped ∧ c ∉ enders

/-- What needs no escape is ASCII. -/
theorem isAscii_of_isUnreserved {c : Char} (h : isUnreserved c = true) : isAscii c = true := by
  rcases Bool.or_eq_true_iff.1 h with hname | hmark
  · rcases Bool.or_eq_true_iff.1 hname with hletter | hdigit
    · rcases Bool.or_eq_true_iff.1 hletter with hupper | hlower
      · exact isAscii_of_le (d := 'Z') (of_decide_eq_true hupper).2 (by decide)
      · exact isAscii_of_le (d := 'z') (of_decide_eq_true (Bool.and_eq_true_iff.1 hlower).2)
          (by decide)
    · exact isAscii_of_le (d := '9') (of_decide_eq_true (Bool.and_eq_true_iff.1 hdigit).2)
        (by decide)
  · have hmarks : ∀ d ∈ ['-', '.', '_', '~', '/'], isAscii d = true := List.all_eq_true.1 rfl
    exact hmarks c (List.contains_iff_mem.1 hmark)

/-- What holds of no character with a meaning of its own tells that a character is inner. -/
theorem isInner_of_all {p : Char → Bool} (hp : (dropped ++ enders).all (fun d ↦ !p d) = true)
    {c : Char} (hascii : isAscii c = true) (h : p c = true) : IsInner c := by
  have hnone : c ∉ dropped ++ enders := by
    intro hc
    have hnot := List.all_eq_true.1 hp c hc
    rw [h] at hnot
    exact absurd hnot (by decide)
  exact ⟨hascii, fun hc ↦ hnone (List.mem_append_left _ hc),
    fun hc ↦ hnone (List.mem_append_right _ hc)⟩

theorem isInner_of_isUnreserved {c : Char} (h : isUnreserved c = true) : IsInner c :=
  isInner_of_all rfl (isAscii_of_isUnreserved h) h

theorem isInner_of_hexDigit? {c : Char} {n : Nat} (h : Json.hexDigit? c = some n) : IsInner c := by
  have hsome : (Json.hexDigit? c).isSome = true := by rw [h, Option.isSome_some]
  exact isInner_of_all (p := fun d ↦ (Json.hexDigit? d).isSome) rfl (isAscii_of_hexDigit? hsome)
    hsome

section

variable {bytes : List UInt8} {cs : List Char}

/-- **Nothing that has a meaning of its own is left in an escaped text.** -/
theorem Escapes.isInner (h : Escapes bytes cs) : ∀ c ∈ cs, IsInner c := by
  induction h with
  | nil => exact fun _ hc ↦ nomatch hc
  | plain hb _ ih => exact List.forall_mem_cons.2 ⟨isInner_of_isUnreserved hb, ih⟩
  | escaped _ hx hy _ ih =>
    have hpercent : IsInner '%' := ⟨rfl, by decide, by decide⟩
    exact List.forall_mem_cons.2 ⟨hpercent, List.forall_mem_cons.2 ⟨isInner_of_hexDigit? hx,
      List.forall_mem_cons.2 ⟨isInner_of_hexDigit? hy, ih⟩⟩⟩

/-- An escaped text starts with a slash if its bytes do. -/
theorem Escapes.head?_eq_slash (h : Escapes bytes cs) (hbytes : bytes.head? = some 47) :
    cs.head? = some '/' := by
  have hslash : isUnreserved (.ofNat (47 : UInt8).toNat) = true := by decide
  cases h with
  | nil => cases hbytes
  | plain =>
    obtain rfl := Option.some.inj hbytes
    rfl
  | escaped hb =>
    obtain rfl := Option.some.inj hbytes
    rw [hslash] at hb
    cases hb

/-! ### Decoding -/

/-- **The bytes of an escaped text are those it was made from.** -/
theorem unescape_of_escapes (h : Escapes bytes cs) : unescape cs = bytes.map UInt8.toNat := by
  induction h with
  | nil => rfl
  | @plain b _ _ hb _ ih =>
    have hpercent : Char.ofNat b.toNat ≠ '%' := by
      intro heq
      rw [heq] at hb
      exact absurd hb (by decide)
    have hb' : (Char.ofNat b.toNat).toNat = b.toNat := by
      have hlt := b.toNat_lt
      rw [Char.ofNat, dif_pos (.inl (by omega))]
      rfl
    rw [unescape.eq_3 _ _ fun _ _ _ h _ ↦ hpercent h, ih, List.map_cons, hb']
  | @escaped b _ x y _ _ hx hy _ ih =>
    rw [unescape.eq_2, hx, hy]
    simp only [ih, List.map_cons, Nat.div_add_mod]

/-- **An escaped text is decoded to the text its bytes are of.** -/
theorem readBack_of_escapes {s : String} (h : Escapes s.toUTF8.data.toList cs) :
    readBack cs = s.toList := by
  have hinner := h.isInner
  have hkept : cs.filter (· ∉ dropped) = cs :=
    List.filter_eq_self.2 fun c hc ↦ decide_eq_true (hinner c hc).2.1
  have hpath : cs.takeWhile (· ∉ enders) = cs :=
    List.takeWhile_eq_self_iff.2 fun c hc ↦ decide_eq_true (hinner c hc).2.2
  rw [readBack, hkept, hpath, percentDecode_run fun c hc ↦ (hinner c hc).1, unescape_of_escapes h,
    decodeLossy_toUTF8]

end

/-- The first byte of an absolute path is that of the slash. -/
theorem head?_toUTF8 {path : String} (h : Path.isAbsolute path = true) :
    path.toUTF8.data.toList.head? = some 47 := by
  obtain ⟨cs, hcs⟩ : ∃ cs, path.toList = '/' :: cs :=
    List.head?_eq_some_iff.1 (by simpa [Path.isAbsolute] using h)
  rw [toUTF8_toList, hcs]
  rfl

/-- **Escaped paths are decoded to the paths they encode.** An absolute path has escaped forms, and
a URI with any of them is read as the path. A text without the scheme is a path already. -/
theorem toPath_escaped :
    (∀ path : String, Path.isAbsolute path = true →
      (∃ cs, Escapes path.toUTF8.data.toList cs) ∧
      ∀ cs, Escapes path.toUTF8.data.toList cs →
        toPath (.ofList ("file://".toList ++ cs)) = .ok path) ∧
    ∀ value : String, ¬"file://".toList <+: value.toList → toPath value = .ok value := by
  constructor
  · intro path habsolute
    refine ⟨exists_escapes _, fun cs h ↦ ?_⟩
    have hcs : Path.isAbsolute (.ofList cs) = true := by
      rw [Path.isAbsolute, String.toList_ofList, h.head?_eq_slash (head?_toUTF8 habsolute)]
      rfl
    have huri : String.ofList ("file://".toList ++ cs) = ofPath (.ofList cs) := by
      rw [ofPath, ← String.ofList_append]
      rfl
    rw [huri, toPath_ofPath hcs, String.toList_ofList, readBack_of_escapes h, String.ofList_toList]
  · intro value h
    have hnone : after? fileScheme value.toList = none := by
      rw [Option.eq_none_iff_forall_ne_some]
      exact fun rest hrest ↦ h ⟨rest, (after?_eq_some_iff.1 hrest).symm⟩
    rw [toPath, hnone]

/-- A path of two slashes, a character of two bytes, a number sign and a space, in both cases. -/
theorem toPath_escaped_sample :
    toPath "file:////%c3%BC%23%20" = .ok "//ü# " ∧ toPath "src/a%20b.ts" = .ok "src/a%20b.ts" := by
  have h : Escapes "//ü# ".toUTF8.data.toList "//%c3%BC%23%20".toList :=
    .plain rfl (.plain rfl (.escaped rfl rfl rfl (.escaped rfl rfl rfl (.escaped rfl rfl rfl
      (.escaped rfl rfl rfl .nil)))))
  obtain ⟨hescaped, hplain⟩ := toPath_escaped
  exact ⟨(hescaped "//ü# " (by decide)).2 _ h, hplain "src/a%20b.ts" (by decide)⟩

end TypeLens.Uri
