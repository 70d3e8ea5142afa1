import Mathlib.Logic.Basic
import TypeLens.Text.Scan
import TypeLens.Tree.Key

/-!
# A key is read off its spelling

What stands between the quotes of a key is read by `unescape?`, which accepts exactly what escaping
writes (`unescape?_eq_some_iff`). A key that is written bare starts with no quote, so the spelling
itself tells whether it is quoted, and the key is read off it again (`unquote?_quoteChars`). Hence
different keys are spelled differently (`quote_injective`).
-/

namespace TypeLens.Key

open Text

/-! ### Escapes -/

theorem escape_cons (c : Char) (name : List Char) :
    escape (c :: name) = (if c = '\\' ∨ c = '"' then ['\\', c] else [c]) ++ escape name :=
  List.flatMap_cons

/-- Reads what stands between the quotes of a key. A quote stands only behind a backslash, and a
backslash only before a quote or another backslash. -/
def unescape? : List Char → Option (List Char)
  | [] => some []
  | '\\' :: '\\' :: cs => (unescape? cs).map ('\\' :: ·)
  | '\\' :: '"' :: cs => (unescape? cs).map ('"' :: ·)
  | c :: cs => if c = '\\' ∨ c = '"' then none else (unescape? cs).map (c :: ·)

/-- An escaped name is read back. -/
theorem unescape?_escape (name : List Char) : unescape? (escape name) = some name := by
  induction name with
  | nil => rfl
  | cons c name ih =>
    rw [escape_cons]
    split
    · next hspecial =>
      rcases hspecial with rfl | rfl
      all_goals simp [unescape?, ih]
    · next hplain =>
      obtain ⟨hbackslash, -⟩ := not_or.1 hplain
      rw [List.singleton_append, unescape?, if_neg hplain, ih, Option.map_some]
      · exact fun cs h _ ↦ hbackslash h
      · exact fun cs h _ ↦ hbackslash h

/-- **Reading accepts exactly what escaping writes.** -/
theorem unescape?_eq_some_iff {cs name : List Char} :
    unescape? cs = some name ↔ cs = escape name := by
  refine ⟨fun h ↦ ?_, fun h ↦ h ▸ unescape?_escape name⟩
  fun_induction unescape? cs generalizing name with
  | case1 =>
    obtain rfl := Option.some.inj h
    rfl
  | case2 cs ih =>
    obtain ⟨rest, hrest, rfl⟩ := Option.map_eq_some_iff.1 h
    rw [escape_cons, if_pos (.inl rfl), ih hrest]
    rfl
  | case3 cs ih =>
    obtain ⟨rest, hrest, rfl⟩ := Option.map_eq_some_iff.1 h
    rw [escape_cons, if_pos (.inr rfl), ih hrest]
    rfl
  | case4 => cases h
  | case5 c cs _ _ hplain ih =>
    obtain ⟨rest, hrest, rfl⟩ := Option.map_eq_some_iff.1 h
    rw [escape_cons, if_neg hplain, ih hrest]
    rfl

/-! ### Quotes -/

/-- A key that is written bare starts with no quote. -/
theorem head?_ne_of_isBare {name : List Char} (h : isBare name = true) :
    name.head? ≠ some '"' := by
  intro hhead
  obtain ⟨rest, rfl⟩ := List.head?_eq_some_iff.1 hhead
  -- A final line feed is not all there is, so the quote is still the first character without it.
  obtain ⟨tail, htail⟩ : ∃ tail, withoutFinalNewline ('"' :: rest) = '"' :: tail := by
    unfold withoutFinalNewline
    split
    · next hlast =>
      rcases rest with - | ⟨c, rest⟩
      · simp at hlast
      · exact ⟨_, List.dropLast_cons_cons⟩
    · exact ⟨rest, rfl⟩
  rw [isBare, htail] at h
  exact absurd h (by simp [isName, isBracketed, isNameStart, isLatinLetter])

/-- Reads a key off its spelling. -/
def unquote? : List Char → Option (List Char)
  | '"' :: cs => (before? ['"'] cs).bind unescape?
  | cs => some cs

/-- **A key is read off its spelling.** -/
theorem unquote?_quoteChars (name : List Char) : unquote? (quoteChars name) = some name := by
  unfold quoteChars
  split
  · next hbare =>
    rw [unquote?]
    rintro cs rfl
    exact head?_ne_of_isBare hbare rfl
  · have hclose : before? ['"'] (escape name ++ ['"']) = some (escape name) := by
      simp [before?, after?]
    rw [List.cons_append, unquote?, hclose, Option.bind_some, unescape?_escape]

/-- Different keys are spelled differently. -/
theorem quote_injective : Function.Injective quote := by
  intro first second h
  have hchars : quoteChars first.toList = quoteChars second.toList := String.ofList_inj.1 h
  have hread := unquote?_quoteChars first.toList
  rw [hchars, unquote?_quoteChars, Option.some.injEq] at hread
  exact String.toList_inj.1 hread.symm

/-- A key that is not spelled as it is stands between quotes, escaped. -/
theorem toList_quote_of_ne {name : String} (h : quote name ≠ name) :
    (quote name).toList = '"' :: (escape name.toList ++ ['"']) := by
  rw [quote, String.toList_ofList, quoteChars]
  split
  · next hbare =>
    refine absurd ?_ h
    rw [quote, quoteChars, if_pos hbare, String.ofList_toList]
  · rfl

end TypeLens.Key
