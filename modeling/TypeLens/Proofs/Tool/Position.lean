import Mathlib.Data.Nat.Count
import Mathlib.Data.Nat.Find
import TypeLens.Proofs.Decode.Reads
import TypeLens.Proofs.Text.Lines
import TypeLens.Tool.Input

/-!
# Editor positions

An editor counts lines by line breaks and columns by UTF-16 code units, both from zero. The line of
an offset is the number of breaks that end at or before it (`lineAt`), its column the number of
units since the last of them (`unitAt`). Here a break is a line feed, a carriage return, or the two
in a row, and no other line terminator occurs in the text.

**Every offset that does not split a break is reached by its position**
(`position_reaches_offset`): a location with that position is accepted, and its line and column lead
back to the offset. The induction is on the text, one step for each way a line goes on (`Stands`).
-/

namespace TypeLens.Text

/-! ### Counting line breaks -/

/-- Whether a line break ends before the character at an offset. -/
def endsBreak (cs : List Char) : (o : Nat) → Bool
  | 0 => false
  | i + 1 => cs[i]? == some '\n' || cs[i]? == some '\r' && cs[i + 1]? != some '\n'

/-- Whether an offset is between a carriage return and its line feed. -/
def splitsBreak (cs : List Char) : (o : Nat) → Bool
  | 0 => false
  | i + 1 => cs[i]? == some '\r' && cs[i + 1]? == some '\n'

/-- The number of line breaks that end at or before an offset. -/
def lineAt (cs : List Char) (o : Nat) : Nat :=
  Nat.count (fun i ↦ endsBreak cs i = true) (o + 1)

/-- Where the last of these line breaks ends; the start of the text if there is none. -/
def lineStartAt (cs : List Char) (o : Nat) : Nat :=
  Nat.findGreatest (fun i ↦ endsBreak cs i = true) o

/-- The number of code units from there to the offset. -/
def unitAt (cs : List Char) (o : Nat) : Nat :=
  units ((cs.take o).drop (lineStartAt cs o))

/-- The line terminators of a text are line feeds and carriage returns. -/
def PlainBreaks (cs : List Char) : Prop :=
  ∀ c ∈ cs, isTerminator c = true → c = '\n' ∨ c = '\r'

instance (cs : List Char) : Decidable (PlainBreaks cs) :=
  List.decidableBAll (fun c ↦ isTerminator c = true → c = '\n' ∨ c = '\r') cs

section

variable {c : Char} {cs : List Char} {o : Nat}

theorem lineAt_zero (cs : List Char) : lineAt cs 0 = 0 := by
  simp [lineAt, Nat.count_succ, endsBreak]

theorem lineStartAt_le (cs : List Char) (o : Nat) : lineStartAt cs o ≤ o :=
  Nat.findGreatest_le o

theorem endsBreak_cons (c : Char) (cs : List Char) (i : Nat) :
    endsBreak (c :: cs) (i + 2) = endsBreak cs (i + 1) := by
  simp [endsBreak]

theorem splitsBreak_cons (h : splitsBreak (c :: cs) (o + 1) = false) :
    splitsBreak cs o = false := by
  cases o with
  | zero => rfl
  | succ i => simpa [splitsBreak] using h

/-- A character in front counts if it ends a break by itself. -/
theorem lineAt_cons (c : Char) (cs : List Char) (o : Nat) :
    lineAt (c :: cs) (o + 1) = lineAt cs o + if endsBreak (c :: cs) 1 then 1 else 0 := by
  rw [lineAt, lineAt, Nat.count_succ', Nat.count_succ', Nat.count_succ']
  simp only [endsBreak_cons]
  simp [endsBreak]

/-- One character more in front puts off the start of a line, unless it belongs to the line. -/
theorem lineStartAt_cons (c : Char) (cs : List Char) (o : Nat) :
    lineStartAt (c :: cs) (o + 1) =
      if endsBreak (c :: cs) 1 ∨ lineAt cs o ≠ 0 then lineStartAt cs o + 1 else 0 := by
  obtain ⟨hle, hends, hlast⟩ := Nat.findGreatest_eq_iff.1 (rfl : _ = lineStartAt cs o)
  rw [lineStartAt, Nat.findGreatest_eq_iff]
  split
  next h =>
    refine ⟨Nat.succ_le_succ hle, fun _ ↦ ?_, fun n hn hno ↦ ?_⟩
    · cases hstart : lineStartAt cs o with
      | succ k =>
        rw [endsBreak_cons, ← hstart]
        exact hends (by omega)
      | zero =>
        refine h.resolve_right fun hcount ↦ ?_
        obtain ⟨m, hm, hbreak⟩ := Nat.count_ne_iff_exists.1 hcount
        have hpos : m ≠ 0 := by
          rintro rfl
          exact nomatch hbreak
        exact hlast (by omega) (by omega) hbreak
    · obtain ⟨k, rfl⟩ : ∃ k, n = k + 2 := ⟨n - 2, by omega⟩
      rw [endsBreak_cons]
      exact hlast (by omega) (by omega)
  next h =>
    obtain ⟨hfirst, hcount⟩ := not_or.1 h
    refine ⟨Nat.zero_le _, fun hne ↦ absurd rfl hne, fun n hn hno ↦ ?_⟩
    match n, hn with
    | 1, _ => exact hfirst
    | k + 2, _ =>
      rw [endsBreak_cons]
      exact Nat.count_iff_forall_not.1 (not_not.1 hcount) (k + 1) (by omega)

/-! ### Where an offset stands -/

/-- Among the lines an editor shows, an offset stands where counting line breaks says: as many lines
come before its line, and of its line it has the characters since the last break before it. -/
def Stands (cs : List Char) (o : Nat) : Prop :=
  ∃ before l after back, editorLines cs = before ++ l :: after ∧
    l.body = (cs.take o).drop (lineStartAt cs o) ++ back ∧
    before.length = lineAt cs o ∧ lengthOfLines before = lineStartAt cs o

theorem stands_zero (cs : List Char) : Stands cs 0 := by
  obtain ⟨l, ls, h⟩ := List.exists_cons_of_ne_nil (editorLines_ne_nil cs)
  exact ⟨[], l, ls, l.body, h, rfl, (lineAt_zero cs).symm, rfl⟩

/-- Behind a break of one character. -/
theorem Stands.cons_break (h : Stands cs o) (hc : c = '\n' ∨ c = '\r')
    (hreturn : c = '\r' → cs.head? ≠ some '\n') : Stands (c :: cs) (o + 1) := by
  obtain ⟨before, l, after, back, hlines, hbody, hcount, hlength⟩ := h
  have hends : endsBreak (c :: cs) 1 = true := by
    rcases hc with rfl | rfl
    · rfl
    · simpa [endsBreak, List.head?_eq_getElem?] using hreturn rfl
  refine ⟨⟨[], [c]⟩ :: before, l, after, back, ?_, ?_, ?_, ?_⟩
  · rw [editorLines_cons_break hc hreturn, hlines, List.cons_append]
  · simpa [lineStartAt_cons, hends] using hbody
  · simp [lineAt_cons, hends, hcount]
  · simp [lineStartAt_cons, hends, lengthOfLines, Line.chars, hlength, Nat.add_comm]

/-- Behind a carriage return and a line feed. -/
theorem Stands.cons_cons_break (h : Stands cs o) : Stands ('\r' :: '\n' :: cs) (o + 2) := by
  obtain ⟨before, l, after, back, hlines, hbody, hcount, hlength⟩ := h
  have hfirst : endsBreak ('\r' :: '\n' :: cs) 1 = false := by simp [endsBreak]
  have hsecond : endsBreak ('\n' :: cs) 1 = true := rfl
  have hline : lineAt ('\n' :: cs) (o + 1) = lineAt cs o + 1 := by simp [lineAt_cons, hsecond]
  have hstart : lineStartAt ('\r' :: '\n' :: cs) (o + 2) = lineStartAt cs o + 2 := by
    simp [lineStartAt_cons, hsecond, hline]
  refine ⟨⟨[], ['\r', '\n']⟩ :: before, l, after, back, ?_, ?_, ?_, ?_⟩
  · rw [editorLines_cons_cons_break, hlines, List.cons_append]
  · simpa [hstart] using hbody
  · simp [lineAt_cons, hfirst, hsecond, hcount]
  · simp [hstart, lengthOfLines, Line.chars, hlength, Nat.add_comm]

/-- Behind a character that ends no line. -/
theorem Stands.cons_of_not (h : Stands cs o) (hc : isTerminator c = false) :
    Stands (c :: cs) (o + 1) := by
  obtain ⟨before, l, after, back, hlines, hbody, hcount, hlength⟩ := h
  have hends : endsBreak (c :: cs) 1 = false := by
    have hfeed : c ≠ '\n' := by
      rintro rfl
      exact absurd hc (by decide)
    have hreturn : c ≠ '\r' := by
      rintro rfl
      exact absurd hc (by decide)
    simp [endsBreak, hfeed, hreturn]
  -- On the first line the column grows. Further down the column stays, and the line starts later.
  cases before with
  | nil =>
    have hline : lineAt cs o = 0 := hcount.symm
    have hstart : lineStartAt cs o = 0 := hlength.symm
    rw [hstart] at hbody
    refine ⟨[], ⟨c :: l.body, l.terminator⟩, after, back, editorLines_cons_of_not hc hlines, ?_, ?_,
      ?_⟩
    · simpa [lineStartAt_cons, hends, hline] using hbody
    · simp [lineAt_cons, hends, hline]
    · simp [lineStartAt_cons, hends, hline, lengthOfLines]
  | cons first before =>
    have hline : lineAt cs o ≠ 0 := by
      rw [← hcount]
      exact Nat.succ_ne_zero _
    have hstart : lineStartAt (c :: cs) (o + 1) = lineStartAt cs o + 1 := by
      simp [lineStartAt_cons, hline]
    refine ⟨⟨c :: first.body, first.terminator⟩ :: before, l, after, back,
      editorLines_cons_of_not hc hlines, ?_, ?_, ?_⟩
    · simpa [hstart] using hbody
    · simpa [lineAt_cons, hends] using hcount
    · rw [hstart, ← hlength]
      simp only [lengthOfLines, Line.chars, List.length_append, List.length_cons]
      omega

/-- In a text with plain line breaks, every offset that does not split a break stands where counting
says. -/
theorem stands (hplain : PlainBreaks cs) (ho : o ≤ cs.length) (hsplit : splitsBreak cs o = false) :
    Stands cs o := by
  -- The offset goes down with the text, along the reader of its lines.
  fun_induction lines cs generalizing o with
  | case1 =>
    obtain rfl := Nat.le_zero.1 ho
    exact stands_zero []
  | case2 cs ih =>
    rcases o with - | - | o
    · exact stands_zero _
    · exact absurd hsplit (by simp [splitsBreak])
    · refine (ih (fun d hd ↦ hplain d (by simp [hd])) (by simpa using ho) ?_).cons_cons_break
      exact splitsBreak_cons (splitsBreak_cons hsplit)
  | case3 c cs hcrlf hc ih =>
    cases o with
    | zero => exact stands_zero _
    | succ o =>
      refine (ih (fun d hd ↦ hplain d (by simp [hd])) (by simpa using ho)
        (splitsBreak_cons hsplit)).cons_break (hplain c (by simp) hc) ?_
      rintro rfl hhead
      obtain ⟨rest, rfl⟩ := List.head?_eq_some_iff.1 hhead
      exact hcrlf rest rfl rfl
  | case4 c cs hcrlf hc hrest ih | case5 c cs hcrlf hc l ls hrest ih =>
    cases o with
    | zero => exact stands_zero _
    | succ o =>
      exact (ih (fun d hd ↦ hplain d (by simp [hd])) (by simpa using ho)
        (splitsBreak_cons hsplit)).cons_of_not (Bool.of_not_eq_true hc)

/-- The position of an offset, counted from one, has this offset. -/
theorem offset?_position {text : String} (hplain : PlainBreaks text.toList)
    (ho : o ≤ text.toList.length) (hsplit : splitsBreak text.toList o = false) :
    offset? text (lineAt text.toList o + 1) (unitAt text.toList o + 1) = some o := by
  obtain ⟨before, l, after, back, hlines, hbody, hcount, hlength⟩ := stands hplain ho hsplit
  have hle := lineStartAt_le text.toList o
  rw [offset?_eq_some_iff]
  refine ⟨by omega, by omega, l, o - lineStartAt text.toList o, ?_, ?_, ?_⟩
  · simp [hlines, ← hcount]
  · have hunit : (unitAt text.toList o + 1 : Int).toNat - 1 =
        units ((text.toList.take o).drop (lineStartAt text.toList o)) := by
      rw [unitAt]
      omega
    rw [hunit, hbody, indexOfUnit?_units, List.length_drop, List.length_take, Nat.min_eq_left ho]
  · have hbefore : lineOffset text.toList (lineAt text.toList o) = lineStartAt text.toList o := by
      rw [lineOffset, hlines, ← hcount, List.take_left, hlength]
    have hline : (lineAt text.toList o + 1 : Int).toNat - 1 = lineAt text.toList o := by omega
    rw [hline, hbefore]
    omega

end

end TypeLens.Text

namespace TypeLens.Tool

open Text

/-! ### Locations -/

/-- The position of an editor in a location, counted from zero. -/
def editorPosition (line character : Nat) : Json :=
  .obj [("line", .int line), ("character", .int character)]

/-- An integer that is not too small is read as itself. -/
theorem integerBetween_int {least n : Int} (h : least ≤ n) :
    Decoder.integerBetween least none (.int n) = .ok n := by
  simp [Decoder.integerBetween, Decoder.integer_int, Decoded.filter, Int.not_lt.2 h]

/-- The position of an editor becomes a line and a column that count from one. -/
theorem flattenPosition_editorPosition {name : String} (hname : name ∈ ["file_path", "uri", "path"])
    (path : Json) (line character : Nat) :
    flattenPosition [(name, path), ("position", editorPosition line character)] =
      [(name, path), ("line", .int (line + 1)), ("column", .int (character + 1))] := by
  simp only [List.mem_cons, List.not_mem_nil, or_false] at hname
  rcases hname with rfl | rfl | rfl <;> rfl

/-- A file and a position of an editor are a location, which counts from one. -/
theorem decode_editorPosition {name path file : String}
    (hname : name ∈ ["file_path", "uri", "path"]) (hfile : filePath (.str path) = .ok file)
    (line character : Nat) :
    Location.decode (.obj [(name, .str path), ("position", editorPosition line character)]) =
      .ok ⟨none, file, line + 1, character + 1⟩ := by
  have hline := integerBetween_int (show (1 : Int) ≤ line + 1 by omega)
  have hcolumn := integerBetween_int (show (1 : Int) ≤ character + 1 by omega)
  rw [Location.decode, flattening, flattenPosition_editorPosition hname]
  simp only [List.mem_cons, List.not_mem_nil, or_false] at hname
  have hknown : Location.schema.known
      [(name, .str path), ("line", .int (line + 1)), ("column", .int (character + 1))] =
        [name, "line", "column"] := by
    rcases hname with rfl | rfl | rfl <;> rfl
  refine Schema.Reads.closedFields ?_ (by simp [hknown])
  rcases hname with rfl | rfl | rfl
  all_goals
    exact ((((Schema.reads_default (by simp [Fields.get?]) none).map Location.mk).seq
      (Schema.reads_of_find? rfl hfile)).seq (Schema.reads_of_find? rfl hline)).seq
      (Schema.reads_of_find? rfl hcolumn)

/-- **Every editor position reaches its offset.** Take a text whose only line terminators are line
feeds and carriage returns, and an offset in it that is not inside a line break of two characters.
A location with any file that can be read and the position of the offset, in lines and code units
from zero, is accepted, and the offset of its line and column is the one the position came from. -/
theorem position_reaches_offset {text : String} (hplain : PlainBreaks text.toList) {o : Nat}
    (ho : o ≤ text.toList.length) (hsplit : splitsBreak text.toList o = false)
    {name path file : String} (hname : name ∈ ["file_path", "uri", "path"])
    (hfile : filePath (.str path) = .ok file) :
    ∃ location, Location.decode (.obj [(name, .str path),
        ("position", editorPosition (lineAt text.toList o) (unitAt text.toList o))]) =
          .ok location ∧
      location.file = file ∧ offset? text location.line location.column = some o :=
  ⟨_, decode_editorPosition hname hfile _ _, rfl, offset?_position hplain ho hsplit⟩

/-- Behind a character of two units on the second line, and on the empty line behind the end. -/
theorem position_reaches_offset_sample :
    (∃ location, Location.decode
        (.obj [("uri", .str "src/a.ts"), ("position", editorPosition 1 2)]) = .ok location ∧
      location.file = "src/a.ts" ∧
      offset? "a\r\n😀b\r" location.line location.column = some 4) ∧
    ∃ location, Location.decode
        (.obj [("path", .str " a.ts "), ("position", editorPosition 2 0)]) = .ok location ∧
      location.file = "a.ts" ∧
      offset? "a\r\n😀b\r" location.line location.column = some 6 := by
  have hplain : PlainBreaks "a\r\n😀b\r".toList := by decide
  have hfirst : filePath (.str "src/a.ts") = .ok "src/a.ts" := rfl
  have hsecond : filePath (.str " a.ts ") = .ok "a.ts" := rfl
  exact ⟨position_reaches_offset hplain (o := 4) (by decide) (by decide) (by decide) hfirst,
    position_reaches_offset hplain (o := 6) (by decide) (by decide) (by decide) hsecond⟩

end TypeLens.Tool
