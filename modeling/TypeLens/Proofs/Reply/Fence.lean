import Mathlib.Order.Bounds.Basic
import Mathlib.Order.MinMax
import TypeLens.Proofs.Text.Blank
import TypeLens.Proofs.Text.Infix
import TypeLens.Reply.Content

/-!
# Fences can be taken off

A fence is found by trying: from three backticks on, one more is added as long as the text holds
them. This is the loop `fenceFrom`, and `Search` tells its steps (`search_fenceFrom`). The search
ends with the shortest fence that the text does not hold (`search_iff`). A text holds a number of
backticks in a row exactly if its longest run has as many (`ticks_infix_iff`), so that is one more
than the longest run, and at least three (`isLeast_fenceLength`).

**A text is taken out of its block again** (`codeBlock_unfences`). Behind the first line the fence
comes once, at the very end: it does not lie in the text, and a line feed keeps the backticks at the
end of the text apart from those of the fence.
-/

namespace TypeLens.Reply

open Text

/-! ### Runs of a character -/

/-- The length of the longest run of a character that continues a run of the given length. -/
def longestRunFrom (c : Char) : (current : Nat) → List Char → Nat
  | n, [] => n
  | n, d :: ds => if d = c then longestRunFrom c (n + 1) ds else max n (longestRunFrom c 0 ds)

/-- The length of the longest run of backticks in a text. -/
def longestTicks (text : String) : Nat :=
  longestRunFrom '\x60' 0 text.toList

/-- **The longest run** of a character is at least as long as a run exactly if the text holds that
run. -/
theorem replicate_infix_iff {c : Char} {m n : Nat} {cs : List Char} :
    List.replicate m c <:+: List.replicate n c ++ cs ↔ m ≤ longestRunFrom c n cs := by
  have hrun : ∀ n, List.replicate m c <:+: List.replicate n c ↔ m ≤ n := by
    intro n
    simp [List.infix_replicate_iff]
  -- The run of `n` that comes before grows by the same character; any other one ends it.
  induction cs generalizing n with
  | nil => rw [longestRunFrom, List.append_nil, hrun]
  | cons d ds ih =>
    rw [longestRunFrom]
    rcases eq_or_ne d c with rfl | hd
    · have hlonger : List.replicate m d <:+: List.replicate (n + 1) d ++ ds ↔
          m ≤ longestRunFrom d (n + 1) ds := ih
      rw [if_pos rfl, ← hlonger, List.replicate_succ', List.append_assoc, List.singleton_append]
    · have hlacks : d ∉ List.replicate m c := fun hmem ↦ hd (List.eq_of_mem_replicate hmem)
      have hrest : List.replicate m c <:+: ds ↔ m ≤ longestRunFrom c 0 ds := ih (n := 0)
      rw [if_neg hd, infix_append_cons_iff hlacks, hrun, hrest, le_max_iff]

/-- A text holds a number of backticks in a row exactly if its longest run has as many. -/
theorem ticks_infix_iff {text : String} {n : Nat} :
    ticks n <:+: text.toList ↔ n ≤ longestTicks text :=
  replicate_infix_iff (n := 0)

/-- The number of backticks in the fence of a text: three, or one more than the longest run. -/
def fenceLength (text : String) : Nat :=
  max 3 (1 + longestTicks text)

/-- The fence is the shortest one of at least three backticks that the text does not hold. -/
theorem isLeast_fenceLength (text : String) :
    IsLeast {n | 3 ≤ n ∧ ¬ticks n <:+: text.toList} (fenceLength text) := by
  refine ⟨⟨le_max_left _ _, ?_⟩, ?_⟩
  · have hlonger : 1 + longestTicks text ≤ fenceLength text := le_max_right _ _
    rw [ticks_infix_iff]
    omega
  · rintro n ⟨hthree, hn⟩
    rw [ticks_infix_iff] at hn
    exact max_le hthree (by omega)

/-! ### The search for a fence -/

/-- The search for the fence of a text. One backtick is added as long as the text holds the fence;
`Search cs n m` is a search that starts with `n` backticks and ends with `m`. -/
inductive Search (cs : List Char) : Nat → Nat → Prop
  | found {n : Nat} (h : occurs (ticks n) cs = false) : Search cs n n
  | longer {n m : Nat} (h : occurs (ticks n) cs = true) (hrest : Search cs (n + 1) m) :
      Search cs n m

/-- **A search ends with the shortest fence** that the text does not hold, and it ends if there is
one. -/
theorem search_iff {cs : List Char} {n m : Nat} :
    Search cs n m ↔ IsLeast {k | n ≤ k ∧ ¬ticks k <:+: cs} m := by
  constructor
  · intro h
    induction h with
    | found h => exact ⟨⟨Nat.le_refl _, by simp [← occurs_iff, h]⟩, fun k hk ↦ hk.1⟩
    | @longer n m h _ ih =>
      obtain ⟨⟨hle, hm⟩, hleast⟩ := ih
      refine ⟨⟨Nat.le_of_succ_le hle, hm⟩, fun k hk ↦ hleast ⟨?_, hk.2⟩⟩
      -- The fence of `n` backticks lies in the text, so a fence that does not is longer.
      refine Nat.lt_of_le_of_ne hk.1 ?_
      rintro rfl
      exact hk.2 (occurs_iff.1 h)
  · rintro ⟨⟨hle, hm⟩, hleast⟩
    -- The search goes on for as many backticks as the shortest fence has more.
    obtain ⟨d, rfl⟩ := Nat.exists_eq_add_of_le hle
    induction d generalizing n with
    | zero => exact .found (by simpa [← occurs_iff] using hm)
    | succ d ih =>
      have hheld : ticks n <:+: cs := by
        by_contra hn
        have hless : n + (d + 1) ≤ n := hleast ⟨Nat.le_refl n, hn⟩
        omega
      refine .longer (occurs_iff.2 hheld) ?_
      have hsum : n + (d + 1) = n + 1 + d := by omega
      rw [hsum] at hm hleast ⊢
      refine ih (fun k hk ↦ hleast ⟨Nat.le_of_succ_le hk.1, hk.2⟩) ?_ hm
      exact Nat.le_add_right _ _

/-- The search from three backticks on ends, with the fence of the text. -/
theorem search_three_iff {text : String} {n : Nat} :
    Search text.toList 3 n ↔ n = fenceLength text := by
  rw [search_iff]
  exact ⟨fun h ↦ h.unique (isLeast_fenceLength text), fun h ↦ h ▸ isLeast_fenceLength text⟩

/-- The fence of a text is found by the search. -/
theorem search_fenceFrom (cs : List Char) (n : Nat) : Search cs n (fenceFrom cs n) := by
  fun_induction fenceFrom cs n with
  | case1 n hheld ih => exact .longer hheld ih
  | case2 n hfree => exact .found (Bool.eq_false_iff.2 hfree)

/-- The loop ends with as many backticks as the formula gives. -/
theorem toList_fence (text : String) : (fence text).toList = ticks (fenceLength text) := by
  rw [fence, String.toList_ofList, search_three_iff.1 (search_fenceFrom text.toList 3)]

/-! ### Taking a text out of its block -/

/-- Takes a text out of a block. The block starts with the fence; the text is what stands between
the first line and the next fence, without the line feed before that. -/
def unfence? (block : List Char) : Option (List Char) := do
  let (_, body) ← cutFirst? ['\n'] block
  let (text, _) ← cutFirst? (block.takeWhile (· == '\x60')) body
  before? ['\n'] text

/-- A block is the fence with the language, the text on lines of its own, and the fence again. -/
theorem toList_codeBlock (text language : String) :
    (codeBlock text language).toList = ticks (fenceLength text) ++ language.toList ++
      '\n' :: (text.toList ++ '\n' :: ticks (fenceLength text)) := by
  simp [codeBlock, toList_fence]

theorem not_mem_ticks {c : Char} (hc : c ≠ '\x60') (n : Nat) : c ∉ ticks n :=
  fun h ↦ hc (List.eq_of_mem_replicate h)

/-- The backticks at the start of a block are its fence. -/
theorem takeWhile_codeBlock {text language : String} (h : '\x60' ∉ language.toList) :
    (codeBlock text language).toList.takeWhile (· == '\x60') = ticks (fenceLength text) := by
  have hfence : ∀ c ∈ ticks (fenceLength text), (c == '\x60') = true :=
    fun c hc ↦ beq_iff_eq.2 (List.eq_of_mem_replicate hc)
  rw [toList_codeBlock, List.append_assoc]
  rcases hlanguage : language.toList with - | ⟨d, rest⟩
  · exact takeWhile_append_cons hfence (by decide) _
  · refine takeWhile_append_cons hfence (beq_eq_false_iff_ne.2 ?_) _
    rintro rfl
    exact h (hlanguage ▸ List.mem_cons_self)

/-- **A text can be taken out of its fence.** The search for the fence ends, with the shortest fence
of at least three backticks that the text does not hold, one longer than the longest run in it if
that has three or more. Behind the first line of the block the fence comes only at the very end, and
before it stands the text with a line feed. So the text is read off the block again. -/
theorem codeBlock_unfences (text : String) {language : String}
    (hticks : '\x60' ∉ language.toList) (hline : '\n' ∉ language.toList) :
    (∀ n, Search text.toList 3 n ↔ n = fenceLength text) ∧
      IsLeast {n | 3 ≤ n ∧ ¬ticks n <:+: text.toList} (fenceLength text) ∧
      IsGreatest {n | ticks n <:+: text.toList} (longestTicks text) ∧
      (∃ body, cutFirst? ['\n'] (codeBlock text language).toList =
          some (ticks (fenceLength text) ++ language.toList, body) ∧
        ∀ front back, body = front ++ (ticks (fenceLength text) ++ back) ↔
          front = text.toList ++ ['\n'] ∧ back = []) ∧
      unfence? (codeBlock text language).toList = some text.toList := by
  have hnewline : '\n' ∉ ticks (fenceLength text) := not_mem_ticks (by decide) _
  have hfirst : cutFirst? ['\n'] (codeBlock text language).toList =
      some (ticks (fenceLength text) ++ language.toList,
        text.toList ++ '\n' :: ticks (fenceLength text)) := by
    rw [toList_codeBlock]
    exact cutFirst?_append_cons (by simp [hnewline, hline]) _
  have honly : ∀ front back, text.toList ++ '\n' :: ticks (fenceLength text) =
      front ++ (ticks (fenceLength text) ++ back) ↔ front = text.toList ++ ['\n'] ∧ back = [] :=
    fun front back ↦ append_cons_word_eq_iff hnewline (isLeast_fenceLength text).1.2
  refine ⟨fun n ↦ search_three_iff, isLeast_fenceLength text,
    ⟨ticks_infix_iff.2 (Nat.le_refl _), fun n hn ↦ ticks_infix_iff.1 hn⟩,
    ⟨_, hfirst, honly⟩, ?_⟩
  -- The reader cuts the rest at a fence, and there is only one.
  obtain ⟨pre, post, hcut, -⟩ := exists_cutFirst? ((honly _ _).2 ⟨rfl, rfl⟩)
  obtain ⟨rfl, rfl⟩ := (honly pre post).1 (append_of_cutFirst? hcut)
  simp [unfence?, hfirst, takeWhile_codeBlock hticks, hcut, before?, after?]

/-- A text with a fence of its own in it, and backticks at its end. -/
def sampleFenced : String :=
  "\x60\x60\x60ts\na\n\x60\x60\x60\x60 b\x60\x60"

/-- A text with four backticks in a row takes a fence of five. -/
theorem codeBlock_unfences_sample :
    '\x60' ∉ "ts".toList ∧ '\n' ∉ "ts".toList ∧ Search sampleFenced.toList 3 5 ∧
      unfence? (codeBlock sampleFenced "ts").toList = some sampleFenced.toList := by
  have hticks : '\x60' ∉ "ts".toList := by decide
  have hline : '\n' ∉ "ts".toList := by decide
  obtain ⟨hsearch, -, -, -, hread⟩ := codeBlock_unfences sampleFenced hticks hline
  exact ⟨hticks, hline, (hsearch 5).2 (by decide), hread⟩

end TypeLens.Reply
