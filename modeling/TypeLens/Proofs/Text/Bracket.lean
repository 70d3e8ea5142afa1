import Mathlib.Data.List.Basic
import Mathlib.Data.List.Infix

/-!
# Balanced brackets

In a balanced text the round, square and curly brackets come in pairs that do not cross. `Balanced`
says so by the ways such a text is put together. `closes` reads a text and keeps a stack of the
brackets that it waits for; since the two agree (`balanced_iff_closes`), balance can be decided.

The stack does not notice a balanced text that is put anywhere into another one (`Balanced.insert`).
It is also what bounds the brackets at the start of a text: they close no more than they open, for
each kind (`Balanced.count_le`).
-/

namespace TypeLens.Text

/-- The bracket that closes a bracket. -/
def closing? : Char → Option Char
  | '(' => some ')'
  | '[' => some ']'
  | '{' => some '}'
  | _ => none

/-- Whether a character closes a bracket. -/
def isClosing (c : Char) : Bool :=
  c == ')' || c == ']' || c == '}'

/-- Whether a character is no bracket. -/
def isUnbracketed (c : Char) : Bool :=
  (closing? c).isNone && !isClosing c

/-- The texts in which all brackets come in pairs that do not cross. -/
inductive Balanced : List Char → Prop
  | nil : Balanced []
  | plain {c : Char} {cs : List Char} (hc : isUnbracketed c = true) (h : Balanced cs) :
    Balanced (c :: cs)
  | group {o c : Char} {inner rest : List Char} (hpair : closing? o = some c)
    (hinner : Balanced inner) (hrest : Balanced rest) : Balanced (o :: inner ++ c :: rest)

/-- Reads a text in which the brackets waited for are closed, the last one first. -/
def closes : (awaited : List Char) → List Char → Bool
  | awaited, [] => awaited.isEmpty
  | awaited, c :: cs =>
    match closing? c with
    | some d => closes (d :: awaited) cs
    | none =>
      if isClosing c then awaited.head? == some c && closes awaited.tail cs
      else closes awaited cs

theorem of_closing?_eq_some {o c : Char} (h : closing? o = some c) :
    closing? c = none ∧ isClosing c = true := by
  unfold closing? at h
  split at h <;> cases h <;> decide

theorem closing?_injective {o o' c : Char} (h : closing? o = some c) (h' : closing? o' = some c) :
    o = o' := by
  unfold closing? at h h'
  split at h <;> cases h <;> split at h' <;> cases h' <;> rfl

/-! ### Putting texts together -/

section

variable {cs ds : List Char}

/-- Two balanced texts are balanced one after the other. -/
theorem Balanced.append (hc : Balanced cs) (hd : Balanced ds) : Balanced (cs ++ ds) := by
  induction hc with
  | nil => exact hd
  | plain hc _ ih => exact .plain hc ih
  | group hpair hinner _ _ ih =>
    rw [List.append_assoc]
    exact .group hpair hinner ih

theorem Balanced.enclose {o c : Char} (hpair : closing? o = some c) (h : Balanced cs) :
    Balanced (o :: cs ++ [c]) :=
  .group hpair h .nil

/-- A text without brackets is balanced. -/
theorem balanced_of_forall (h : ∀ c ∈ cs, isUnbracketed c = true) : Balanced cs := by
  induction cs with
  | nil => exact .nil
  | cons c cs ih =>
    obtain ⟨hc, hcs⟩ := List.forall_mem_cons.1 h
    exact .plain hc (ih hcs)

end

/-! ### Reading brackets -/

/-- A text that closes the brackets waited for in order, with balanced texts between them. -/
def Resolves : (awaited : List Char) → List Char → Prop
  | [], cs => Balanced cs
  | d :: awaited, cs =>
    ∃ front rest, cs = front ++ d :: rest ∧ Balanced front ∧ Resolves awaited rest

section

variable {cs ds awaited : List Char}

/-- A balanced text in front leaves open what was open. -/
theorem Resolves.append_left (hc : Balanced cs) (hd : Resolves awaited ds) :
    Resolves awaited (cs ++ ds) := by
  cases awaited with
  | nil => exact hc.append hd
  | cons d awaited =>
    obtain ⟨front, rest, rfl, hfront, hrest⟩ := hd
    exact ⟨cs ++ front, rest, by rw [List.append_assoc], hc.append hfront, hrest⟩

/-- What the reader of brackets accepts can be taken apart into balanced texts between the brackets
that were awaited. -/
theorem resolves_of_closes (h : closes awaited cs = true) : Resolves awaited cs := by
  induction cs generalizing awaited with
  | nil =>
    obtain rfl : awaited = [] := List.isEmpty_iff.1 h
    exact .nil
  | cons c cs ih =>
    rw [closes] at h
    split at h
    · next d hpair =>
      -- What is read up to the bracket that closes this one is enclosed by the two.
      obtain ⟨front, rest, rfl, hfront, hrest⟩ := ih h
      have := hrest.append_left (hfront.enclose hpair)
      simpa using this
    · next hnone =>
      split_ifs at h with hclosing
      · obtain ⟨hhead, hcs⟩ := Bool.and_eq_true_iff.1 h
        obtain ⟨awaited, rfl⟩ := List.head?_eq_some_iff.1 (beq_iff_eq.1 hhead)
        exact ⟨[], cs, rfl, .nil, ih hcs⟩
      · have hc : isUnbracketed c = true := by simp [isUnbracketed, hnone, hclosing]
        exact (ih h).append_left (.plain hc .nil)

/-- A balanced text leaves the brackets waited for as they are. -/
theorem closes_append (h : Balanced cs) (awaited ds : List Char) :
    closes awaited (cs ++ ds) = closes awaited ds := by
  induction h generalizing awaited ds with
  | nil => rfl
  | plain hc _ ih =>
    obtain ⟨hopen, hclose⟩ := Bool.and_eq_true_iff.1 hc
    rw [List.cons_append, closes, Option.isNone_iff_eq_none.1 hopen]
    simp only [ih]
    rw [if_neg (by simpa using hclose)]
  | @group o c inner rest hpair _ _ ihinner ihrest =>
    have hread : closes (c :: awaited) (c :: (rest ++ ds)) = closes awaited (rest ++ ds) := by
      simp [closes, of_closing?_eq_some hpair]
    rw [List.append_assoc, List.cons_append, List.cons_append, closes, hpair]
    simp only [ihinner, hread, ihrest]

/-- **Reading decides balance.** -/
theorem balanced_iff_closes : Balanced cs ↔ closes [] cs = true := by
  refine ⟨fun h ↦ ?_, resolves_of_closes⟩
  have := closes_append h [] []
  rw [List.append_nil] at this
  rw [this]
  rfl

instance : DecidablePred Balanced := fun _ ↦
  decidable_of_iff _ balanced_iff_closes.symm

/-- What is put into a text does not matter to the brackets around it. -/
theorem closes_insert (h : Balanced ds) (front rest : List Char) :
    closes awaited (front ++ ds ++ rest) = closes awaited (front ++ rest) := by
  induction front generalizing awaited with
  | nil => exact closes_append h awaited rest
  | cons c front ih => simp only [List.cons_append, closes, ih]

/-- **A balanced text can be put anywhere into a balanced text.** -/
theorem Balanced.insert {front rest : List Char} (h : Balanced (front ++ rest))
    (hinner : Balanced ds) : Balanced (front ++ ds ++ rest) := by
  rw [balanced_iff_closes, closes_insert hinner]
  exact balanced_iff_closes.1 h

/-- The start of a text that is read closes no more than it opens and what was waited for. -/
theorem count_le_of_closes {o c : Char} (hpair : closing? o = some c) {front : List Char}
    (h : closes awaited cs = true) (hfront : front <+: cs) :
    front.count c ≤ front.count o + awaited.count c := by
  induction cs generalizing awaited front with
  | nil =>
    rw [List.prefix_nil.1 hfront]
    exact Nat.zero_le _
  | cons d cs ih =>
    rcases List.prefix_cons_iff.1 hfront with rfl | ⟨front, rfl, hstart⟩
    · exact Nat.zero_le _
    · obtain ⟨hc, hclosing⟩ := of_closing?_eq_some hpair
      rw [closes] at h
      split at h
      · next e hopen =>
        -- A bracket of this kind that opens is waited for from here on.
        have hrest := ih h hstart
        have hdc : d ≠ c := fun heq ↦ by rw [heq, hc] at hopen; cases hopen
        have hkind : e = c → d = o := fun heq ↦ closing?_injective (heq ▸ hopen) hpair
        rw [List.count_cons_of_ne hdc]
        by_cases he : e = c
        · rw [he, List.count_cons_self] at hrest
          rw [hkind he, List.count_cons_self]
          omega
        · rw [List.count_cons_of_ne he] at hrest
          exact hrest.trans (Nat.add_le_add_right (List.count_le_count_cons) _)
      · split_ifs at h with hd
        · obtain ⟨hhead, hcs⟩ := Bool.and_eq_true_iff.1 h
          obtain ⟨awaited, rfl⟩ := List.head?_eq_some_iff.1 (beq_iff_eq.1 hhead)
          have hrest := ih hcs hstart
          rw [List.tail_cons] at hrest
          simp only [List.count_cons]
          omega
        · have hdc : d ≠ c := fun heq ↦ hd (heq ▸ hclosing)
          have hopened : front.count o ≤ (d :: front).count o := List.count_le_count_cons
          rw [List.count_cons_of_ne hdc]
          exact (ih h hstart).trans (Nat.add_le_add_right hopened _)

/-- **The start of a balanced text** closes no more brackets of a kind than it opens. -/
theorem Balanced.count_le (h : Balanced cs) {o c : Char} (hpair : closing? o = some c)
    {front : List Char} (hfront : front <+: cs) : front.count c ≤ front.count o := by
  simpa using count_le_of_closes hpair (balanced_iff_closes.1 h) hfront

end

end TypeLens.Text
