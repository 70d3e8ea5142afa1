import TypeLens.Proofs.Lookup.Total

/-!
# Cancellation is exact

An expansion checks for cancellation once before each property it shows. So the number of properties
of the finished tree, `Tree.entries`, is the number of checks on the way to it, and a cancellation
from the `n`-th check on has one of two outcomes: for `n` up to that number the expansion is
cancelled, at that very check, and beyond it the answer is the tree that comes without a
cancellation. There is nothing between the two.

The same holds for a look-up (`cancellation_exact`). The guard that answers nothing when the oracle
fails lets a cancellation through (`run_tolerating_after`).
-/

namespace TypeLens.Lookup

open TypeLens.Graph TypeLens.Build

variable {o : Oracle}

/-- Under the guard, a computation in normal form runs as it does without. -/
theorem run_tolerating_after {α : Type} (hb : o.broken = none) (p : Nat) (answer : Option α)
    (k : Nat) :
    (tolerating (o.after p answer)).run.run k = (o.after p answer).run.run k := by
  rw [tolerating, Oracle.run_tryCatch]
  rcases Oracle.run_after_or_cancelled hb p answer k with hrun | ⟨-, k', hrun⟩
  · rw [hrun]
  · rw [hrun]
    rfl

/-- The number of properties in the tree of an answer; none if nothing is answered. -/
def entriesOf (answer : Option TypeInfo) : Nat :=
  answer.elim 0 fun info ↦ info.tree.entries

/-- **Cancellation is all or nothing, and exact.** In a snapshot that was read, consider the
expansion of an existing type, at any depth and below any types, or the look-up at any position of a
document. Without a cancellation it answers, after as many checks as there are properties in the
tree that it answers. With a cancellation from the `n`-th check on it is cancelled at that check, if
there are at least `n` properties in that tree; and if there are fewer, it gives the same answer as
without. -/
theorem cancellation_exact {bytes : ByteArray} {s : Snapshot}
    (hparse : Snapshot.parse bytes = .ok s) (base : String) (opts : Options) (k : Nat) :
    (∀ t depth way, (s.type? t).isSome → ∃ T,
      (Build.tree ⟨s, base, none, none⟩ opts t depth way).run.run k = (.ok T, k + T.entries) ∧
      ∀ n, 1 ≤ n →
        (Build.tree ⟨s, base, some (k + n), none⟩ opts t depth way).run.run k =
          if n ≤ T.entries then (.error .cancelled, k + n) else (.ok T, k + T.entries)) ∧
    ∀ key d position, s.document? key = some d → ∃ answer,
      (atPosition ⟨s, base, none, none⟩ opts d.root position).run.run k =
        (.ok answer, k + entriesOf answer) ∧
      ∀ n, 1 ≤ n →
        (atPosition ⟨s, base, some (k + n), none⟩ opts d.root position).run.run k =
          if n ≤ entriesOf answer then (.error .cancelled, k + n)
          else (.ok answer, k + entriesOf answer) := by
  have hclosed := Snapshot.closed_of_parse hparse
  constructor
  · intro t depth way ht
    -- Neither the tree nor the number of checks before it depends on where the cancellation falls.
    have hnormal : ∀ cancelFrom, Build.tree ⟨s, base, cancelFrom, none⟩ opts t depth way = _ :=
      fun _ ↦ tree_eq_after rfl hclosed ht depth way
    refine ⟨expansion s opts t depth way, ?_, fun n hn ↦ ?_⟩
    · rw [hnormal]
      exact Oracle.run_after rfl rfl ..
    · rw [hnormal]
      exact Oracle.run_after_of_cancelFrom rfl hn rfl ..
  · intro key d position hd
    have hnormal : ∀ cancelFrom, strictlyAt ⟨s, base, cancelFrom, none⟩ opts d.root position = _ :=
      fun _ ↦ (strictlyAt_eq_after_answerAt opts rfl hclosed hd position).1
    refine ⟨answerAt opts s d.root position, ?_, fun n hn ↦ ?_⟩
    · rw [atPosition, hnormal, run_tolerating_after rfl]
      exact Oracle.run_after rfl rfl ..
    · rw [atPosition, hnormal, run_tolerating_after rfl]
      exact Oracle.run_after_of_cancelFrom rfl hn rfl ..

/-- The list node of the sample shows a property. -/
theorem one_le_entries_expansion_sample {s : Snapshot} (htypes : s.types = Snapshot.sampleTypes) :
    1 ≤ (expansion s {} "node" 0 []).entries := by
  obtain ⟨r, hr, hleaf, hform, hoffered⟩ : ∃ r, s.type? "node" = some r ∧
      leaf? {} r 0 false = none ∧ Form.ofRecord {} r = .object ∧
      r.offered true = [⟨"next", false, false, "link"⟩] := by
    refine ⟨_, by rw [Snapshot.type?, htypes]; rfl, ?_, ?_, ?_⟩ <;> decide
  rw [expansion_of_form hr hleaf, entries_decorate, hform, Form.tree, Tree.entries_object]
  simp [hoffered, entryLimit]

/-- The list node, cancelled at its first check and, beyond its last, not at all. -/
theorem cancellation_exact_sample : ∃ s T d answer,
    Snapshot.parse Snapshot.sampleText.toUTF8 = .ok s ∧
    (Build.tree ⟨s, "/", some 1, none⟩ {} "node" 0 []).run.run 0 = (.error .cancelled, 1) ∧
    (Build.tree ⟨s, "/", some (T.entries + 1), none⟩ {} "node" 0 []).run.run 0 =
      (.ok T, T.entries) ∧
    s.document? "list.ts" = some d ∧
    (atPosition ⟨s, "/", some (entriesOf answer + 1), none⟩ {} d.root 0).run.run 0 =
      (.ok answer, entriesOf answer) := by
  obtain ⟨s, hparse, htypes, ht⟩ := Snapshot.exists_parse_sampleText
  obtain ⟨d, hd⟩ := Snapshot.exists_document_sampleText hparse
  obtain ⟨htree, hlookup⟩ := cancellation_exact hparse "/" {} 0
  obtain ⟨T, hT, hcancelled⟩ := htree "node" 0 [] ht
  obtain ⟨answer, -, hanswer⟩ := hlookup "list.ts" d 0 hd
  have hentries : 1 ≤ T.entries := by
    obtain ⟨-, rfl⟩ := eq_expansion_of_run rfl (Snapshot.closed_of_parse hparse) hT
    exact one_le_entries_expansion_sample htypes
  refine ⟨s, T, d, answer, hparse, ?_, ?_, hd, ?_⟩
  · simpa [hentries] using hcancelled 1 (by omega)
  · simpa [Nat.not_succ_le_self] using hcancelled (T.entries + 1) (by omega)
  · simpa [Nat.not_succ_le_self] using hanswer (entriesOf answer + 1) (by omega)

end TypeLens.Lookup
