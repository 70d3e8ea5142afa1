import Mathlib.Algebra.Ring.Nat
import TypeLens.Graph.Oracle

/-!
# What an intact oracle answers

An oracle is *intact* when it is broken for no kind of question. Asked about a type, symbol or
document that exists, it answers; the only thing that can still stop a computation is a
cancellation, and the only thing a computation leaves behind is the number of cancellation checks.

So a computation that always answers has a normal form, `o.after n a`: check `n` times, then answer
`a`. Normal forms compose (`after_bind_after`, `mapM_eq_after`), and their runs are known: without a
cancellation the answer comes (`run_after`), and with one either the answer or the cancellation does
(`run_after_or_cancelled`).
-/

namespace TypeLens.Graph.Oracle

variable {o : Oracle} {α β : Type}

/-! ### Questions -/

/-- A question about a type that exists. -/
theorem ofType_eq (hb : o.broken = none) {t : TypeId} {r : TypeRecord}
    (hr : o.snapshot.type? t = some r) (q : Query) (f : TypeRecord → α) :
    o.ofType q t f = pure (f r) := by
  simp [ofType, hb, hr]

/-- A question about a symbol that exists. -/
theorem ofSymbol_eq (hb : o.broken = none) {id : SymbolId} {r : SymbolRecord}
    (hr : o.snapshot.symbol? id = some r) (q : Query) (f : SymbolRecord → α) :
    o.ofSymbol q id f = pure (f r) := by
  simp [ofSymbol, hb, hr]

/-- A question about a document that exists. -/
theorem ofDocument_eq (hb : o.broken = none) {key : String} {d : Document}
    (hd : o.snapshot.document? key = some d) (q : Query) (f : Document → α) :
    o.ofDocument q key f = pure (f d) := by
  simp [ofDocument, hb, hd]

/-- A question that needs no look-up. -/
theorem answer_eq (hb : o.broken = none) (q : Query) (a : α) : o.answer q a = pure a := by
  simp [answer, hb]

/-! ### Answers after cancellation checks -/

/-- A number of cancellation checks. -/
def polls (o : Oracle) : Nat → Asked Unit
  | 0 => pure ()
  | n + 1 => do
    o.poll
    o.polls n

/-- An answer after a number of cancellation checks. -/
def after (o : Oracle) (n : Nat) (a : α) : Asked α := do
  o.polls n
  return a

@[simp]
theorem after_zero (a : α) : o.after 0 a = pure a := by
  simp [after, polls]

/-- Two numbers of checks may be made one after the other. -/
theorem polls_add (m n : Nat) :
    o.polls (m + n) = (do o.polls m; o.polls n) := by
  induction m with
  | zero => simp [polls]
  | succ m ih =>
    rw [Nat.succ_add, polls, polls, ih, bind_assoc]

/-- Checks add up. -/
theorem after_bind_after {m n : Nat} {a : α} {b : β} {f : α → Asked β} (hf : f a = o.after n b) :
    o.after m a >>= f = o.after (m + n) b := by
  simp only [after] at hf ⊢
  rw [bind_assoc, pure_bind, hf, polls_add, bind_assoc]

/-- A check before an answer is one more. -/
theorem poll_bind_after (n : Nat) (a : α) : (do o.poll; o.after n a) = o.after (n + 1) a := by
  simp only [after, polls, bind_assoc]

theorem map_after (g : α → β) (n : Nat) (a : α) : g <$> o.after n a = o.after n (g a) := by
  simp only [after, map_bind, map_pure]

/-- Computations in normal form on the items of a list: their checks add up, and they answer item
by item. -/
theorem mapM_eq_after {xs : List α} {f : α → Asked β} (cost : α → Nat) (g : α → β)
    (hf : ∀ x ∈ xs, f x = o.after (cost x) (g x)) :
    xs.mapM f = o.after (xs.map cost).sum (xs.map g) := by
  induction xs with
  | nil => simp
  | cons x xs ih =>
    have hxs := ih fun y hy ↦ hf y (List.mem_cons_of_mem x hy)
    have hcons : (do return g x :: (← xs.mapM f)) =
        o.after (xs.map cost).sum (g x :: xs.map g) := by
      rw [hxs, bind_pure_comp, map_after]
    rw [List.mapM_cons, hf x List.mem_cons_self, List.map_cons, List.map_cons, List.sum_cons]
    exact after_bind_after hcons

/-! ### Runs -/

/-- A cancellation check counts itself, and finds the look-up cancelled from some count on. -/
theorem run_poll (hb : o.broken = none) (k : Nat) :
    o.poll.run.run k =
      if o.cancelFrom.any (· ≤ k + 1) then (.error .cancelled, k + 1) else (.ok (), k + 1) := by
  rcases hc : o.cancelFrom with - | first
  · simp only [poll, hb, hc, reduceCtorEq, if_false, Option.any_none, Bool.false_eq_true]
    rfl
  · simp only [poll, hb, hc, reduceCtorEq, if_false, Option.any_some, decide_eq_true_eq]
    show (if first ≤ k + 1 then throw .cancelled else pure () : Asked Unit).run.run (k + 1) = _
    split <;> rfl

/-- A computation is followed by another one unless it stops. -/
theorem run_bind {m : Asked α} {f : α → Asked β} {k : Nat} :
    (m >>= f).run.run k =
      match m.run.run k with
      | (.ok a, k') => (f a).run.run k'
      | (.error e, k') => (.error e, k') := by
  rw [ExceptT.run_bind, StateT.run_bind]
  rcases m.run.run k with ⟨e | a, k'⟩ <;> rfl

/-- An answer that is passed through a function. -/
theorem run_map {m : Asked α} {f : α → β} {k : Nat} :
    (f <$> m).run.run k =
      match m.run.run k with
      | (.ok a, k') => (.ok (f a), k')
      | (.error e, k') => (.error e, k') := by
  rw [← bind_pure_comp, run_bind]
  rfl

/-- A computation that stops is followed by what handles the stop. -/
theorem run_tryCatch {m : Asked α} {handle : Stop → Asked α} {k : Nat} :
    (tryCatch m handle : Asked α).run.run k =
      match m.run.run k with
      | (.ok a, k') => (.ok a, k')
      | (.error e, k') => (handle e).run.run k' := by
  rw [ExceptT.run_tryCatch, StateT.run_bind]
  rcases m.run.run k with ⟨e | a, k'⟩ <;> rfl

/-- Without a cancellation the answer comes. -/
theorem run_after (hb : o.broken = none) (hc : o.cancelFrom = none) (n : Nat) (a : α) (k : Nat) :
    (o.after n a).run.run k = (.ok a, k + n) := by
  induction n generalizing k with
  | zero => rw [after_zero]; rfl
  | succ n ih =>
    rw [← poll_bind_after, run_bind, run_poll hb]
    simp only [hc, Option.any_none, Bool.false_eq_true, if_false]
    rw [ih, Nat.add_assoc, Nat.add_comm 1 n]

/-- **With a cancellation the count decides**: when it falls on one of the checks before the answer,
it stops the computation there, and otherwise the answer comes. -/
theorem run_after_of_cancelFrom (hb : o.broken = none) {k n : Nat} (hn : 1 ≤ n)
    (hc : o.cancelFrom = some (k + n)) (p : Nat) (a : α) :
    (o.after p a).run.run k =
      if n ≤ p then (.error .cancelled, k + n) else (.ok a, k + p) := by
  induction p generalizing k n with
  | zero =>
    rw [after_zero, if_neg (by omega)]
    rfl
  | succ p ih =>
    have hnow : o.cancelFrom.any (· ≤ k + 1) = decide (n = 1) := by
      rw [hc, Option.any_some]
      exact decide_eq_decide.2 (by omega)
    rw [← poll_bind_after, run_bind, run_poll hb, hnow]
    by_cases h1 : n = 1
    · subst h1
      simp
    · -- The check that is due comes one later, seen from the next count.
      have hnext : o.cancelFrom = some (k + 1 + (n - 1)) := by
        rw [hc]
        congr 1
        omega
      have hrest := ih (by omega) hnext
      simp only [h1, decide_false, Bool.false_eq_true, if_false]
      rw [hrest, show k + 1 + (n - 1) = k + n by omega, show k + 1 + p = k + (p + 1) by omega]
      exact if_congr (by omega) rfl rfl

/-- With an intact oracle the answer comes, or a cancellation that was asked for. -/
theorem run_after_or_cancelled (hb : o.broken = none) (n : Nat) (a : α) (k : Nat) :
    (o.after n a).run.run k = (.ok a, k + n) ∨
      o.cancelFrom.isSome ∧ ∃ k', (o.after n a).run.run k = (.error .cancelled, k') := by
  induction n generalizing k with
  | zero => left; rw [after_zero]; rfl
  | succ n ih =>
    rw [← poll_bind_after, run_bind, run_poll hb]
    by_cases hany : o.cancelFrom.any (· ≤ k + 1)
    · right
      obtain ⟨hsome, -⟩ := (Option.any_eq_true_iff_get _ _).1 hany
      exact ⟨hsome, k + 1, by rw [if_pos hany]⟩
    · rw [if_neg hany, Nat.add_comm n 1, ← Nat.add_assoc]
      exact ih (k + 1)

/-- No other answer comes. -/
theorem eq_of_run_after (hb : o.broken = none) {n : Nat} {a b : α} {k k' : Nat}
    (h : (o.after n a).run.run k = (.ok b, k')) : b = a := by
  rcases run_after_or_cancelled hb n a k with hrun | ⟨-, k'', hrun⟩ <;> rw [hrun] at h
  · cases h
    rfl
  · cases h

/-- The same for the answer alone. -/
theorem answers_or_cancelled (hb : o.broken = none) (n : Nat) (a : α) (k : Nat) :
    ((o.after n a).run.run k).1 = .ok a ∨
      o.cancelFrom.isSome ∧ ((o.after n a).run.run k).1 = .error .cancelled := by
  rcases run_after_or_cancelled hb n a k with hrun | ⟨hsome, k', hrun⟩
  · exact .inl (by rw [hrun])
  · exact .inr ⟨hsome, by rw [hrun]⟩

end TypeLens.Graph.Oracle
