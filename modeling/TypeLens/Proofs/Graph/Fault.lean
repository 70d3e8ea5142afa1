import TypeLens.Proofs.Graph.Answer

/-!
# Oracles that are broken

An oracle that is broken for a kind of question stops every computation that asks such a question,
and answers everything else as it would if it were mended. `Shadows m m'` says this of two
computations: `m` either crashes, or runs as `m'` does, with the same outcome and the same number of
cancellation checks.

The relation passes through sequences of questions (`Shadows.bind`, `Shadows.mapM`), so that a
computation shadows its mended version as soon as the questions it is made of do. That they do is
shown here once, for each way to ask (`ofType_shadows` and its like); nothing is assumed of the
snapshot.
-/

namespace TypeLens.Graph

variable {α β : Type}

/-- A computation crashes or runs as another one does. -/
def Shadows (m m' : Asked α) : Prop :=
  ∀ k, (m.run.run k).1 = .error .crashed ∨ m.run.run k = m'.run.run k

namespace Shadows

theorem refl (m : Asked α) : Shadows m m :=
  fun _ ↦ .inr rfl

theorem crashed (m : Asked α) : Shadows (throw .crashed) m :=
  fun _ ↦ .inl rfl

/-- **The step.** One computation after the other. -/
theorem bind {m m' : Asked α} {f f' : α → Asked β} (hm : Shadows m m')
    (hf : ∀ a, Shadows (f a) (f' a)) : Shadows (m >>= f) (m' >>= f') := by
  intro k
  rw [Oracle.run_bind, Oracle.run_bind]
  rcases hm k with hcrash | hsame
  -- A computation that has crashed does not go on.
  · rcases hrun : m.run.run k with ⟨stop | a, k'⟩
    · rw [hrun] at hcrash
      obtain rfl := Except.error.inj hcrash
      exact .inl rfl
    · rw [hrun] at hcrash
      cases hcrash
  · rw [hsame]
    rcases m'.run.run k with ⟨stop | a, k'⟩
    · exact .inr rfl
    · exact hf a k'

/-- One of two computations, and then the same one. -/
theorem ite_bind {c : Prop} [Decidable c] {l l' m m' : Asked α} {f f' : α → Asked β}
    (hl : Shadows l l') (hm : Shadows m m') (hf : ∀ a, Shadows (f a) (f' a)) :
    Shadows (if c then l >>= f else m >>= f) (if c then l' >>= f' else m' >>= f') := by
  split
  · exact hl.bind hf
  · exact hm.bind hf

theorem map {m m' : Asked α} (f : α → β) (hm : Shadows m m') : Shadows (f <$> m) (f <$> m') := by
  rw [← bind_pure_comp, ← bind_pure_comp]
  exact hm.bind fun _ ↦ refl _

/-- **The run.** The computations on the items of a list, one after the other. -/
theorem mapM {f f' : α → Asked β} (hf : ∀ a, Shadows (f a) (f' a)) (xs : List α) :
    Shadows (xs.mapM f) (xs.mapM f') := by
  induction xs with
  | nil => exact refl _
  | cons x xs ih =>
    rw [List.mapM_cons, List.mapM_cons]
    exact (hf x).bind fun _ ↦ ih.bind fun _ ↦ refl _

end Shadows

namespace Oracle

/-- The oracle, broken for nothing. -/
def mended (o : Oracle) : Oracle :=
  { o with broken := none }

variable (o : Oracle)

/-- A question of which the oracle may be broken. -/
theorem ite_crashed_shadows (q : Query) (m : Asked α) :
    Shadows (if o.broken = some q then throw .crashed else m) m := by
  split
  · exact .crashed m
  · exact .refl m

theorem answer_shadows (q : Query) (a : α) : Shadows (o.answer q a) (o.mended.answer q a) :=
  o.ite_crashed_shadows q (pure a)

theorem ofType_shadows (q : Query) (t : TypeId) (f : TypeRecord → α) :
    Shadows (o.ofType q t f) (o.mended.ofType q t f) :=
  o.ite_crashed_shadows q _

theorem ofSymbol_shadows (q : Query) (id : SymbolId) (f : SymbolRecord → α) :
    Shadows (o.ofSymbol q id f) (o.mended.ofSymbol q id f) :=
  o.ite_crashed_shadows q _

theorem aliasedSymbol_shadows (id : SymbolId) :
    Shadows (o.aliasedSymbol id) (o.mended.aliasedSymbol id) :=
  o.ite_crashed_shadows .aliasedSymbol _

/-- A check for cancellation crashes before it counts. -/
theorem poll_shadows : Shadows o.poll o.mended.poll := by
  by_cases hbroken : o.broken = some .cancellation
  · have hpoll : o.poll = throw .crashed := by
      unfold poll
      rw [if_pos hbroken]
      rfl
    rw [hpoll]
    exact .crashed _
  · have hpoll : o.poll = o.mended.poll := by
      unfold poll
      rw [if_neg hbroken, if_neg (show o.mended.broken ≠ some .cancellation by simp [mended])]
      rfl
    rw [hpoll]
    exact .refl _

end Oracle

end TypeLens.Graph
