import Mathlib.Logic.Basic

/-!
# Texts that are cut in one way

Pieces that a separator joins may be joined in groups (`intercalate_append`, `intercalate_flatMap`).
The rest of this file is about the way back. A text is followed by another one, and the question is
whether the place where it ends can be found. It can for three kinds of texts: a run of characters
of a class (`cut_run`), a word that is repeated (`cut_repeat`), and items that a separator joins
(`cut_intercalate`). In each of them what follows is known not to continue the text.
-/

namespace TypeLens.Text

variable {α β : Type}

/-! ### Joined pieces -/

/-- A separator occurs between two pieces. -/
theorem mem_intercalate_of_mem_sep {sep : List α} {pieces : List (List α)}
    (h : 2 ≤ pieces.length) {c : α} (hc : c ∈ sep) : c ∈ sep.intercalate pieces := by
  match pieces, h with
  | piece :: next :: rest, _ =>
    rw [List.intercalate_cons_cons]
    exact List.mem_append_left _ (List.mem_append_right _ hc)

/-- Joined pieces are joined with the pieces behind them. -/
theorem intercalate_append {sep : List α} {xs ys : List (List α)} (hxs : xs ≠ [])
    (hys : ys ≠ []) :
    sep.intercalate (xs ++ ys) = sep.intercalate xs ++ sep ++ sep.intercalate ys := by
  induction xs with
  | nil => exact absurd rfl hxs
  | cons x xs ih =>
    rcases eq_or_ne xs [] with rfl | hxs
    · rw [List.singleton_append, List.intercalate_cons_of_ne_nil hys, List.intercalate_singleton]
    · rw [List.cons_append, List.intercalate_cons_of_ne_nil (by simp [hxs]), ih hxs,
        List.intercalate_cons_of_ne_nil hxs]
      simp only [List.append_assoc]

/-- Groups of pieces are joined like the pieces themselves. -/
theorem intercalate_flatMap {sep : List β} {f : α → List (List β)} {xs : List α}
    (h : ∀ x ∈ xs, f x ≠ []) :
    sep.intercalate (xs.flatMap f) = sep.intercalate (xs.map fun x ↦ sep.intercalate (f x)) := by
  induction xs with
  | nil => rfl
  | cons x xs ih =>
    have hrest := ih fun y hy ↦ h y (List.mem_cons_of_mem x hy)
    rcases eq_or_ne xs [] with rfl | hxs
    · rw [List.flatMap_cons, List.flatMap_nil, List.append_nil, List.map_singleton,
        List.intercalate_singleton]
    · have hne : xs.flatMap f ≠ [] := by
        obtain ⟨y, ys, rfl⟩ := List.exists_cons_of_ne_nil hxs
        rw [List.flatMap_cons]
        exact List.append_ne_nil_of_left_ne_nil (h y (by simp)) _
      rw [List.flatMap_cons, intercalate_append (h x List.mem_cons_self) hne, hrest, List.map_cons,
        List.intercalate_cons_of_ne_nil (by simpa using hxs)]

/-! ### Cuts -/

/-- Whether a text is empty or starts with a character outside a class. -/
def Stops (p : α → Bool) (cs : List α) : Prop :=
  ∀ c ∈ cs.head?, p c = false

/-- A run of a class ends where something else begins. -/
theorem cut_run {p : α → Bool} {xs ys r s : List α} (hxs : ∀ c ∈ xs, p c = true)
    (hys : ∀ c ∈ ys, p c = true) (hr : Stops p r) (hs : Stops p s) (h : xs ++ r = ys ++ s) :
    xs = ys ∧ r = s := by
  induction xs generalizing ys with
  | nil =>
    cases ys with
    | nil => exact ⟨rfl, h⟩
    | cons y ys =>
      obtain rfl : r = y :: (ys ++ s) := h
      exact absurd (hys y List.mem_cons_self) (by simp [hr y rfl])
  | cons x xs ih =>
    cases ys with
    | nil =>
      obtain rfl : x :: (xs ++ r) = s := h
      exact absurd (hxs x List.mem_cons_self) (by simp [hs x rfl])
    | cons y ys =>
      obtain ⟨rfl, hrest⟩ := List.cons.inj h
      obtain ⟨rfl, rfl⟩ := ih (fun c hc ↦ hxs c (List.mem_cons_of_mem _ hc))
        (fun c hc ↦ hys c (List.mem_cons_of_mem _ hc)) hrest
      exact ⟨rfl, rfl⟩

/-- A word, several times. -/
def again (word : List α) (n : Nat) : List α :=
  (List.replicate n word).flatten

theorem again_zero (word : List α) : again word 0 = [] :=
  rfl

theorem again_succ (word : List α) (n : Nat) : again word (n + 1) = word ++ again word n := by
  rw [again, again, List.replicate_succ, List.flatten_cons]

theorem again_append_word (word : List α) (n : Nat) :
    again word n ++ word = again word (n + 1) := by
  rw [again, again, List.replicate_succ', List.flatten_append, List.flatten_singleton]

/-- A word is repeated as often as it can be, if what follows does not start with it. -/
theorem cut_repeat {word r s : List α} {m n : Nat} (hr : ¬word <+: r) (hs : ¬word <+: s)
    (h : again word m ++ r = again word n ++ s) : m = n ∧ r = s := by
  induction m generalizing n with
  | zero =>
    cases n with
    | zero => exact ⟨rfl, h⟩
    | succ n =>
      rw [again_zero, List.nil_append, again_succ, List.append_assoc] at h
      exact absurd ⟨_, h.symm⟩ hr
  | succ m ih =>
    cases n with
    | zero =>
      rw [again_zero, List.nil_append, again_succ, List.append_assoc] at h
      exact absurd ⟨_, h⟩ hs
    | succ n =>
      rw [again_succ, again_succ, List.append_assoc, List.append_assoc] at h
      obtain ⟨rfl, rfl⟩ := ih (List.append_cancel_left h)
      exact ⟨rfl, rfl⟩

/-- A word whose first character does not come again in it can be put before a text and behind it
with the same result only if the text is the word several times. -/
theorem append_comm_iff_again {w : α} {ws : List α} (hw : w ∉ ws) (xs : List α) :
    xs ++ w :: ws = w :: ws ++ xs ↔ ∃ n, xs = again (w :: ws) n := by
  constructor
  · intro h
    -- The text is shortened by one word at a time.
    obtain ⟨k, hk⟩ : ∃ k, xs.length = k := ⟨_, rfl⟩
    induction k using Nat.strongRecOn generalizing xs with
    | ind k ih =>
      rcases List.append_eq_append_iff.1 h with ⟨rest, hxs, hword⟩ | ⟨rest, hxs, hword⟩
      · cases xs with
        | nil => exact ⟨0, rfl⟩
        | cons x xs =>
          cases rest with
          | nil => exact ⟨1, by simpa [again] using hxs.symm⟩
          | cons r rest =>
            obtain ⟨rfl, hws⟩ := List.cons.inj hxs
            obtain ⟨rfl, -⟩ := List.cons.inj hword
            exact absurd (hws ▸ by simp) hw
      · have hshorter : rest.length < k := by
          rw [← hk, hxs, List.length_append, List.length_cons]
          omega
        obtain ⟨n, rfl⟩ := ih rest.length hshorter rest (hword.symm.trans hxs) rfl
        exact ⟨n + 1, by rw [hxs, again_succ]⟩
  · rintro ⟨n, rfl⟩
    rw [again_append_word, again_succ]

/-- Joined items are cut in one way, if each item is: where an item ends, a separator follows, or
the text behind the last item, which starts with no separator. -/
theorem cut_intercalate {γ : Type} {sep : List γ} {spell : α → List γ} {view : α → β}
    {Stop : List γ → Prop} (hstop : ∀ r, Stop r → ¬sep <+: r) {xs ys : List α}
    (hitem : ∀ x ∈ xs, ∀ y ∈ ys, ∀ r s, Stop r ∨ sep <+: r → Stop s ∨ sep <+: s →
      spell x ++ r = spell y ++ s → view x = view y ∧ r = s)
    (hxs : xs ≠ []) (hys : ys ≠ []) {r s : List γ} (hr : Stop r) (hs : Stop s)
    (h : sep.intercalate (xs.map spell) ++ r = sep.intercalate (ys.map spell) ++ s) :
    xs.map view = ys.map view ∧ r = s := by
  induction xs generalizing ys with
  | nil => exact absurd rfl hxs
  | cons x xs ih =>
    obtain ⟨y, ys, rfl⟩ := List.exists_cons_of_ne_nil hys
    have hfirst := hitem x List.mem_cons_self y List.mem_cons_self
    have hjoin : ∀ (z : α) {zs : List α} (q : List γ), zs ≠ [] →
        sep.intercalate ((z :: zs).map spell) ++ q =
          spell z ++ (sep ++ (sep.intercalate (zs.map spell) ++ q)) := by
      intro z zs q hzs
      rw [List.map_cons, List.intercalate_cons_of_ne_nil (by simpa using hzs)]
      simp only [List.append_assoc]
    -- When only one of the lists goes on, its separator would stand where the other one stops.
    rcases eq_or_ne xs [] with rfl | hxs' <;> rcases eq_or_ne ys [] with rfl | hys'
    · rw [List.map_singleton, List.map_singleton, List.intercalate_singleton,
        List.intercalate_singleton] at h
      obtain ⟨hview, rfl⟩ := hfirst r s (.inl hr) (.inl hs) h
      exact ⟨by rw [List.map_singleton, List.map_singleton, hview], rfl⟩
    · rw [hjoin y s hys', List.map_singleton, List.intercalate_singleton] at h
      obtain ⟨-, rfl⟩ := hfirst _ _ (.inl hr) (.inr ⟨_, rfl⟩) h
      exact absurd ⟨_, rfl⟩ (hstop _ hr)
    · rw [hjoin x r hxs', List.map_singleton, List.intercalate_singleton] at h
      obtain ⟨-, rfl⟩ := hfirst _ _ (.inr ⟨_, rfl⟩) (.inl hs) h
      exact absurd ⟨_, rfl⟩ (hstop _ hs)
    · rw [hjoin x r hxs', hjoin y s hys'] at h
      obtain ⟨hview, hrest⟩ := hfirst _ _ (.inr ⟨_, rfl⟩) (.inr ⟨_, rfl⟩) h
      obtain ⟨hviews, rfl⟩ := ih (fun a ha b hb ↦ hitem a (List.mem_cons_of_mem _ ha) b
        (List.mem_cons_of_mem _ hb)) hxs' hys' (List.append_cancel_left hrest)
      exact ⟨by rw [List.map_cons, List.map_cons, hview, hviews], rfl⟩

end TypeLens.Text
