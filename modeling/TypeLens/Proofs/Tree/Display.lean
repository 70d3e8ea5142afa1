import TypeLens.Proofs.Tree.Erasure

/-!
# What a tree is displayed with

A tree is displayed with the parts that its root stores, and without any by its name. Parts that are
stored count only if there are some, so that a stored list of parts is displayed only where it is
not empty. `Tree.Proper` is what it takes of each node for there to be parts (`partsIn_ne_nil`): a
union or an intersection is made of something.

The parts that are made for a node spell its text even over parts that are stored below it, as long
as those are fresh (`textOf_builtParts_of_fresh`).
-/

namespace TypeLens

/-! ### Nodes with something to show -/

section

variable {separator group : List Part} {groups : List (List Part)}

theorem interleave_cons_ne_nil (h : group ≠ []) : interleave separator (group :: groups) ≠ [] := by
  cases groups with
  | nil => exact h
  | cons group' groups => simp [interleave, h]

end

theorem OperandParts.closed_ne_nil {o : OperandParts} (h : o.parts ≠ []) : o.closed ≠ [] := by
  unfold closed
  split
  · simp
  · exact h

/-- A union shows something if its first member does, or if it leaves out some. -/
theorem unionParts_ne_nil {os : List OperandParts} {excess : Int} (h : ∀ o ∈ os, o.parts ≠ [])
    (hsome : os ≠ [] ∨ 0 < excess) : unionParts os excess ≠ [] := by
  unfold unionParts
  cases os with
  | nil =>
    have hexcess : 0 < excess := hsome.resolve_left (absurd rfl)
    rw [if_pos hexcess]
    exact interleave_cons_ne_nil (List.cons_ne_nil _ _)
  | cons o os =>
    have hclosed := OperandParts.closed_ne_nil (h o List.mem_cons_self)
    unfold foldTruths
    split
    · -- The first member is written, or else the truth values are folded in its place.
      rcases htruth : o.isTruth with - | -
      · simpa [htruth] using interleave_cons_ne_nil hclosed
      · simpa [htruth] using interleave_cons_ne_nil (List.cons_ne_nil _ _)
    · exact interleave_cons_ne_nil hclosed

theorem objectParts_ne_nil (entries : List (List Part)) (excess : Int) :
    objectParts entries excess ≠ [] := by
  unfold objectParts
  split <;> simp

/-- An intersection shows something if its first member does. -/
theorem intersectionParts_ne_nil {ss : List SegmentParts}
    (h : ∀ ps, .parts ps ∈ ss → ps ≠ []) (hsome : ss ≠ []) : intersectionParts ss ≠ [] := by
  unfold intersectionParts
  cases ss with
  | nil => exact absurd rfl hsome
  | cons segment segments =>
    cases segment with
    | entries es excess => exact interleave_cons_ne_nil (objectParts_ne_nil _ _)
    | parts ps => exact interleave_cons_ne_nil (h ps List.mem_cons_self)

theorem functionParts_ne_nil (name : String) (ss : List SignatureParts) (excess : Int) :
    functionParts name ss excess ≠ [] := by
  unfold functionParts
  dsimp only
  split
  · simp
  · split <;> simp [SignatureParts.shown]
  · simp

theorem enumMemberParts_ne_nil (member : String) : enumMemberParts member ≠ [] := by
  unfold enumMemberParts
  split <;> simp

theorem Label.shown_of_parts_eq_some {l : Label} {parts : List Part} (h : l.parts = some parts)
    (hne : parts ≠ []) (built : List Part) : l.shown built = parts := by
  obtain ⟨p, ps, rfl⟩ := List.exists_cons_of_ne_nil hne
  simp [shown, h]

namespace Tree

open TypeLens.Part

/-- A node has something to show, and does not leave out a negative number of entries. -/
def Proper : Tree → Prop
  | union _ ms e => ms ≠ [] ∨ 0 < e
  | intersection _ ms => ms ≠ []
  | object _ _ e => 0 ≤ e
  | generic _ ts => ts ≠ []
  | _ => True

/-- A tree of proper nodes that stores nothing has parts. -/
theorem partsIn_ne_nil (t : Tree) (hparts : t.Everywhere (·.label.parts = none))
    (h : t.Everywhere Proper) : t.partsIn false ≠ [] := by
  induction t using branch_induction with
  | node t ih =>
    have hbelow : ∀ c ∈ t.branches, c.operandPart.parts ≠ [] := fun c hc ↦
      ih c hc (hparts.branch hc) (h.branch hc)
    have hown := h.root
    have hshown : ∀ l, t.label = l → ∀ built, l.shown built = built := by
      rintro l rfl
      exact Label.shown_of_parts_eq_none hparts.root
    -- Unions and intersections show only what is below them; all other nodes have parts of their
    -- own.
    cases t with
    | union l ms e =>
      rw [partsIn, slotUnionParts, if_pos (by simp), hshown l rfl, operandParts_eq_map]
      refine unionParts_ne_nil (fun o ho ↦ ?_) (hown.imp_left fun hms ↦ by simpa using hms)
      obtain ⟨m, hm, rfl⟩ := List.mem_map.1 ho
      exact hbelow m hm
    | intersection l ms =>
      rw [partsIn, hshown l rfl, segmentParts_eq_map]
      refine intersectionParts_ne_nil (fun ps hps ↦ ?_) (by simpa [Proper] using hown)
      obtain ⟨m, hm, hsegment⟩ := List.mem_map.1 hps
      have hclosed := OperandParts.closed_ne_nil (hbelow m hm)
      cases m <;> simp only [segmentPart, SegmentParts.parts.injEq, reduceCtorEq] at hsegment <;>
        exact hsegment ▸ hclosed
    | primitive l | basic l | reference l | array l | tuple l | promise l | generic l =>
      rw [partsIn, hshown l rfl]
      simp [arrayParts, referenceParts]
    | object l =>
      rw [partsIn, hshown l rfl]
      exact objectParts_ne_nil _ _
    | function l =>
      rw [partsIn, hshown l rfl]
      exact functionParts_ne_nil _ _ _
    | enumMember l =>
      rw [partsIn, hshown l rfl]
      exact enumMemberParts_ne_nil _

theorem proper_erase {t : Tree} (h : t.Proper) : t.erase.Proper := by
  cases t with
  | union | intersection | generic => simpa [erase, Proper, eraseAll_eq_map] using h
  | object => exact h
  | _ => trivial

theorem legible_erase {t : Tree} (h : t.Legible) : t.erase.Legible := by
  cases t with
  | union | generic => simpa [erase, Legible, eraseAll_eq_map] using h
  | object | enumMember => exact h
  | _ => trivial

@[simp]
theorem proper_setLabel (l : Label) (t : Tree) : (t.setLabel l).Proper ↔ t.Proper := by
  cases t <;> rfl

/-- A proper node is legible, if it is an enum member or a union that reads as it is. -/
theorem Proper.legible {t : Tree} (h : t.Proper)
    (henum : ∀ l m, t = .enumMember l m → ¬∃ own : String, m = "." ++ own ∧ '.' ∉ own.toList)
    (hunion : ∀ l ms e, t = .union l ms e →
      ∀ m ∈ ms, m.isLeaf = false → m.text ≠ "true" ∧ m.text ≠ "false") : t.Legible := by
  cases t with
  | union => exact hunion _ _ _ rfl
  | enumMember => exact henum _ _ rfl
  | object | generic => exact h
  | _ => trivial

/-! ### Parts over stored parts -/

/-- Without what is stored, the parts of a tree spell its text. -/
theorem textOf_partsIn_erase {t : Tree} (h : t.Everywhere Legible) :
    textOf (t.erase.partsIn false) = t.text := by
  have hlegible : t.erase.Everywhere Legible :=
    (everywhere_erase t).2 (h.imp fun u ↦ legible_erase)
  rw [(spelled_of_everywhere t.erase (everywhere_parts_erase t) hlegible).slot]
  exact text_erase t

/-- The parts that are made for a node spell its text, when what is stored below is fresh. -/
theorem textOf_builtParts_of_fresh {t : Tree} (hfresh : t.Everywhere Fresh)
    (hlegible : t.Everywhere Legible) : textOf t.builtParts = t.text := by
  have hbare : (t.setParts none).Everywhere Fresh := by
    refine everywhere_iff.2 ⟨fun parts hparts ↦ ?_, fun c hc ↦ ?_⟩
    · rw [setParts, label_setLabel] at hparts
      cases hparts
    · rw [setParts, branches_setLabel] at hc
      exact hfresh.branch hc
  rw [builtParts, ← (uncached_of_everywhere _ hbare).slot, erase_setParts]
  exact textOf_partsIn_erase hlegible

/-- A node that stores what is made for it is displayed as its text. -/
theorem textOf_displayParts_of_stored {t : Tree} (hstored : t.label.parts = some t.erase.builtParts)
    (hproper : t.Everywhere Proper) (hlegible : t.Everywhere Legible) :
    textOf t.displayParts = t.text := by
  have hne : t.erase.partsIn false ≠ [] :=
    partsIn_ne_nil t.erase (everywhere_parts_erase t)
      ((everywhere_erase t).2 (hproper.imp fun u ↦ proper_erase))
  rw [builtParts_erase] at hstored
  rw [displayParts, Label.shown_of_parts_eq_some hstored hne]
  exact textOf_partsIn_erase hlegible

/-- A node that stores nothing is displayed by its name. -/
theorem textOf_displayParts_of_parts_eq_none {t : Tree} (h : t.label.parts = none) :
    textOf t.displayParts = t.name := by
  rw [displayParts, Label.shown_of_parts_eq_none h]
  simp

end Tree

end TypeLens
