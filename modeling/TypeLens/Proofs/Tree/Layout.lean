import TypeLens.Proofs.Layout.Compact
import TypeLens.Proofs.Tree.Entry

/-!
# The keys of a tree in its layout

The text of a tree declares the key of every property it shows (`Tree.Shows.declares`), so what is
known of declared keys says which keys come through the layout of the tree
(`Tree.layout_keeps_key`). A quoted key without braces and semicolons always does, whatever the
other properties and the types of the tree are called. But a line is broken at a brace or a
semicolon in a quoted key as at any other (`Tree.layout_breaks_key`).
-/

namespace TypeLens.Tree

open Layout

/-- The text of a tree declares the key of every property it shows. -/
theorem Shows.declares {t : Tree} {p : Property Tree} (h : t.Shows p) :
    Declares (Key.quote p.name).toList t.text.toList := by
  obtain ⟨before, mark, behind, hmark, htext⟩ := h.holdsEntry
  have hmodifier : (readonlyText p.readonly).toList = [] ∨
      (readonlyText p.readonly).toList = "readonly ".toList := by
    cases p.readonly
    · exact .inl rfl
    · exact .inr rfl
  have hoptional : (optionalText p.optional).toList = [] ∨
      (optionalText p.optional).toList = ['?'] := by
    cases p.optional
    · exact .inl rfl
    · exact .inr rfl
  obtain ⟨start, hstart, hstartText⟩ :
      ∃ start, (start = '{' ∨ start = ';') ∧ mark.toList = [start, ' '] := by
    rcases hmark with rfl | rfl
    · exact ⟨'{', .inl rfl, rfl⟩
    · exact ⟨';', .inr rfl, rfl⟩
  have hsplit : t.text.toList = before.toList ++ start :: ' ' ::
      ((readonlyText p.readonly).toList ++ ((Key.quote p.name).toList ++
        ((optionalText p.optional).toList ++
          ':' :: (' ' :: ((p.type.textIn p.optional).toList ++ ';' :: behind.toList))))) := by
    rw [htext, propertyTextOf_eq, propertyText]
    simp [hstartText]
  rw [hsplit]
  exact .intro hstart hmodifier hoptional

/-- **Keys in the layout of a tree.** A key without braces and semicolons is found whole in the
layout of a tree that shows its property, if it is quoted or there are no imports. Where the text of
the tree has neither placeholders nor imports, a key is found whole exactly if it is compact. -/
theorem layout_keeps_key {t : Tree} {p : Property Tree} {indentation : Int} (hshown : t.Shows p)
    (hname : '\n' ∉ p.name.toList) (hwidth : 1 ≤ indentation) :
    (Smooth (Key.quote p.name).toList →
        Key.isBare p.name.toList = false ∨ ¬"typeof import(\"".toList <:+: t.text.toList →
          (Key.quote p.name).toList <:+: (pretty t.text indentation).toList) ∧
      (¬"$\x7b".toList <:+: t.text.toList → ¬"typeof import(\"".toList <:+: t.text.toList →
        ((Key.quote p.name).toList <:+: (pretty t.text indentation).toList ↔
          Compact (Key.quote p.name).toList)) := by
  have hchars : (Key.quote p.name).toList = Key.quoteChars p.name.toList := String.toList_ofList
  have hkey : Spelling (Key.quote p.name).toList := hchars ▸ spelling_quoteChars hname
  have hfeed : '\n' ∉ (Key.quote p.name).toList := hchars ▸ newline_not_mem_quoteChars hname
  rw [toList_importOpening, toList_pretty hwidth]
  constructor
  · intro hsmooth hquoted
    refine hshown.declares.infix_reflow hkey hsmooth hfeed (hquoted.imp_left fun hbare ↦ ?_) _
    exact ⟨p.name.toList, by rw [hchars, Key.quoteChars, if_neg (by simp [hbare])]; rfl⟩
  · exact fun hplaceholder himport ↦
      hshown.declares.infix_reflow_iff hkey hfeed hplaceholder himport _

/-- A cell whose key has empty braces. -/
def sampleCell : Property Tree :=
  ⟨"x\x7b\x7d", true, false, primitive ⟨"string", none⟩⟩

/-- A column of such cells, whose key needs quotes. -/
def sampleColumn : Property Tree :=
  ⟨"a-b", false, true, object ⟨"Cell", none⟩ [sampleCell] 0⟩

/-- Two keys of the sample's object stand in its layout as they were quoted. -/
theorem layout_keeps_key_sample :
    "\"a-b\"".toList <:+: (pretty (object ⟨"Row", none⟩ [sampleColumn] 0).text 2).toList ∧
      "\"x\x7b\x7d\"".toList <:+:
        (pretty (object ⟨"Row", none⟩ [sampleColumn] 0).text 2).toList := by
  have hcolumn : (object ⟨"Row", none⟩ [sampleColumn] 0).Shows sampleColumn := .own (by simp)
  have hcell : (object ⟨"Row", none⟩ [sampleColumn] 0).Shows sampleCell :=
    .deeper (List.mem_singleton_self _) (.own (List.mem_singleton_self _))
  have hcompact : Compact (['"', 'x'] ++ '{' :: ([] ++ '}' :: ['"'])) :=
    .group (by decide) (.inl rfl) (.smooth (by decide))
  constructor
  · exact (layout_keeps_key hcolumn (by decide) (by decide)).1 (by decide) (.inl (by decide))
  · exact ((layout_keeps_key hcell (by decide) (by decide)).2 (by decide +kernel)
      (by decide +kernel)).2 hcompact

/-- A property whose key has a semicolon. -/
def sampleBroken : Property Tree :=
  ⟨"a;b", false, false, primitive ⟨"string", none⟩⟩

/-- **Not every key is found whole in the layout of its tree.** A line is broken behind the
semicolon of a quoted key. -/
theorem layout_breaks_key : ¬∀ (l : Label) (ps : List (Property Tree)) (e : Int)
    (p : Property Tree) (indentation : Int), (object l ps e).Shows p → '\n' ∉ p.name.toList →
      1 ≤ indentation →
        (Key.quote p.name).toList <:+: (pretty (object l ps e).text indentation).toList := by
  intro h
  have hlayout : pretty (object ⟨"O", none⟩ [sampleBroken] 0).text 2 =
      "\x7b\n  \"a;\n  b\": string;\n\x7d" := by
    decide +kernel
  have hword := h ⟨"O", none⟩ [sampleBroken] 0 sampleBroken 2 (.own (List.mem_singleton_self _))
    (by decide) (by decide)
  rw [hlayout] at hword
  exact absurd hword (by decide +kernel)

end TypeLens.Tree
