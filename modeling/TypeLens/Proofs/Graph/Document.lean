import Mathlib.Data.List.Nodup
import TypeLens.Graph.Oracle
import TypeLens.Proofs.Path.Join

/-!
# Documents by their paths

A document is looked for in two ways: a key that is spelled as the path is taken at once, and
otherwise the first key with the same absolute path. Either way the document found has the path that
was asked for (`documentPath_of_findDocument`), and one is found whenever there is one
(`exists_findDocument`).

If no two keys have the same absolute path, the two ways cannot contradict each other. **Then only
the absolute path decides which document is found**, however it is spelled, and the absolute path of
a document leads to it (`documentKey_normalized`).
-/

namespace TypeLens.Graph.Oracle

open TypeLens.Path

variable {o : Oracle} {path document found : String}

/-! ### What is found -/

/-- What is found is a key of the snapshot. -/
theorem mem_keys_of_findDocument (h : o.findDocument path = some found) :
    found ∈ o.snapshot.documents.map Prod.fst := by
  unfold findDocument at h
  dsimp only at h
  split at h
  · next hmem =>
    obtain rfl := Option.some.inj h
    exact hmem
  · exact List.mem_of_find?_eq_some h

/-- The key that is found is that of a document. -/
theorem isSome_document?_of_findDocument (h : o.findDocument path = some found) :
    (o.snapshot.document? found).isSome := by
  obtain ⟨entry, hentry, rfl⟩ := List.mem_map.1 (mem_keys_of_findDocument h)
  exact List.lookup_isSome_iff.2 ⟨entry, hentry, beq_self_eq_true _⟩

/-- The key of a document that is found names this document. -/
theorem findDocument_self (h : o.findDocument path = some document) :
    o.findDocument document = some document :=
  if_pos (mem_keys_of_findDocument h)

/-- The document that is found has the path that was asked for. -/
theorem documentPath_of_findDocument (h : o.findDocument path = some found) :
    o.documentPath found = o.documentPath path := by
  unfold findDocument at h
  dsimp only at h
  split at h
  · rw [Option.some.inj h]
  · simpa using List.find?_some h

/-- A document is found by every spelling of its path. -/
theorem exists_findDocument (hdocument : document ∈ o.snapshot.documents.map Prod.fst)
    (hpath : o.documentPath path = o.documentPath document) :
    ∃ found, o.findDocument path = some found := by
  unfold findDocument
  dsimp only
  split
  · exact ⟨path, rfl⟩
  · refine Option.isSome_iff_exists.1 (List.find?_isSome.2 ⟨document, hdocument, ?_⟩)
    exact beq_iff_eq.2 hpath.symm

/-! ### Documents with different paths -/

/-- When no two documents have the same path, the one with the path is found. -/
theorem findDocument_eq_some_iff
    (h : ((o.snapshot.documents.map Prod.fst).map o.documentPath).Nodup) :
    o.findDocument path = some document ↔
      document ∈ o.snapshot.documents.map Prod.fst ∧
        o.documentPath document = o.documentPath path := by
  refine ⟨fun hfound ↦ ⟨mem_keys_of_findDocument hfound, documentPath_of_findDocument hfound⟩, ?_⟩
  rintro ⟨hdocument, hpath⟩
  obtain ⟨found, hfound⟩ := exists_findDocument hdocument hpath.symm
  obtain rfl : found = document :=
    List.inj_on_of_nodup_map h (mem_keys_of_findDocument hfound) hdocument
      ((documentPath_of_findDocument hfound).trans hpath.symm)
  exact hfound

/-- No document is found exactly if none has the path that was asked for. -/
theorem findDocument_eq_none_iff :
    o.findDocument path = none ↔
      ∀ document ∈ o.snapshot.documents.map Prod.fst,
        o.documentPath document ≠ o.documentPath path := by
  constructor
  · intro hnone document hdocument hpath
    obtain ⟨found, hfound⟩ := exists_findDocument hdocument hpath.symm
    rw [hnone] at hfound
    cases hfound
  · intro hdifferent
    rw [Option.eq_none_iff_forall_ne_some]
    exact fun found hfound ↦ hdifferent found (mem_keys_of_findDocument hfound)
      (documentPath_of_findDocument hfound)

/-- The path of a document is seen from the working directory. -/
theorem documentPath_eq {working baseDir : String} (hworking : isAbsolute working = true)
    (hbase : o.base = absolute working baseDir) (path : String) :
    o.documentPath path = absolute working (join baseDir path) := by
  rw [documentPath, hbase, absolute_absolute hworking]

/-- **Only the normalized path decides which document is found.** Take an oracle that starts the
paths of documents from any directory, as seen from the working directory, and whose documents have
different absolute paths. It answers with a key exactly if this is a document with the absolute path
of what was asked for, and with none exactly if there is no such document. So all spellings of a
path have the same answer, and the absolute path of a document leads to it. -/
theorem documentKey_normalized {working baseDir : String} (hworking : isAbsolute working = true)
    (hbase : o.base = absolute working baseDir) (hintact : o.broken ≠ some .documentKey)
    (hkeys : ((o.snapshot.documents.map Prod.fst).map
      fun key ↦ absolute working (join baseDir key)).Nodup) :
    (∀ path, o.documentKey path = pure (o.findDocument path)) ∧
    (∀ path key, o.findDocument path = some key ↔ key ∈ o.snapshot.documents.map Prod.fst ∧
      absolute working (join baseDir key) = absolute working (join baseDir path)) ∧
    (∀ path, o.findDocument path = none ↔ ∀ key ∈ o.snapshot.documents.map Prod.fst,
      absolute working (join baseDir key) ≠ absolute working (join baseDir path)) ∧
    (∀ path path', absolute working (join baseDir path) = absolute working (join baseDir path') →
      o.findDocument path = o.findDocument path') ∧
    ∀ key ∈ o.snapshot.documents.map Prod.fst,
      o.findDocument (absolute working (join baseDir key)) = some key := by
  simp only [← documentPath_eq hworking hbase] at hkeys ⊢
  refine ⟨fun path ↦ if_neg hintact, fun path key ↦ findDocument_eq_some_iff hkeys,
    fun path ↦ findDocument_eq_none_iff, fun path path' hpath ↦ ?_, fun key hkey ↦ ?_⟩
  · ext key
    rw [findDocument_eq_some_iff hkeys, findDocument_eq_some_iff hkeys, hpath]
  · have habsolute : isAbsolute o.base = true := by
      obtain ⟨p, hp⟩ := exists_normal_absolute hworking baseDir
      rw [hbase, hp, p.isAbsolute_text]
    exact (findDocument_eq_some_iff hkeys).2
      ⟨hkey, (absolute_idempotent habsolute key).symm⟩

/-- Two documents, one of them outside the directory that paths start from. -/
def spelled : Oracle where
  snapshot.documents :=
    [("src/a.ts", ⟨"", ⟨"SourceFile", 0, 0, none, []⟩⟩),
      ("//b.ts", ⟨"", ⟨"SourceFile", 0, 0, none, []⟩⟩)]
  base := "/w"

/-- Other spellings of the two documents. -/
theorem documentKey_normalized_sample :
    spelled.documentKey "./src/..//src/a.ts/" = pure (some "src/a.ts") ∧
      spelled.findDocument "//b.ts" = spelled.findDocument "//c/../b.ts" ∧
      spelled.findDocument "/w/src/a.ts" = some "src/a.ts" ∧
      spelled.findDocument "/b.ts" = none := by
  have hbase : spelled.base = absolute "/w" "pkg/.." := by decide +kernel
  obtain ⟨hkey, hsome, hnone, hsame, hself⟩ :=
    documentKey_normalized (by decide) hbase (by decide) (by decide +kernel)
  have ha : spelled.findDocument "./src/..//src/a.ts/" = some "src/a.ts" :=
    (hsome _ _).2 ⟨by decide, by decide +kernel⟩
  have hpath : absolute "/w" (join "pkg/.." "src/a.ts") = "/w/src/a.ts" := by decide +kernel
  refine ⟨by rw [hkey, ha], hsame _ _ (by decide +kernel), ?_, (hnone _).2 (by decide +kernel)⟩
  rw [← hpath]
  exact hself "src/a.ts" (by decide)

end TypeLens.Graph.Oracle
