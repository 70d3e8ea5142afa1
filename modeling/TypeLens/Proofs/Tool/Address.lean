import TypeLens.Proofs.Graph.Closed
import TypeLens.Proofs.Graph.Document
import TypeLens.Proofs.Session.Loaded
import TypeLens.Proofs.Text.Blank
import TypeLens.Proofs.Tool.Position
import TypeLens.Proofs.Uri.Literal
import TypeLens.Tool.Lookup

/-!
# Addresses of documents

A reply names a document by the URI of its absolute path, and a request may name a file by its URI.
So a client may send back what it was told. The request is always accepted, but **it addresses the
same document only if the path is literal, and has no white character at its end**
(`identify_uri_addresses_iff`). Any other path comes back shorter, and no path becomes longer when
it is normalized; so the request addresses another document, or none.
-/

namespace TypeLens

open TypeLens.Graph TypeLens.Path

/-! ### Paths of documents -/

namespace Session.Loaded

variable {session : Session}

/-- The documents of a loaded session have normalized paths. -/
theorem exists_documentPath (h : session.Loaded) (document : String) :
    ∃ p : Normal, session.oracle.documentPath document = p.text := by
  obtain ⟨p, hp⟩ := h.key_eq
  rw [Oracle.documentPath, h.base_eq, hp, p.parent_text]
  exact exists_normal_absolute p.up.isAbsolute_text document

theorem absolute_join (h : session.Loaded) (fs : FileSystem) (document : String) :
    fs.absolute (join (parent session.key) document) = session.oracle.documentPath document := by
  obtain ⟨p, hp⟩ := h.key_eq
  rw [FileSystem.absolute, Oracle.documentPath, h.base_eq, hp, p.parent_text, Path.absolute,
    Path.absolute, join, if_pos (isAbsolute_join p.up.isAbsolute_text document)]

end Session.Loaded

namespace Tool

/-! ### Paths that are sent back -/

/-- The path that is left of a path that a client sends back as a URI. -/
def returned (path : String) : String :=
  Text.trimWhite (.ofList (Uri.readBack path.toList))

/-- A path comes back as it is. -/
structure Returns (path : String) : Prop where
  /-- It has no other meaning in a URI. -/
  literal : Uri.Literal path.toList
  /-- No white character at its end is lost. -/
  trimmed : Text.trimWhite path = path

section

variable {path : String}

theorem returned_of_returns (h : Returns path) : returned path = path := by
  rw [returned, Uri.readBack_of_literal h.literal, String.ofList_toList, h.trimmed]

theorem isInfix_trimWhite (s : String) : (Text.trimWhite s).toList <:+: s.toList := by
  obtain ⟨front, back, hsplit, -⟩ := Text.exists_append_trim Text.isWhite s.toList
  exact ⟨front, back, by rw [Text.trimWhite, String.toList_ofList, ← hsplit]⟩

/-- A path that comes back is not shorter, and every other one is. -/
theorem returns_of_length_le (h : path.toList.length ≤ (returned path).toList.length) :
    Returns path := by
  have htrim := (isInfix_trimWhite (.ofList (Uri.readBack path.toList))).length_le
  rw [String.toList_ofList] at htrim
  have hliteral : Uri.Literal path.toList := Uri.literal_of_length_le (h.trans htrim)
  rw [returned, Uri.readBack_of_literal hliteral, String.ofList_toList] at h
  refine ⟨hliteral, String.toList_inj.1 ((isInfix_trimWhite path).eq_of_length ?_)⟩
  exact le_antisymm (isInfix_trimWhite path).length_le h

/-- An absolute path is returned as an absolute path. -/
theorem isAbsolute_returned (h : isAbsolute path = true) : isAbsolute (returned path) = true := by
  have hhead : (Uri.readBack path.toList).head? = some '/' :=
    Uri.head?_readBack (by simpa [isAbsolute] using h)
  obtain ⟨rest, hrest⟩ := List.head?_eq_some_iff.1 hhead
  rw [isAbsolute, returned, Text.trimWhite, String.toList_ofList, String.toList_ofList, hrest,
    Text.trim_cons (by decide)]
  rfl

/-- The URI of an absolute path is accepted. -/
theorem filePath_ofPath (h : isAbsolute path = true) :
    filePath (.str (Uri.ofPath path)) = .ok (returned path) := by
  have hne : returned path ≠ "" := by
    intro hempty
    have habsolute := isAbsolute_returned h
    rw [hempty] at habsolute
    cases habsolute
  rw [filePath, uriToPath, Uri.toPath_ofPath h]
  show Decoded.filter _ (Decoded.ok (returned path)) = _
  simp [Decoded.filter, hne]

end

/-! ### Documents that are addressed again -/

variable {session : Session}

/-- **The URI of a document leads back to the document exactly if its path comes back as it is.**
The URI is read as the path of the document if the path is literal. A request with the URI is always
accepted, and addresses a document with this path if besides no white character is lost. -/
theorem identify_uri_addresses_iff (h : session.Loaded) (fs : FileSystem) {document : String}
    (hdocument : document ∈ session.oracle.snapshot.documents.map Prod.fst) :
    (Uri.toPath (identify fs session document).uri =
        .ok (fs.absolute (join (parent session.key) document)) ↔
      Uri.Literal (fs.absolute (join (parent session.key) document)).toList) ∧
    ∃ file, (∀ line character : Nat,
        Location.decode (.obj [("uri", .str (identify fs session document).uri),
          ("position", editorPosition line character)]) =
            .ok ⟨none, file, line + 1, character + 1⟩) ∧
      ((∃ found, session.oracle.findDocument file = some found ∧
          session.oracle.documentPath found = session.oracle.documentPath document) ↔
        Returns (fs.absolute (join (parent session.key) document))) := by
  obtain ⟨p, hp⟩ := h.exists_documentPath document
  have huri : (identify fs session document).uri = Uri.ofPath p.text := by
    rw [identify, h.absolute_join, hp]
  rw [huri, h.absolute_join, hp]
  have hfile := filePath_ofPath p.isAbsolute_text
  refine ⟨Uri.toPath_ofPath_iff p.isAbsolute_text, _,
    decode_editorPosition (List.mem_cons_of_mem _ List.mem_cons_self) hfile, ?_⟩
  constructor
  · rintro ⟨found, hfound, hpath⟩
    -- The path that came back has the path of the document as its normal form, so it is as long.
    have hnormal : p.text = normalize (returned p.text) :=
      calc p.text = session.oracle.documentPath (returned p.text) :=
            hpath.symm.trans (Oracle.documentPath_of_findDocument hfound)
        _ = normalize (returned p.text) := by
            rw [Oracle.documentPath, Path.absolute, join,
              if_pos (isAbsolute_returned p.isAbsolute_text)]
    refine returns_of_length_le ?_
    have hle := length_normalize_le (isAbsolute_returned p.isAbsolute_text)
    rwa [← hnormal] at hle
  · intro hreturns
    have hpath : session.oracle.documentPath (returned p.text) = p.text := by
      rw [returned_of_returns hreturns, Oracle.documentPath, p.absolute_text]
    obtain ⟨found, hfound⟩ := Oracle.exists_findDocument hdocument (hpath.trans hp.symm)
    exact ⟨found, hfound, (Oracle.documentPath_of_findDocument hfound).trans hpath⟩

/-! ### Samples -/

/-- The document of the sample is addressed again. -/
theorem identify_uri_addresses_sample : ∃ content snapshot location found,
    Snapshot.parse content = .ok snapshot ∧
      (identify ⟨"/", []⟩ (.sample snapshot) "list.ts").uri = "file:///list.ts" ∧
      Location.decode (.obj [("uri", .str "file:///list.ts"), ("position", editorPosition 0 0)]) =
        .ok location ∧
      (Session.sample snapshot).oracle.findDocument location.file = some found ∧
      (Session.sample snapshot).oracle.documentPath found = "/list.ts" := by
  obtain ⟨content, snapshot, hparse, hdocument⟩ : ∃ content snapshot,
      Snapshot.parse content = .ok snapshot ∧
        "list.ts" ∈ snapshot.documents.map Prod.fst := by
    obtain ⟨snapshot, hparse, -⟩ := Snapshot.exists_parse_sampleText
    obtain ⟨d, hd⟩ := Snapshot.exists_document_sampleText hparse
    obtain ⟨entry, hentry, hname⟩ := List.lookup_isSome_iff.1 (Option.isSome_of_mem hd)
    exact ⟨_, snapshot, hparse, List.mem_map.2 ⟨entry, hentry, (eq_of_beq hname).symm⟩⟩
  have hpath : FileSystem.absolute ⟨"/", []⟩ (join (parent "/s") "list.ts") = "/list.ts" := by
    decide +kernel
  have huri : (identify ⟨"/", []⟩ (.sample snapshot) "list.ts").uri = "file:///list.ts" := by
    show Uri.ofPath (FileSystem.absolute ⟨"/", []⟩ (join (parent "/s") "list.ts")) = _
    rw [hpath]
    decide +kernel
  have hreturns : Returns "/list.ts" := ⟨by decide +kernel, by decide +kernel⟩
  obtain ⟨-, file, hdecode, haddresses⟩ :=
    identify_uri_addresses_iff (Session.loaded_sample hparse) ⟨"/", []⟩ hdocument
  rw [huri] at hdecode
  obtain ⟨found, hfound, hfoundPath⟩ := haddresses.2 (by rwa [Session.sample, hpath])
  have hdocumentPath := (Session.loaded_sample hparse).absolute_join ⟨"/", []⟩ "list.ts"
  rw [show (Session.sample snapshot).key = "/s" from rfl, hpath] at hdocumentPath
  exact ⟨content, snapshot, _, found, hparse, huri, hdecode 0 0, hfound,
    hfoundPath.trans hdocumentPath.symm⟩

/-- The lines of a sample as a file. The name of its document has an escape. -/
def escapedLines : List String :=
  ["\x7b\"types\": \x7b\x7d,", "\"symbols\": \x7b\x7d,",
    "\"documents\": \x7b\"a%20b.ts\":", "\x7b\"text\": \"\",",
    "\"root\": \x7b\"kind\": \"SourceFile\",", "\"start\": 0, \"end\": 0\x7d\x7d\x7d\x7d"]

/-- The sample as a file. -/
def escapedText : String :=
  .ofList (escapedLines.flatMap String.toList)

/-- **A document with an escape in its name is not addressed again.** Its URI names a file that the
session does not have. -/
theorem escaped_document_lost : ∃ content snapshot, Snapshot.parse content = .ok snapshot ∧
    "a%20b.ts" ∈ snapshot.documents.map Prod.fst ∧
    FileSystem.absolute ⟨"/", []⟩ (join (parent (Session.sample snapshot).key) "a%20b.ts") =
      "/a%20b.ts" ∧
    Uri.toPath (identify ⟨"/", []⟩ (.sample snapshot) "a%20b.ts").uri = .ok "/a b.ts" ∧
    (Session.sample snapshot).oracle.findDocument "/a b.ts" = none := by
  obtain ⟨content, snapshot, hparse, htest⟩ : ∃ content snapshot,
      Snapshot.parse content = .ok snapshot ∧
        (snapshot.documents.map Prod.fst == ["a%20b.ts"]) = true :=
    ⟨escapedText.toUTF8, Snapshot.exists_of_parse_toUTF8 (by decide +kernel)⟩
  have hdocuments : snapshot.documents.map Prod.fst = ["a%20b.ts"] := eq_of_beq htest
  have hpath : FileSystem.absolute ⟨"/", []⟩ (join (parent "/s") "a%20b.ts") = "/a%20b.ts" := by
    decide +kernel
  refine ⟨content, snapshot, hparse, by simp [hdocuments], hpath, ?_, ?_⟩
  · show Uri.toPath (Uri.ofPath (FileSystem.absolute ⟨"/", []⟩ (join (parent "/s") "a%20b.ts"))) = _
    rw [hpath]
    rfl
  · have hother : (Path.absolute "/" "a%20b.ts" == Path.absolute "/" "/a b.ts") = false := by
      decide +kernel
    rw [Oracle.findDocument]
    simp [Session.sample, hdocuments, Oracle.documentPath, hother]

end Tool

end TypeLens
