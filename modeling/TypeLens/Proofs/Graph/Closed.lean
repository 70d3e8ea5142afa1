import TypeLens.Graph.Schema

/-!
# Closed snapshots

A snapshot is *closed* when everything it refers to exists. There are five kinds of references, and
`Snapshot.Closed` has one field for each: from types to types, from symbols to their types, to the
types they declare and to the symbols they are aliases of, and from the nodes of documents to
symbols.

Reading checks references once, by listing the dangling ones as texts (`Snapshot.dangling`). The
main result is that this listing forgets no kind: a snapshot that was read is closed
(`closed_of_parse`). Whoever asks a type graph afterwards needs only this fact, never the texts.
-/

namespace TypeLens.Graph.Snapshot

/-- Everything a snapshot refers to exists. -/
structure Closed (s : Snapshot) : Prop where
  /-- The types a type refers to exist. -/
  references : ∀ {id r}, s.type? id = some r → ∀ ref ∈ r.references, (s.type? ref).isSome
  /-- The type of a symbol exists. -/
  symbolType : ∀ {id r}, s.symbol? id = some r → (s.type? r.type).isSome
  /-- The type a symbol declares exists. -/
  declaredType : ∀ {id r}, s.symbol? id = some r →
    ∀ ref, r.declaredType = some ref → (s.type? ref).isSome
  /-- The symbol an alias stands for exists. -/
  aliasOf : ∀ {id r}, s.symbol? id = some r →
    ∀ ref, r.aliasOf = some ref → (s.symbol? ref).isSome
  /-- The symbols of the nodes of a document exist. -/
  nodes : ∀ {path d}, s.document? path = some d →
    ∀ n ∈ d.root.walk, ∀ ref, n.symbol = some ref → (s.symbol? ref).isSome

/-- What is found under a key is an entry. -/
private theorem mem_of_lookup {α : Type} {entries : List (String × α)} {key : String} {a : α}
    (h : entries.lookup key = some a) : (key, a) ∈ entries := by
  obtain ⟨before, after, rfl, -⟩ := List.lookup_eq_some_iff.1 h
  simp

theorem mem_types {s : Snapshot} {id : TypeId} {r : TypeRecord} (h : s.type? id = some r) :
    (id, r) ∈ s.types :=
  mem_of_lookup h

/-- Keys of which none is listed as missing are all found. -/
private theorem isSome_of_filter_isNone {α : Type} {find : String → Option α} {keys : List String}
    (h : keys.filter (fun key ↦ (find key).isNone) = []) {key : String} (hkey : key ∈ keys) :
    (find key).isSome := by
  have hfound := List.filter_eq_nil_iff.1 h key hkey
  exact Option.isSome_iff_ne_none.2 (by simpa using hfound)

section

variable {s : Snapshot}

/-- No type has a dangling reference when none is listed. -/
theorem isSome_type?_of_danglingTypes (h : s.danglingTypes = []) {id : TypeId} {r : TypeRecord}
    (hr : s.type? id = some r) {ref : TypeId} (href : ref ∈ r.references) :
    (s.type? ref).isSome := by
  have hnone := List.flatMap_eq_nil_iff.1 h (id, r) (mem_types hr)
  exact isSome_of_filter_isNone (List.map_eq_nil_iff.1 hnone) href

/-- No symbol has a dangling reference when none is listed. -/
theorem isSome_of_danglingSymbols (h : s.danglingSymbols = []) {id : SymbolId} {r : SymbolRecord}
    (hr : s.symbol? id = some r) :
    (∀ ref ∈ r.type :: r.declaredType.toList, (s.type? ref).isSome) ∧
      ∀ ref ∈ r.aliasOf.toList, (s.symbol? ref).isSome := by
  have hnone := List.flatMap_eq_nil_iff.1 h (id, r) (mem_of_lookup hr)
  obtain ⟨htypes, halias⟩ := List.append_eq_nil_iff.1 (List.map_eq_nil_iff.1 hnone)
  exact ⟨fun _ href ↦ isSome_of_filter_isNone htypes href,
    fun _ href ↦ isSome_of_filter_isNone halias href⟩

/-- No node has a dangling reference when none is listed. -/
theorem isSome_symbol?_of_danglingNodes (h : s.danglingNodes = []) {path : String} {d : Document}
    (hd : s.document? path = some d) {n : Node} (hn : n ∈ d.root.walk) {ref : SymbolId}
    (href : n.symbol = some ref) : (s.symbol? ref).isSome := by
  have hnone := List.flatMap_eq_nil_iff.1 h (path, d) (mem_of_lookup hd)
  have hmap := List.map_eq_nil_iff.1 (List.flatMap_eq_nil_iff.1 hnone n hn)
  exact isSome_of_filter_isNone hmap (by simp [href])

/-- **A snapshot without dangling references is closed.** -/
theorem closed_of_dangling (h : s.dangling = []) : s.Closed := by
  obtain ⟨hfront, hnodes⟩ := List.append_eq_nil_iff.1 h
  obtain ⟨htypes, hsymbols⟩ := List.append_eq_nil_iff.1 hfront
  refine ⟨?_, ?_, ?_, ?_, ?_⟩
  · intro id r hr ref href
    exact isSome_type?_of_danglingTypes htypes hr href
  · intro id r hr
    exact (isSome_of_danglingSymbols hsymbols hr).1 r.type List.mem_cons_self
  · intro id r hr ref href
    exact (isSome_of_danglingSymbols hsymbols hr).1 ref (by simp [href])
  · intro id r hr ref href
    exact (isSome_of_danglingSymbols hsymbols hr).2 ref (by simp [href])
  · intro path d hd n hn ref href
    exact isSome_symbol?_of_danglingNodes hnodes hd hn href

/-- What the refusal of dangling references lets through has none. -/
theorem dangling_of_danglingRefusal (h : s.danglingRefusal = none) : s.dangling = [] := by
  unfold danglingRefusal at h
  split at h
  · assumption
  · cases h

/-- A decoded snapshot has passed the check of its references. -/
theorem danglingRefusal_of_decode {v : Json} (h : decode v = .ok s) :
    s.danglingRefusal = none := by
  unfold decode Decoded.filter Decoded.andThen at h
  rcases hrecord : schema.closedRecord v with faults | s'
  · rw [hrecord] at h
    cases h
  · rw [hrecord] at h
    rcases hrefusal : s'.danglingRefusal with - | cause
    · simp only [hrefusal] at h
      obtain rfl := Except.ok.inj h
      exact hrefusal
    · simp only [hrefusal] at h
      cases h

/-- Bytes that were read as a snapshot held its data. -/
theorem exists_decode_of_parse {bytes : ByteArray} (h : parse bytes = .ok s) :
    ∃ v, decode v = .ok s := by
  unfold parse at h
  split at h
  · cases h
  · next v _ =>
    split at h
    · next s' hdecode =>
      obtain rfl := Except.ok.inj h
      exact ⟨v, hdecode⟩
    · cases h

/-- **A snapshot that was read is closed.** -/
theorem closed_of_parse {bytes : ByteArray} (h : parse bytes = .ok s) : s.Closed := by
  obtain ⟨v, hv⟩ := exists_decode_of_parse h
  exact closed_of_dangling (dangling_of_danglingRefusal (danglingRefusal_of_decode hv))

end

/-! ### A sample

A list node that refers to itself through a union, and a document that names it. -/

/-- The types of the sample. -/
def sampleTypes : List (TypeId × TypeRecord) :=
  [("node",
      { name := "Node"
        category := .object
        properties := [{ name := "next", type := "link" }] }),
    ("link",
      { name := "Node | undefined"
        category := .union
        members := ["nothing", "node"] }),
    ("nothing", { name := "undefined", category := .primitive })]

/-- The lines of the sample as a file. -/
def sampleLines : List String :=
  ["\x7b\"types\": \x7b", "\"node\": \x7b\"name\": \"Node\",", "\"category\": \"object\",",
    "\"properties\": [", "\x7b\"name\": \"next\",", "\"type\": \"link\"\x7d]\x7d,",
    "\"link\": \x7b", "\"name\": \"Node | undefined\",", "\"category\": \"union\",",
    "\"members\":", "[\"nothing\", \"node\"]\x7d,", "\"nothing\": \x7b",
    "\"name\": \"undefined\",", "\"category\": \"primitive\"\x7d\x7d,",
    "\"symbols\": \x7b\"head\":", "\x7b\"name\": \"head\",", "\"type\": \"node\"\x7d\x7d,",
    "\"documents\": \x7b\"list.ts\":", "\x7b\"text\": \"head\",", "\"root\": \x7b",
    "\"kind\": \"SourceFile\",", "\"start\": 0, \"end\": 4,", "\"children\": [\x7b",
    "\"kind\": \"Identifier\",", "\"start\": 0, \"end\": 4,",
    "\"symbol\": \"head\"\x7d]\x7d\x7d\x7d\x7d"]

/-- The sample as a file. -/
def sampleText : String :=
  .ofList (sampleLines.flatMap fun line ↦ line.toList ++ ['\n'])

/-- A text that passes a test once it is read, read from its bytes. -/
theorem exists_of_parse_toUTF8 {cs : List Char} {test : Snapshot → Bool}
    (h : ((Json.readValue? .snapshot (2 * cs.length + 2) 0 cs).any fun (v, rest) ↦
      (Json.skipSpace rest).isEmpty && (decode v).toOption.any test) = true) :
    ∃ s, parse (String.ofList cs).toUTF8 = .ok s ∧ test s = true := by
  have hbytes : String.fromUTF8? (String.ofList cs).toUTF8 = some (String.ofList cs) :=
    dif_pos (String.ofList cs).isValidUTF8
  rcases hread : Json.readValue? .snapshot (2 * cs.length + 2) 0 cs with - | ⟨v, rest⟩
  · simp [hread] at h
  · obtain ⟨hrest, htest⟩ : (Json.skipSpace rest).isEmpty = true ∧
        (decode v).toOption.any test = true := by simpa [hread] using h
    rcases hdecode : decode v with faults | s
    · simp [hdecode, Except.toOption] at htest
    · have hvalue : Json.readBytes? .snapshot (String.ofList cs).toUTF8 = some v := by
        rw [Json.readBytes?, hbytes]
        simp [Json.read?, hread, hrest]
      refine ⟨s, ?_, by simpa [hdecode, Except.toOption] using htest⟩
      rw [parse, hvalue]
      simp only [hdecode]

/-- The sample can be read. -/
theorem exists_parse_sampleText : ∃ s, parse sampleText.toUTF8 = .ok s ∧
    s.types = sampleTypes ∧ (s.type? "node").isSome := by
  obtain ⟨s, hs, htest⟩ : ∃ s, parse sampleText.toUTF8 = .ok s ∧ (s.types == sampleTypes) = true :=
    exists_of_parse_toUTF8 (by decide +kernel)
  have htypes : s.types = sampleTypes := eq_of_beq htest
  refine ⟨s, hs, htypes, ?_⟩
  rw [type?, htypes]
  decide

/-- The types of the sample are found by their identifiers. -/
theorem type?_of_sampleTypes {s : Snapshot} (h : s.types = sampleTypes) :
    s.type? "node" = some
        { name := "Node"
          category := .object
          properties := [{ name := "next", type := "link" }] } ∧
      s.type? "link" = some
        { name := "Node | undefined", category := .union, members := ["nothing", "node"] } ∧
      s.type? "nothing" = some { name := "undefined", category := .primitive } := by
  simp only [type?, h]
  exact ⟨rfl, rfl, rfl⟩

/-- The sample has a document. -/
theorem exists_document_sampleText {s : Snapshot} (h : parse sampleText.toUTF8 = .ok s) :
    ∃ d, s.document? "list.ts" = some d := by
  obtain ⟨s', hs', hdocument⟩ : ∃ s, parse sampleText.toUTF8 = .ok s ∧
      (s.document? "list.ts").isSome = true := exists_of_parse_toUTF8 (by decide +kernel)
  obtain rfl := Except.ok.inj (h.symm.trans hs')
  exact Option.isSome_iff_exists.1 hdocument

end TypeLens.Graph.Snapshot
