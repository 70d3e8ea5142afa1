import TypeLens.Proofs.Reply.Assembly
import TypeLens.Tool.Lookup

/-!
# The data that the look-up tool writes

A client may ask for the data of a reply as text, and integers beyond 64 bits cannot be written. The
data of a problem can be written if its details can (`isWritable_structured`), and the only details
with integers are those that name a position. The data of a finding can be written if its position
and its tree can (`isWritable_findingStructured`).
-/

namespace TypeLens.Tool

/-! ### Problems -/

section

variable (p : Reply.Problem) (hints : List String)

theorem get?_structured_meta : Fields.get? (p.structured hints) Reply.metaField = none := by
  unfold Reply.Problem.structured
  cases p.code <;> cases p.category <;> split <;> rfl

theorem get?_structured_code {c : Reply.Code} (h : p.code = some c) :
    Fields.get? (p.structured hints) "code" = some (.str c.word) := by
  unfold Reply.Problem.structured
  rw [h]
  rfl

/-- The data of a problem can be written if its details can. -/
theorem isWritable_structured :
    (Json.obj (p.structured hints)).isWritable = true ↔ ∀ e ∈ p.details, e.2.FitsBelow 2 := by
  have hstr : ∀ s : String, (Json.str s).FitsBelow 1 := Json.fitsBelow_str (by decide)
  have hdetails : (Json.obj p.details).FitsBelow 1 ↔ ∀ e ∈ p.details, e.2.FitsBelow 2 :=
    Json.fitsBelow_obj_iff (by decide)
  rw [Json.isWritable_iff, Json.fitsBelow_obj_iff (by decide), ← hdetails]
  unfold Reply.Problem.structured
  constructor
  · intro h
    by_cases hempty : p.details = []
    · rw [hempty]
      exact (Json.fitsBelow_obj_iff (by decide)).2 fun _ he ↦ (nomatch he)
    · exact h ("details", .obj p.details) (by simp [hempty])
  · intro h e he
    simp only [List.mem_append, List.mem_map, List.mem_singleton] at he
    rcases he with (((rfl | ⟨c, -, rfl⟩) | ⟨c, -, rfl⟩) | he) | rfl
    · exact hstr _
    · exact hstr _
    · exact hstr _
    · split at he
      · cases he
      · rw [List.mem_singleton.1 he]
        exact h
    · exact Json.fitsBelow_strings (by decide) hints

end

section

variable (input : LookupInput)

/-- What was asked for is repeated in strings only. -/
theorem fitsBelow_askedFor : ∀ e ∈ askedFor input, e.2.FitsBelow 2 := by
  have hstr : ∀ s : String, (Json.str s).FitsBelow 2 := Json.fitsBelow_str (by decide)
  intro e he
  rw [askedFor] at he
  rcases List.mem_append.1 he with he | he
  · rw [List.mem_singleton.1 he]
    exact hstr _
  · split at he
    · cases he
    · cases he
    · rw [List.mem_singleton.1 he]
      exact hstr _

theorem fitsBelow_documentProblem (session : Session) :
    ∀ e ∈ (documentProblem input session).details, e.2.FitsBelow 2 :=
  Fields.forall_put
    (Fields.forall_put (fitsBelow_askedFor input) (Json.fitsBelow_str (by decide) session.key))
    (Json.fitsBelow_strings (by decide) _)

end

/-- The details that name a position can be written if its numbers are not too large. -/
theorem fitsBelow_positionDetails_iff (i : Identity) (l : Location) :
    (∀ e ∈ positionDetails i l, e.2.FitsBelow 2) ↔
      (Json.isNarrow l.line && Json.isNarrow l.column) = true := by
  have hstr : (Json.str i.relative).FitsBelow 2 := Json.fitsBelow_str (by decide) i.relative
  have hint : ∀ n : Int, (Json.int n).FitsBelow 2 ↔ Json.isNarrow n = true :=
    fun n ↦ Json.fitsBelow_int_iff (by decide)
  simp [positionDetails, hstr, hint]

/-! ### Findings -/

section

variable (f : Finding)

theorem get?_findingStructured_meta : Fields.get? f.structured Reply.metaField = none := by
  unfold Finding.structured
  split <;> rfl

theorem get?_findingStructured_code : Fields.get? f.structured "code" = none := by
  unfold Finding.structured
  split <;> rfl

/-- Display parts hold only strings. -/
theorem fitsBelow_displayParts (parts : List Part) :
    (Json.arr (parts.map Part.toJson)).FitsBelow 1 := by
  refine (Json.fitsBelow_arr_iff (by decide)).2 fun v hv ↦ ?_
  obtain ⟨part, -, rfl⟩ := List.mem_map.1 hv
  refine (Json.fitsBelow_obj_iff (by decide)).2 ?_
  simp [Json.fitsBelow_str (show 3 ≤ Json.maxWrittenDepth by decide)]

/-- The data of a finding can be written if its numbers and its tree can. -/
theorem isWritable_findingStructured :
    (Json.obj f.structured).isWritable =
      (Json.isNarrow f.location.line && Json.isNarrow f.location.column && Json.isNarrow f.offset &&
        f.written.hasNarrowIntegers &&
          f.written.depth < Json.maxWrittenDepth) := by
  have hstr : ∀ s : String, (Json.str s).FitsBelow 1 := Json.fitsBelow_str (by decide)
  have hint : ∀ n : Int, (Json.int n).FitsBelow 1 ↔ Json.isNarrow n = true :=
    fun n ↦ Json.fitsBelow_int_iff (by decide)
  have hfile : (Json.obj [("uri", .str f.identity.uri),
      ("relative_path", .str f.identity.relative)]).FitsBelow 1 := by
    refine (Json.fitsBelow_obj_iff (by decide)).2 ?_
    simp [Json.fitsBelow_str (show 2 ≤ Json.maxWrittenDepth by decide)]
  have hposition : (Json.obj [("l", .int f.location.line), ("c", .int f.location.column)]).FitsBelow
      1 ↔ Json.isNarrow f.location.line = true ∧ Json.isNarrow f.location.column = true := by
    rw [Json.fitsBelow_obj_iff (by decide)]
    simp [Json.fitsBelow_int_iff (show 2 ≤ Json.maxWrittenDepth by decide)]
  have hkind : (Json.ofString? f.info.kind).FitsBelow 1 := by
    cases f.info.kind with
    | none => exact ⟨rfl, by decide⟩
    | some kind => exact hstr kind
  have htree : f.written.FitsBelow 1 ↔ f.written.hasNarrowIntegers = true ∧
      f.written.depth < Json.maxWrittenDepth := Iff.rfl
  have hparts : ∀ e ∈ if f.withParts then
      [("displayParts", Json.arr (f.info.tree.displayParts.map Part.toJson))] else [],
        e.2.FitsBelow 1 := by
    split
    · simpa using fitsBelow_displayParts _
    · simp
  rw [Bool.eq_iff_iff, Json.isWritable_iff, Json.fitsBelow_obj_iff (by decide), Finding.structured,
    List.forall_mem_append, and_iff_left hparts]
  simp [hstr, hint, hfile, hposition, hkind, htree, and_assoc]

end

end TypeLens.Tool
