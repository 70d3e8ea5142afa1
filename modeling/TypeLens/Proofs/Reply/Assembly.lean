import Mathlib.Logic.Basic
import TypeLens.Reply

/-!
# How a reply is put together

A reply is a summary and blocks, cut to the limit, beside its structured data. Cutting never leaves
it without a block, and apart from remarks under a name of their own the structured data stay as
they are. So the only thing that can go wrong is that the client asks for the data as text and they
cannot be written (`assemble_eq`): the remarks themselves can always be written.
-/

namespace TypeLens

namespace Fields

variable {fields : Fields} {key : String} {P : Json → Prop}

/-- A member that was not there is added at the end. -/
theorem put_of_get?_eq_none (h : fields.get? key = none) (value : Json) :
    fields.put key value = fields ++ [(key, value)] := by
  induction fields with
  | nil => rfl
  | cons field rest ih =>
    obtain ⟨k, v⟩ := field
    have hne : (key == k) = false := by
      cases hkey : key == k with
      | false => rfl
      | true => simp [get?, List.lookup_cons, hkey] at h
    have hrest : Fields.get? rest key = none := by
      simpa [get?, List.lookup_cons, hne] using h
    have hkey : k ≠ key := fun e ↦ by simp [e] at hne
    rw [put, if_neg hkey, ih hrest, List.cons_append]

/-- Of two values put under one name the second one counts. -/
theorem put_put (fields : Fields) (key : String) (value value' : Json) :
    (fields.put key value).put key value' = fields.put key value' := by
  induction fields with
  | nil => simp [put]
  | cons field rest ih =>
    obtain ⟨k, v⟩ := field
    by_cases hk : k = key
    · simp [put, hk]
    · simp only [put, if_neg hk, ih]

/-- What holds of all members and of a new one holds after the new one is put. -/
theorem forall_put {value : Json} (h : ∀ e ∈ fields, P e.2) (hvalue : P value) :
    ∀ e ∈ fields.put key value, P e.2 := by
  induction fields with
  | nil => simpa [put] using hvalue
  | cons field rest ih =>
    obtain ⟨k, v⟩ := field
    obtain ⟨hfield, hrest⟩ := List.forall_mem_cons.1 h
    rw [put]
    split
    · exact List.forall_mem_cons.2 ⟨hvalue, hrest⟩
    · exact List.forall_mem_cons.2 ⟨hfield, ih hrest⟩

/-- What holds of the members of two objects holds after they are merged. -/
theorem forall_merge {others : Fields} (h : ∀ e ∈ fields, P e.2) (hothers : ∀ e ∈ others, P e.2) :
    ∀ e ∈ fields.merge others, P e.2 := by
  rw [merge]
  induction others generalizing fields with
  | nil => exact h
  | cons other others ih =>
    obtain ⟨hother, hrest⟩ := List.forall_mem_cons.1 hothers
    exact ih (forall_put h hother) hrest

end Fields

namespace Json

/-- Whether a value can be written as part of a value of a greater depth. -/
def FitsBelow (levels : Nat) (v : Json) : Prop :=
  v.hasNarrowIntegers = true ∧ v.depth + levels ≤ maxWrittenDepth

theorem itemsHaveNarrowIntegers_iff {items : List Json} :
    itemsHaveNarrowIntegers items = true ↔ ∀ v ∈ items, v.hasNarrowIntegers = true := by
  induction items with
  | nil => simp [itemsHaveNarrowIntegers]
  | cons item items ih => simp [itemsHaveNarrowIntegers, ih]

theorem depthItems_le_iff {items : List Json} {n : Nat} :
    depthItems items ≤ n ↔ ∀ v ∈ items, v.depth ≤ n := by
  induction items with
  | nil => simp [depthItems]
  | cons item items ih => rw [depthItems, Nat.max_le, ih, List.forall_mem_cons]

theorem fieldsHaveNarrowIntegers_iff {fields : Fields} :
    fieldsHaveNarrowIntegers fields = true ↔ ∀ e ∈ fields, e.2.hasNarrowIntegers = true := by
  induction fields with
  | nil => simp [fieldsHaveNarrowIntegers]
  | cons field rest ih => simp [fieldsHaveNarrowIntegers, ih]

theorem depthFields_le_iff {fields : Fields} {n : Nat} :
    depthFields fields ≤ n ↔ ∀ e ∈ fields, e.2.depth ≤ n := by
  induction fields with
  | nil => simp [depthFields]
  | cons field rest ih => rw [depthFields, Nat.max_le, ih, List.forall_mem_cons]

section

variable {levels : Nat}

theorem fitsBelow_str (h : levels ≤ maxWrittenDepth) (s : String) : FitsBelow levels (str s) :=
  ⟨rfl, by rwa [show (str s).depth = 0 from rfl, Nat.zero_add]⟩

theorem fitsBelow_int_iff (h : levels ≤ maxWrittenDepth) {n : Int} :
    FitsBelow levels (int n) ↔ isNarrow n = true := by
  rw [FitsBelow, hasNarrowIntegers, show (int n).depth = 0 from rfl, Nat.zero_add]
  exact and_iff_left h

/-- A value that is one level deeper than its parts. -/
theorem succ_depth_le_iff (h : levels < maxWrittenDepth) {d : Nat} :
    d + 1 + levels ≤ maxWrittenDepth ↔ d ≤ maxWrittenDepth - (levels + 1) := by
  omega

/-- An array can be written if its items can, one level below. -/
theorem fitsBelow_arr_iff (h : levels < maxWrittenDepth) {items : List Json} :
    FitsBelow levels (arr items) ↔ ∀ v ∈ items, FitsBelow (levels + 1) v := by
  rw [FitsBelow, hasNarrowIntegers, itemsHaveNarrowIntegers_iff, depth, succ_depth_le_iff h,
    depthItems_le_iff, ← forall₂_and]
  exact forall₂_congr fun v _ ↦ and_congr_right fun _ ↦ by omega

/-- An object can be written if its members can, one level below. -/
theorem fitsBelow_obj_iff (h : levels < maxWrittenDepth) {fields : Fields} :
    FitsBelow levels (obj fields) ↔ ∀ e ∈ fields, FitsBelow (levels + 1) e.2 := by
  rw [FitsBelow, hasNarrowIntegers, fieldsHaveNarrowIntegers_iff, depth, succ_depth_le_iff h,
    depthFields_le_iff, ← forall₂_and]
  exact forall₂_congr fun e _ ↦ and_congr_right fun _ ↦ by omega

theorem fitsBelow_strings (h : levels < maxWrittenDepth) (texts : List String) :
    FitsBelow levels (strings texts) := by
  refine (fitsBelow_arr_iff h).2 fun v hv ↦ ?_
  obtain ⟨text, -, rfl⟩ := List.mem_map.1 hv
  exact fitsBelow_str h text

end

/-- What can be written is what fits at the top. -/
theorem isWritable_iff {v : Json} : v.isWritable = true ↔ v.FitsBelow 0 := by
  simp [isWritable, FitsBelow]

/-- An object with one more member that can be written can be written if it could be before. -/
theorem isWritable_obj_append {fields : Fields} {key : String} {v : Json} (hv : v.FitsBelow 1) :
    (obj (fields ++ [(key, v)])).isWritable = (obj fields).isWritable := by
  rw [Bool.eq_iff_iff, isWritable_iff, isWritable_iff, fitsBelow_obj_iff (by decide),
    fitsBelow_obj_iff (by decide)]
  constructor
  · exact fun h e he ↦ h e (List.mem_append_left _ he)
  · intro h e he
    rcases List.mem_append.1 he with he | he
    · exact h e he
    · rw [List.mem_singleton.1 he]
      exact hv

end Json

namespace Reply

/-! ### Remarks -/

/-- The remarks on a reply that was cut can be written. -/
theorem fitsBelow_truncationRemarks (sections : List String) :
    ∀ e ∈ truncationRemarks characterLimit sections, e.2.FitsBelow 2 := by
  intro e he
  rw [truncationRemarks] at he
  rcases List.mem_append.1 he with he | he
  · simp only [List.mem_cons, List.not_mem_nil, or_false] at he
    rcases he with rfl | rfl | rfl
    · exact ⟨rfl, show 0 + 2 ≤ Json.maxWrittenDepth by decide⟩
    · exact (Json.fitsBelow_int_iff (by decide)).2 (by decide)
    · exact Json.fitsBelow_str (by decide) _
  · split at he
    · cases he
    · rw [List.mem_singleton.1 he]
      exact Json.fitsBelow_strings (by decide) sections

/-! ### Blocks -/

theorem length_blocksFrom (isFirst : Bool) (i : Nat) (items : List Json) :
    (blocksFrom isFirst i items).length = items.length := by
  induction items generalizing isFirst i with
  | nil => rfl
  | cons item items ih => simp [blocksFrom, ih]

/-- Cutting texts back leaves all blocks. -/
theorem length_cutBack (bs : List Block) (excess : Nat) :
    (cutBack bs excess).1.length = bs.length := by
  induction bs with
  | nil => rfl
  | cons b bs ih =>
    rw [cutBack]
    cases b.counted with
    | none => simp [ih]
    | some c =>
      dsimp only
      split <;> simp [ih]

/-- No block is lost. -/
theorem length_le_limitContent (limit : Int) (items : List Json) :
    items.length ≤ (limitContent limit items).items.length := by
  rw [limitContent]
  dsimp only
  split
  · exact Nat.le_refl _
  · rw [List.length_append, length_cutBack, blocks, length_blocksFrom]
    exact Nat.le_add_right _ _

/-! ### Replies -/

/-- A reply with at least one block, with the flag and, apart from remarks, the data given. -/
structure Carries (isError : Bool) (fields : Fields) (reply : Reply) : Prop where
  /-- There is a block. -/
  content_ne_nil : reply.content ≠ []
  /-- The flag is the one given. -/
  isError_eq : reply.isError = isError
  /-- The data are those given. -/
  data_eq : ∃ data, reply.structured = some data ∧
    ∀ key, key ≠ metaField → Fields.get? data key = fields.get? key

variable {fields : Fields}

/-- What a reply is made of: the data without remarks, or with remarks that can be written. -/
theorem withRemarks?_cases (hmeta : fields.get? metaField = none) (limited : Limited) :
    ∃ data, withRemarks? characterLimit (some fields) limited = some (some data) ∧
      ∃ remarks, remarks? data = some remarks ∧ (∀ e ∈ remarks, e.2.FitsBelow 2) ∧
        (data = fields ∨ data = fields.put metaField (.obj remarks)) := by
  have hnone : remarks? fields = some [] := by rw [remarks?, hmeta]
  rw [withRemarks?]
  split
  · refine ⟨_, by simp [hnone], Fields.merge [] (truncationRemarks characterLimit limited.sections),
      by simp [remarks?], Fields.forall_merge (by simp) (fitsBelow_truncationRemarks _), .inr rfl⟩
  · exact ⟨fields, rfl, [], hnone, by simp, .inl rfl⟩

/-- With the summary the data are the same but for remarks, and can be written or not as before. -/
theorem withSummary?_cases {data remarks : Fields} (headline : String)
    (hmeta : fields.get? metaField = none) (hremarks : remarks? data = some remarks)
    (hfits : ∀ e ∈ remarks, e.2.FitsBelow 2)
    (hdata : data = fields ∨ data = fields.put metaField (.obj remarks)) :
    ∃ remarks' : Fields, withSummary? headline data = some (fields.put metaField (.obj remarks')) ∧
      (Json.obj (fields.put metaField (.obj remarks'))).isWritable =
        (Json.obj fields).isWritable := by
  have hput : ∀ v, data.put metaField v = fields.put metaField v := by
    rcases hdata with rfl | rfl
    · exact fun _ ↦ rfl
    · exact Fields.put_put fields metaField (.obj remarks)
  have hsummary : (Json.str headline).FitsBelow 2 := Json.fitsBelow_str (by decide) headline
  obtain ⟨remarks', hsome, hfits'⟩ : ∃ remarks' : Fields,
      withSummary? headline data = some (fields.put metaField (.obj remarks')) ∧
        ∀ e ∈ remarks', e.2.FitsBelow 2 := by
    refine ⟨if remarks.has "summary" then remarks else remarks.put "summary" (.str headline), ?_,
      ?_⟩
    · rw [withSummary?, hremarks, ← hput]
      rfl
    · split
      · exact hfits
      · exact Fields.forall_put hfits hsummary
  refine ⟨remarks', hsome, ?_⟩
  rw [Fields.put_of_get?_eq_none hmeta]
  exact Json.isWritable_obj_append ((Json.fitsBelow_obj_iff (by decide)).2 hfits')

/-- **A reply can be made unless its data are asked for as text and cannot be written.** -/
theorem assemble_eq (s : Setting) (headline : String) (details : List String) (extra : List Json)
    (isError : Bool) (hmeta : fields.get? metaField = none) :
    if s.format = .json ∧ (Json.obj fields).isWritable = false then
      assemble s headline details (some fields) extra isError = .error .notWritable
    else
      ∃ reply, assemble s headline details (some fields) extra isError = .ok reply ∧
        Carries isError fields reply := by
  obtain ⟨items, hitems⟩ : ∃ items, items = textBlock (summary headline details) :: extra :=
    ⟨_, rfl⟩
  obtain ⟨first, rest, hlimited⟩ : ∃ first rest,
      (limitContent characterLimit items).items = first :: rest := by
    have hlength := length_le_limitContent characterLimit items
    rw [hitems] at hlength ⊢
    exact List.exists_cons_of_length_pos (Nat.lt_of_lt_of_le (Nat.succ_pos _) hlength)
  -- Remarks on what was cut go under a key of their own, so they hide no member of the data.
  obtain ⟨data, hdata, remarks, hremarks, hfits, heq⟩ :=
    withRemarks?_cases hmeta (limitContent characterLimit items)
  have hother : ∀ v key, key ≠ metaField →
      Fields.get? (fields.put metaField v) key = fields.get? key :=
    fun v key hkey ↦ Fields.get?_put_of_ne v hkey
  rw [assemble, ← hitems]
  simp only [hdata, hlimited]
  cases s.format with
  | markdown =>
    rw [if_neg (by simp)]
    refine ⟨⟨first :: rest, isError, some data⟩, rfl, List.cons_ne_nil _ _, rfl, data, rfl, ?_⟩
    rcases heq with rfl | rfl
    · exact fun _ _ ↦ rfl
    · exact hother _
  | json =>
    obtain ⟨remarks', hsome, hwritable⟩ :=
      withSummary?_cases headline hmeta hremarks hfits heq
    simp only [Option.getD_some, hsome, dataBlock?, hwritable]
    cases (Json.obj fields).isWritable with
    | false => rfl
    | true =>
      rw [if_neg (by simp)]
      exact ⟨_, rfl, List.cons_ne_nil _ _, rfl, _, rfl, hother _⟩

end Reply

end TypeLens
