import Mathlib.Data.List.Forall2
import Mathlib.Data.List.Infix
import TypeLens.Proofs.Text.Blank
import TypeLens.Reply.Limit

/-!
# What is left of a reply at its limit

A reply that is too long is *cut from its end* (`CutFromEnd`): there is a text up to which
everything stays, which loses characters at its own end, and behind which every text is empty. A
block whose text is cut differs from what it was in nothing but that text (`Retexted`), and counts
on as the same text (`counted?_retexted`).

With the note the reply then keeps to the limit, or to the length of the note if there is not even
room for that. So once there is room, limiting a reply again does nothing
(`limitContent_keeps_limit`).
-/

namespace TypeLens

namespace Fields

/-- Members that differ in the value of one name, where that name is found first. -/
inductive DifferAt (key : String) (old new : Json) : Fields → Fields → Prop
  | here {rest : Fields} : DifferAt key old new ((key, old) :: rest) ((key, new) :: rest)
  | there {field : String × Json} {fields fields' : Fields} (hfield : field.1 ≠ key)
    (h : DifferAt key old new fields fields') : DifferAt key old new (field :: fields)
      (field :: fields')

variable {key other : String} {old new : Json} {fields fields' : Fields}

/-- Putting a member under a key that is there changes that member only. -/
theorem differAt_put (h : fields.get? key = some old) (new : Json) :
    DifferAt key old new fields (fields.put key new) := by
  induction fields with
  | nil => cases h
  | cons field rest ih =>
    obtain ⟨k, v⟩ := field
    by_cases hk : k = key
    · subst hk
      obtain rfl : v = old := by simpa [get?] using h
      rw [put, if_pos rfl]
      exact .here
    · have hne : (key == k) = false := by simpa using Ne.symm hk
      rw [put, if_neg hk]
      exact .there hk (ih (by simpa [get?, List.lookup_cons, hne] using h))

/-- The two objects have the old and the new member. -/
theorem DifferAt.get?_eq (h : DifferAt key old new fields fields') :
    fields.get? key = some old ∧ fields'.get? key = some new := by
  induction h with
  | here => simp [get?]
  | @there field _ _ hfield _ ih =>
    have hne : (key == field.1) = false := by simpa using Ne.symm hfield
    rw [get?, get?, List.lookup_cons, List.lookup_cons, hne]
    exact ih

/-- All other members are the same. -/
theorem DifferAt.get?_of_ne (h : DifferAt key old new fields fields') (hother : other ≠ key) :
    fields'.get? other = fields.get? other := by
  induction h with
  | here => simp [get?, List.lookup_cons, beq_eq_false_iff_ne.2 hother]
  | @there field _ _ _ _ ih =>
    rw [get?, get?, List.lookup_cons, List.lookup_cons]
    split
    · rfl
    · exact ih

end Fields

namespace Reply

/-! ### Another text in a block -/

/-- Two items that differ in nothing but the text at a place. -/
inductive Retexted (old new : String) : Place → Json → Json → Prop
  | block {fields fields' : Fields}
    (htext : Fields.DifferAt "text" (.str old) (.str new) fields fields') :
    Retexted old new .block (.obj fields) (.obj fields')
  | resource {fields fields' resource resource' : Fields}
    (hresource : Fields.DifferAt "resource" (.obj resource) (.obj resource') fields fields')
    (htext : Fields.DifferAt "text" (.str old) (.str new) resource resource') :
    Retexted old new .resource (.obj fields) (.obj fields')

/-- Two blocks that differ in nothing but the text that counts. -/
inductive Block.Retexted (old new : String) : Block → Block → Prop
  | intro {item item' : Json} {place : Place} {label : String}
    (h : Reply.Retexted old new place item item') :
    Block.Retexted old new ⟨item, some ⟨place, label, old⟩⟩ ⟨item', some ⟨place, label, new⟩⟩

section

variable {isFirst : Bool} {index : Nat} {item item' : Json}

/-- The label of the text of a block. -/
def blockLabel (isFirst : Bool) (index : Nat) : String :=
  if isFirst then "summary" else "text" ++ ("[" ++ toString index ++ "]")

/-- The label of the text of a resource. -/
def resourceLabel (index : Nat) (resource : Fields) : String :=
  ((Fields.get? resource "uri").bind labelOf?).getD ("resource" ++ ("[" ++ toString index ++ "]"))

/-- **The texts that count** are those of text blocks and of resources that are not structured
data. -/
theorem counted?_eq_some_iff {c : Counted} : counted? isFirst index item = some c ↔
    ∃ fields, item = .obj fields ∧
      ((Fields.get? fields "type" = some (.str "text") ∧
          Fields.get? fields "text" = some (.str c.text) ∧
          c = ⟨.block, blockLabel isFirst index, c.text⟩) ∨
        ∃ resource, Fields.get? fields "type" = some (.str "resource") ∧
          Fields.get? fields "resource" = some (.obj resource) ∧
          Fields.get? resource "text" = some (.str c.text) ∧
          (Fields.get? resource "mimeType").bind Json.str? ≠ some jsonMimeType ∧
          c = ⟨.resource, resourceLabel index resource, c.text⟩) := by
  constructor
  · intro h
    unfold counted? at h
    cases item with
    | obj fields =>
      simp only [Json.get?] at h
      split at h
      · next htype htext =>
        obtain rfl := Option.some.inj h
        exact ⟨fields, rfl, .inl ⟨htype, htext, rfl⟩⟩
      · next resource htype hresource =>
        split at h
        · next htext =>
          split_ifs at h with hjson
          obtain rfl := Option.some.inj h
          exact ⟨fields, rfl, .inr ⟨resource, htype, hresource, htext, hjson, rfl⟩⟩
        · cases h
      · cases h
    | _ => cases h
  · rintro ⟨fields, rfl, ⟨htype, htext, hc⟩ | ⟨resource, htype, hresource, htext, hjson, hc⟩⟩
    · rw [hc]
      simp [counted?, Json.get?, htype, htext, blockLabel]
    · rw [hc]
      simp [counted?, Json.get?, htype, hresource, htext, hjson, resourceLabel]

/-- Setting the text that counts changes nothing else. -/
theorem retexted_setText {c : Counted} (h : counted? isFirst index item = some c) (new : String) :
    Retexted c.text new c.place item (setText new c.place item) := by
  obtain ⟨fields, rfl, ⟨-, htext, hc⟩ | ⟨resource, -, hresource, htext, -, hc⟩⟩ :=
    counted?_eq_some_iff.1 h
  · rw [show c.place = .block by rw [hc]]
    exact .block (Fields.differAt_put htext _)
  · rw [show c.place = .resource by rw [hc], setText, hresource]
    exact .resource (Fields.differAt_put hresource _) (Fields.differAt_put htext _)

/-- **A text that counts counts on** when it is changed, at the same place and under the same
name. -/
theorem counted?_retexted {place : Place} {label old new : String}
    (h : counted? isFirst index item = some ⟨place, label, old⟩)
    (hitem : Retexted old new place item item') :
    counted? isFirst index item' = some ⟨place, label, new⟩ := by
  obtain ⟨fields, rfl, ⟨htype, -, hc⟩ | ⟨resource, htype, hresource, -, hjson, hc⟩⟩ :=
    counted?_eq_some_iff.1 h
  · cases hitem with
    | resource => cases hc
    | @block _ fields' hput =>
      obtain ⟨-, rfl, -⟩ := Counted.mk.inj hc
      refine counted?_eq_some_iff.2 ⟨fields', rfl, .inl ⟨?_, hput.get?_eq.2, rfl⟩⟩
      rw [hput.get?_of_ne (by decide), htype]
  · cases hitem with
    | block => cases hc
    | @resource _ fields' old' resource' hput htext =>
      obtain ⟨-, rfl, -⟩ := Counted.mk.inj hc
      obtain rfl : old' = resource := by
        rw [hput.get?_eq.1] at hresource
        exact Json.obj.inj (Option.some.inj hresource)
      have hlabel : resourceLabel index resource' = resourceLabel index old' := by
        rw [resourceLabel, resourceLabel, htext.get?_of_ne (by decide)]
      refine counted?_eq_some_iff.2
        ⟨fields', rfl, .inr ⟨resource', ?_, hput.get?_eq.2, htext.get?_eq.2, ?_, ?_⟩⟩
      · rw [hput.get?_of_ne (by decide), htype]
      · rwa [htext.get?_of_ne (by decide)]
      · rw [hlabel]

end

/-! ### Blocks that are cut -/

/-- A block that has lost its text, if it had one that counts. -/
inductive Block.Emptied : Block → Block → Prop
  | same {b : Block} (h : b.length = 0) : Emptied b b
  | cut {b b' : Block} {old : String} (h : b.Retexted old "" b') : Emptied b b'

/-- The name of the text of a block that counts, if there is anything in it. -/
def Block.label? (b : Block) : Option String :=
  if b.length = 0 then none else b.counted.map Counted.label

/-- **Blocks that are cut from the end**, with the names of the texts that are cut. There is a text
that loses characters at its end; the blocks before it stay, and the texts behind it are empty. What
is cut are those of these texts that were not empty before. -/
inductive CutFromEnd : List Block → List Block → List String → Prop
  | intro {kept rest rest' : List Block} {pivot pivot' : Block} {old new : String}
    (hpivot : pivot.Retexted old new pivot') (hfront : new.toList <+: old.toList)
    (hless : new.length < old.length) (hrest : List.Forall₂ Block.Emptied rest rest') :
    CutFromEnd (kept ++ pivot :: rest) (kept ++ pivot' :: rest')
      ((pivot :: rest).filterMap Block.label?)

/-- A block that counts the text that is found in it. -/
def Block.Sound (b : Block) : Prop :=
  ∃ isFirst index, counted? isFirst index b.item = b.counted

theorem sound_of_mem_blocksFrom {isFirst : Bool} {i : Nat} {items : List Json} :
    ∀ b ∈ blocksFrom isFirst i items, b.Sound := by
  induction items generalizing isFirst i with
  | nil => simp [blocksFrom]
  | cons item items ih => exact List.forall_mem_cons.2 ⟨⟨isFirst, i, rfl⟩, ih⟩

/-- A block whose text may have changed, so that it counts as before. -/
def Block.Succeeds (b b' : Block) : Prop :=
  b'.counted.isNone = b.counted.isNone ∧ ∀ isFirst index,
    counted? isFirst index b.item = b.counted → counted? isFirst index b'.item = b'.counted

theorem Block.Retexted.succeeds {b b' : Block} {old new : String} (h : b.Retexted old new b') :
    b.Succeeds b' := by
  obtain ⟨hitem⟩ := h
  exact ⟨rfl, fun _ _ hcounted ↦ counted?_retexted hcounted hitem⟩

theorem Block.Emptied.succeeds {b b' : Block} (h : b.Emptied b') : b.Succeeds b' := by
  cases h with
  | same => exact ⟨rfl, fun _ _ h ↦ h⟩
  | cut h => exact h.succeeds

theorem CutFromEnd.forall₂_succeeds {bs bs' : List Block} {sections : List String}
    (h : CutFromEnd bs bs' sections) : List.Forall₂ Block.Succeeds bs bs' := by
  obtain ⟨hpivot, -, -, hrest⟩ := h
  refine List.rel_append ?_ (.cons hpivot.succeeds (hrest.imp fun _ _ ↦ Block.Emptied.succeeds))
  exact List.forall₂_same.2 fun b _ ↦ ⟨rfl, fun _ _ h ↦ h⟩

/-- The blocks of the items that are left are the blocks that are left. -/
theorem blocksFrom_map_item {isFirst : Bool} {i : Nat} {items : List Json} {bs' : List Block}
    (h : List.Forall₂ Block.Succeeds (blocksFrom isFirst i items) bs') :
    blocksFrom isFirst i (bs'.map Block.item) = bs' := by
  induction items generalizing isFirst i bs' with
  | nil =>
    cases h
    rfl
  | cons item items ih =>
    obtain ⟨b', bs', ⟨hcounts, hcounted⟩, hrest, rfl⟩ := List.forall₂_cons_left_iff.1 h
    have hown := hcounted isFirst i rfl
    rw [List.map_cons, blocksFrom, hown, hcounts, ih hrest]

/-! ### Cutting -/

/-- A cut text is a prefix of the text and at least as much shorter as was asked for. -/
theorem cutText_spec (cut : Nat) (text : String) :
    (cutText cut text).toList <+: text.toList ∧
      (cutText cut text).length ≤ text.length - cut := by
  obtain ⟨back, hback, -⟩ :=
    Text.exists_append_trimEnd Text.isBlank (text.toList.take (text.length - cut))
  have htext : (cutText cut text).toList <+: text.toList.take (text.length - cut) := by
    rw [cutText, Text.trimBlankEnd, String.toList_ofList, String.toList_ofList]
    exact ⟨back, hback.symm⟩
  refine ⟨htext.trans (List.take_prefix _ _), ?_⟩
  have hlength := htext.length_le
  rw [List.length_take, String.length_toList] at hlength
  exact hlength.trans (Nat.min_le_left _ _)

theorem totalLength_append (bs bs' : List Block) :
    totalLength (bs ++ bs') = totalLength bs + totalLength bs' := by
  induction bs with
  | nil => simp [totalLength]
  | cons b bs ih => simp [totalLength, ih, Nat.add_assoc]

theorem Block.Sound.retexted {b : Block} (hb : b.Sound) {c : Counted} (hc : b.counted = some c)
    (new : String) :
    b.Retexted c.text new ⟨setText new c.place b.item, some ⟨c.place, c.label, new⟩⟩ := by
  obtain ⟨isFirst, index, hcounted⟩ := hb
  obtain ⟨item, counted⟩ := b
  obtain rfl : counted = some c := hc
  exact .intro (retexted_setText hcounted new)

theorem Block.Emptied.length_eq {b b' : Block} (h : b.Emptied b') : b'.length = 0 := by
  cases h with
  | same h => exact h
  | cut h => cases h; rfl

theorem totalLength_eq_zero {bs bs' : List Block} (h : List.Forall₂ Block.Emptied bs bs') :
    totalLength bs' = 0 := by
  induction h with
  | nil => rfl
  | cons hb _ ih => rw [totalLength, hb.length_eq, ih]

section

variable {b : Block} {bs : List Block} {excess : Nat}

theorem Block.exists_counted (h : b.length ≠ 0) :
    ∃ c, b.counted = some c ∧ b.length = c.text.length ∧ b.label? = some c.label := by
  cases hc : b.counted with
  | none => exact absurd (by rw [Block.length, hc]) h
  | some c => exact ⟨c, rfl, by rw [Block.length, hc], by rw [Block.label?, if_neg h, hc]; rfl⟩

/-- A block stays where nothing is left to cut, or nothing of its own. -/
theorem cutBack_cons_of_eq_zero (h : min b.length (cutBack bs excess).2.2 = 0) :
    cutBack (b :: bs) excess =
      (b.item :: (cutBack bs excess).1, (cutBack bs excess).2.1, (cutBack bs excess).2.2) := by
  rw [cutBack]
  cases hc : b.counted with
  | none => rfl
  | some c =>
    rw [Block.length, hc] at h
    exact if_pos h

/-- If something is left to cut at a block, its text is cut, and its label is among those that were.
-/
theorem cutBack_cons_of_ne_zero {c : Counted} (hc : b.counted = some c)
    (h : min c.text.length (cutBack bs excess).2.2 ≠ 0) :
    cutBack (b :: bs) excess =
      (setText (cutText (min c.text.length (cutBack bs excess).2.2) c.text) c.place b.item ::
        (cutBack bs excess).1, c.label :: (cutBack bs excess).2.1,
        (cutBack bs excess).2.2 - min c.text.length (cutBack bs excess).2.2) := by
  rw [cutBack, hc]
  exact if_neg h

/-- Where nothing is left to cut, the blocks before stay. -/
theorem cutBack_append (kept : List Block) (h : (cutBack bs excess).2.2 = 0) :
    cutBack (kept ++ bs) excess =
      (kept.map Block.item ++ (cutBack bs excess).1, (cutBack bs excess).2.1, 0) := by
  induction kept with
  | nil => simp [← h]
  | cons b kept ih =>
    rw [List.cons_append, cutBack_cons_of_eq_zero (by simp [ih]), ih]
    rfl

/-- Blocks with no more characters than are to be cut lose their texts. -/
theorem cutBack_of_totalLength_le (hsound : ∀ b ∈ bs, b.Sound) (h : totalLength bs ≤ excess) :
    ∃ bs', List.Forall₂ Block.Emptied bs bs' ∧
      cutBack bs excess = (bs'.map Block.item, bs.filterMap Block.label?,
        excess - totalLength bs) := by
  induction bs with
  | nil => exact ⟨[], .nil, rfl⟩
  | cons b bs ih =>
    obtain ⟨hb, hbs⟩ := List.forall_mem_cons.1 hsound
    have hlength : b.length + totalLength bs ≤ excess := h
    obtain ⟨bs', hemptied, hcut⟩ := ih hbs (by omega)
    have hleft : (cutBack bs excess).2.2 = excess - totalLength bs := by rw [hcut]
    rcases eq_or_ne b.length 0 with hzero | hpos
    · refine ⟨b :: bs', .cons (.same hzero) hemptied, ?_⟩
      rw [cutBack_cons_of_eq_zero (by rw [hzero, Nat.zero_min]), hcut, totalLength, hzero,
        List.filterMap_cons_none (by rw [Block.label?, if_pos hzero]), Nat.zero_add]
      rfl
    · obtain ⟨c, hc, hown, hlabel⟩ := Block.exists_counted hpos
      have hmin : min c.text.length (cutBack bs excess).2.2 = c.text.length := by omega
      have hempty : cutText c.text.length c.text = "" := by
        have := (cutText_spec c.text.length c.text).2
        exact String.length_eq_zero_iff.1 (by omega)
      refine ⟨_ :: bs', .cons (.cut (hb.retexted hc "")) hemptied, ?_⟩
      rw [cutBack_cons_of_ne_zero hc (by omega), hmin, hempty, hcut, totalLength,
        List.filterMap_cons_some hlabel, hown]
      simp only [List.map_cons, Prod.mk.injEq, true_and]
      omega

/-- The block in which the last of the characters to be cut stands. -/
theorem exists_pivot (hpos : 0 < excess) (h : excess ≤ totalLength bs) :
    ∃ kept pivot rest, bs = kept ++ pivot :: rest ∧ totalLength rest < excess ∧
      excess ≤ pivot.length + totalLength rest := by
  induction bs with
  | nil => exact absurd h (Nat.not_le_of_lt hpos)
  | cons b bs ih =>
    rcases Nat.lt_or_ge (totalLength bs) excess with hless | hmore
    · exact ⟨[], b, bs, rfl, hless, h⟩
    · obtain ⟨kept, pivot, rest, rfl, hrest⟩ := ih hmore
      exact ⟨b :: kept, pivot, rest, rfl, hrest⟩

/-- **Cutting back cuts from the end**, and as much as it is meant to. -/
theorem cutBack_cutFromEnd (hsound : ∀ b ∈ bs, b.Sound) (hpos : 0 < excess)
    (h : excess ≤ totalLength bs) :
    ∃ bs', CutFromEnd bs bs' (cutBack bs excess).2.1 ∧
      (cutBack bs excess).1 = bs'.map Block.item ∧
      totalLength bs' ≤ totalLength bs - excess := by
  -- Behind the pivot everything is emptied, the pivot is cut, and what stands before it is kept.
  obtain ⟨kept, pivot, rest, rfl, hless, hmore⟩ := exists_pivot hpos h
  obtain ⟨-, htail⟩ := List.forall_mem_append.1 hsound
  obtain ⟨hpivot, hrest⟩ := List.forall_mem_cons.1 htail
  obtain ⟨rest', hemptied, hcut⟩ := cutBack_of_totalLength_le hrest hless.le
  obtain ⟨c, hc, hown, hlabel⟩ := Block.exists_counted (b := pivot) (by omega)
  obtain ⟨cut, hcutEq⟩ : ∃ cut, excess - totalLength rest = cut := ⟨_, rfl⟩
  have hmin : min c.text.length (cutBack rest excess).2.2 = cut := by
    rw [hcut]
    dsimp only
    omega
  obtain ⟨hfront, hshort⟩ := cutText_spec cut c.text
  have htexts : cutBack (pivot :: rest) excess =
      (setText (cutText cut c.text) c.place pivot.item :: rest'.map Block.item,
        (pivot :: rest).filterMap Block.label?, 0) := by
    rw [cutBack_cons_of_ne_zero hc (by omega), hmin, hcut, List.filterMap_cons_some hlabel]
    simp [hcutEq]
  rw [cutBack_append kept (by rw [htexts]), htexts]
  refine ⟨_, .intro (hpivot.retexted hc _) hfront (by omega) hemptied, by simp, ?_⟩
  simp only [totalLength_append, totalLength, totalLength_eq_zero hemptied, hown]
  rw [Block.length]
  dsimp only
  omega

end

/-! ### Limits -/

theorem textBlock_counted (isFirst : Bool) (index : Nat) (text : String) :
    counted? isFirst index (textBlock text) =
      some ⟨.block, blockLabel isFirst index, text⟩ :=
  counted?_eq_some_iff.2 ⟨_, rfl, .inl ⟨rfl, rfl, rfl⟩⟩

/-- A block of text at the end adds its own length. -/
theorem totalLength_blocksFrom_concat (isFirst : Bool) (i : Nat) (items : List Json)
    (text : String) : totalLength (blocksFrom isFirst i (items ++ [textBlock text])) =
      totalLength (blocksFrom isFirst i items) + text.length := by
  induction items generalizing isFirst i with
  | nil => simp [blocksFrom, totalLength, Block.length, textBlock_counted]
  | cons item items ih =>
    rw [List.cons_append, blocksFrom, blocksFrom, totalLength, totalLength, ih, Nat.add_assoc]

theorem limitContent_of_le {limit : Int} {items : List Json}
    (h : (totalLength (blocks items) : Int) ≤ limit) :
    limitContent limit items = ⟨items, false, []⟩ :=
  if_pos h

/-- What is left of a reply that is too long. -/
theorem limitContent_of_lt {limit : Int} (hlimit : 0 ≤ limit) {items : List Json}
    (h : limit < totalLength (blocks items)) :
    ∃ cut sections, limitContent limit items =
        ⟨cut ++ [textBlock (truncationNote limit)], true, sections⟩ ∧
      CutFromEnd (blocks items) (blocks cut) sections ∧
      (totalLength (blocks cut) : Int) ≤ max 0 (limit - (truncationNote limit).length) := by
  obtain ⟨room, hroom⟩ : ∃ room, max 0 (limit - (truncationNote limit).length) = room := ⟨_, rfl⟩
  obtain ⟨excess, hexcess⟩ :
      ∃ excess, ((totalLength (blocks items) : Int) - room).toNat = excess := ⟨_, rfl⟩
  have hpos : 0 < excess := by omega
  have hle : excess ≤ totalLength (blocks items) := by omega
  have hsound : ∀ b ∈ blocks items, b.Sound := sound_of_mem_blocksFrom
  obtain ⟨bs', hcut, hitems, htotal⟩ := cutBack_cutFromEnd hsound hpos hle
  have hblocks : blocks (bs'.map Block.item) = bs' := blocksFrom_map_item hcut.forall₂_succeeds
  refine ⟨bs'.map Block.item, _, ?_, hblocks.symm ▸ hcut, ?_⟩
  · rw [limitContent]
    dsimp only
    rw [if_neg (by omega), hroom, hexcess, hitems]
  · rw [hblocks]
    omega

/-- **A reply keeps to its limit, and is cut from its end.** A reply within the limit stays as it
is. Any other one is cut from its end, with a note behind it, and then keeps to the limit, or to the
length of the note where the limit leaves no room for it. Where there is room for the note, limiting
the reply once more changes nothing. -/
theorem limitContent_keeps_limit {limit : Int} (hlimit : 0 ≤ limit) (items : List Json) :
    ((totalLength (blocks items) : Int) ≤ limit →
        limitContent limit items = ⟨items, false, []⟩) ∧
      (limit < totalLength (blocks items) → ∃ cut sections,
        limitContent limit items = ⟨cut ++ [textBlock (truncationNote limit)], true, sections⟩ ∧
        CutFromEnd (blocks items) (blocks cut) sections ∧
        (totalLength (blocks (cut ++ [textBlock (truncationNote limit)])) : Int) ≤
          max limit (truncationNote limit).length) ∧
      ((truncationNote limit).length ≤ limit →
        limitContent limit (limitContent limit items).items =
          ⟨(limitContent limit items).items, false, []⟩) := by
  have hshort : limit < totalLength (blocks items) → ∃ cut sections,
      limitContent limit items = ⟨cut ++ [textBlock (truncationNote limit)], true, sections⟩ ∧
      CutFromEnd (blocks items) (blocks cut) sections ∧
      (totalLength (blocks (cut ++ [textBlock (truncationNote limit)])) : Int) ≤
        max limit (truncationNote limit).length := by
    intro h
    obtain ⟨cut, sections, hout, hcut, htotal⟩ := limitContent_of_lt hlimit h
    refine ⟨cut, sections, hout, hcut, ?_⟩
    rw [blocks, totalLength_blocksFrom_concat, ← blocks]
    omega
  refine ⟨limitContent_of_le, hshort, fun hroom ↦ limitContent_of_le ?_⟩
  -- Whether the reply was cut or not, what is left of it keeps to the limit.
  by_cases hle : (totalLength (blocks items) : Int) ≤ limit
  · rwa [limitContent_of_le hle]
  · obtain ⟨cut, sections, hout, -, htotal⟩ := hshort (Int.not_le.1 hle)
    rw [hout]
    dsimp only
    omega

/-- A summary, a long text, a resource, an empty text and structured data. -/
def sampleItems : List Json :=
  [textBlock "# Answer", textBlock (.ofList (List.replicate 110 'x')),
    resourceBlock "file:///a.ts" "let a = 1" "text/plain", textBlock "",
    resourceBlock "file:///a.json" (.ofList (List.replicate 200 'y')) jsonMimeType]

/-- The long text and the resource are cut, and nothing is cut a second time. -/
theorem limitContent_keeps_limit_sample :
    (∃ cut, (limitContent 120 sampleItems).items = cut ++ [textBlock (truncationNote 120)] ∧
        CutFromEnd (blocks sampleItems) (blocks cut) ["text[1]", "file:///a.ts"]) ∧
      limitContent 120 (limitContent 120 sampleItems).items =
        ⟨(limitContent 120 sampleItems).items, false, []⟩ := by
  have h := limitContent_keeps_limit (show (0 : Int) ≤ 120 by decide) sampleItems
  have hnote : (truncationNote 120).length = 109 := by decide +kernel
  have htotal : totalLength (blocks sampleItems) = 127 := by decide +kernel
  have hsections : (limitContent 120 sampleItems).sections = ["text[1]", "file:///a.ts"] := by
    simp only [limitContent, hnote, htotal]
    decide +kernel
  refine ⟨?_, h.2.2 (by rw [hnote]; decide)⟩
  obtain ⟨cut, sections, hout, hcut, -⟩ := h.2.1 (by rw [htotal]; decide)
  rw [hout] at hsections ⊢
  exact ⟨cut, rfl, hsections ▸ hcut⟩

end Reply

end TypeLens
