import Mathlib.Data.List.Nodup
import Mathlib.Order.Lattice
import TypeLens.Cache

/-!
# The operations of a cache

What each operation does to the slots of a cache, once and for all:

* a value is found through its slot, and there is one slot for each key (`slot?_eq_some_iff`);
* reading a key either moves its slot to the end or, when there is no value to hand out, leaves the
  cache without that key (`get_cases`); asking for a key changes the cache only in the second case
  (`has_cases`);
* storing a value puts its slot behind slots that were there before (`put_eq`).

So a cache that is `Sound`, with distinct keys and no more values than it has room for, stays so.
-/

namespace TypeLens.Cache

variable {τ κ ν : Type}

/-- The keys are distinct, and there are no more values than there is room for. -/
structure Sound (c : Cache τ κ ν) : Prop where
  /-- No key has two values. -/
  nodup : c.keys.Nodup
  /-- There are at most `capacity` values. -/
  size_le : c.size ≤ c.capacity

theorem sound_empty (capacity : Nat) (lifetime : Option τ) :
    (empty capacity lifetime : Cache τ κ ν).Sound where
  nodup := List.nodup_nil
  size_le := Nat.zero_le _

/-- Fewer values are no less sound. -/
theorem Sound.of_sublist {c : Cache τ κ ν} {slots : List (Slot τ κ ν)} (hc : c.Sound)
    (h : slots.Sublist c.slots) : Sound { c with slots } where
  nodup := hc.nodup.sublist (h.map Slot.key)
  size_le := Nat.le_trans h.length_le hc.size_le

theorem Sound.clear {c : Cache τ κ ν} (hc : c.Sound) : c.clear.Sound :=
  hc.of_sublist (List.nil_sublist _)

/-- A slot behind slots with other keys, for which there is room. -/
theorem Sound.concat {c : Cache τ κ ν} {kept : List (Slot τ κ ν)} {s : Slot τ κ ν} (hc : c.Sound)
    (hkept : kept.Sublist c.slots) (hkey : ∀ t ∈ kept, t.key ≠ s.key)
    (hroom : kept.length < c.capacity) : Sound { c with slots := kept ++ [s] } where
  nodup := by
    have hdistinct := hc.nodup.sublist (hkept.map Slot.key)
    simp only [keys, List.map_append, List.map_cons, List.map_nil]
    refine List.nodup_append.2 ⟨hdistinct, List.nodup_singleton _, ?_⟩
    intro a ha b hb
    obtain ⟨t, ht, rfl⟩ := List.mem_map.1 ha
    rw [List.mem_singleton.1 hb]
    exact hkey t ht
  size_le := by
    show (kept ++ [s]).length ≤ c.capacity
    rw [List.length_append]
    exact hroom

section

variable [DecidableEq κ] {c : Cache τ κ ν} {key : κ} {s : Slot τ κ ν}

/-! ### Slots -/

theorem mem_of_slot? (h : c.slot? key = some s) : s ∈ c.slots ∧ s.key = key :=
  ⟨List.mem_of_find?_eq_some h, by simpa using List.find?_some h⟩

/-- Where keys are distinct, the slot of a key is the one slot with that key. -/
theorem slot?_eq_some_iff (hc : c.keys.Nodup) :
    c.slot? key = some s ↔ s ∈ c.slots ∧ s.key = key := by
  refine ⟨mem_of_slot?, ?_⟩
  rintro ⟨hs, rfl⟩
  obtain ⟨t, ht⟩ := Option.isSome_iff_exists.1 (c.isSome_slot?.2 (List.mem_map_of_mem hs))
  obtain ⟨hmem, hkey⟩ := mem_of_slot? ht
  rw [ht, List.inj_on_of_nodup_map hc hmem hs hkey]

theorem slot?_eq_none_iff : c.slot? key = none ↔ key ∉ c.keys := by
  rw [← c.isSome_slot?, Option.not_isSome_iff_eq_none]

theorem erase_sublist (c : Cache τ κ ν) (key : κ) : (c.erase key).slots.Sublist c.slots :=
  List.filter_sublist

theorem key_ne_of_mem_erase (h : s ∈ (c.erase key).slots) : s.key ≠ key := by
  simpa using (List.mem_filter.1 h).2

/-- Without a key that is not there, a cache is as it was. -/
theorem erase_of_slot?_eq_none (h : c.slot? key = none) : c.erase key = c := by
  have hkept : c.slots.filter (fun t ↦ t.key ≠ key) = c.slots := by
    refine List.filter_eq_self.2 fun t ht ↦ ?_
    simpa using fun e : t.key = key ↦ slot?_eq_none_iff.1 h (e ▸ List.mem_map_of_mem ht)
  rw [erase, hkept]

/-- Without its key, it does not matter that a slot was moved to the end. -/
theorem erase_moveToEnd (h : c.slot? key = some s) :
    Cache.erase { c with slots := (c.erase key).slots ++ [s] } key = c.erase key := by
  obtain ⟨-, rfl⟩ := mem_of_slot? h
  simp [erase, List.filter_filter]

theorem Sound.erase (hc : c.Sound) (key : κ) : (c.erase key).Sound :=
  hc.of_sublist (c.erase_sublist key)

/-- A slot less makes room for one more. -/
theorem length_erase_lt (h : (c.slot? key).isSome) :
    (c.erase key).slots.length < c.slots.length := by
  obtain ⟨t, ht⟩ := Option.isSome_iff_exists.1 h
  obtain ⟨hmem, hkey⟩ := mem_of_slot? ht
  exact List.length_filter_lt_length_iff_exists.2 ⟨t, hmem, by simp [hkey]⟩

/-- Moving a slot to the end. -/
theorem Sound.moveToEnd (hc : c.Sound) (hs : c.slot? key = some s) :
    Sound { c with slots := (c.erase key).slots ++ [s] } := by
  obtain ⟨-, rfl⟩ := mem_of_slot? hs
  refine hc.concat (c.erase_sublist _) (fun t ht ↦ key_ne_of_mem_erase ht) ?_
  exact Nat.lt_of_lt_of_le (length_erase_lt (Option.isSome_of_eq_some hs)) hc.size_le

/-- Storing a value puts its slot behind slots that were there before and have other keys, and there
is room for it. -/
theorem put_eq (c : Cache τ κ ν) (now : τ) (key : κ) (value : ν) :
    ∃ kept, c.put now key value = { c with slots := kept ++ [⟨key, value, now⟩] } ∧
      kept.Sublist c.slots ∧ (∀ t ∈ kept, t.key ≠ key) ∧
      (c.size ≤ c.capacity → 1 ≤ c.capacity → kept.length < c.capacity) := by
  by_cases hheld : (c.slot? key).isSome
  · refine ⟨(c.erase key).slots, by simp [put, hheld], c.erase_sublist key, fun t ht ↦ ?_, ?_⟩
    · exact key_ne_of_mem_erase ht
    · intro hsize _
      exact Nat.lt_of_lt_of_le (length_erase_lt hheld) hsize
  · have hother : ∀ t ∈ c.slots, t.key ≠ key := fun t ht hkey ↦
      hheld (c.isSome_slot?.2 (hkey ▸ List.mem_map_of_mem ht))
    by_cases hfull : c.capacity ≤ c.size
    · refine ⟨c.slots.drop 1, by simp [put, hheld, hfull], List.drop_sublist 1 _,
        fun t ht ↦ hother t (List.mem_of_mem_drop ht), fun hsize hcapacity ↦ ?_⟩
      have hlength : (c.slots.drop 1).length = c.size - 1 := List.length_drop
      omega
    · exact ⟨c.slots, by simp [put, hheld, hfull], List.Sublist.refl _, hother,
        fun _ _ ↦ Nat.lt_of_not_le hfull⟩

theorem Sound.put (hc : c.Sound) (hcapacity : 1 ≤ c.capacity) (now : τ) (key : κ) (value : ν) :
    (c.put now key value).Sound := by
  obtain ⟨kept, heq, hsub, hkey, hroom⟩ := c.put_eq now key value
  rw [heq]
  exact hc.concat hsub hkey (hroom hc.size_le hcapacity)

end

/-! ### Reading -/

section

variable [DecidableEq κ] [Sub τ] [LE τ] [DecidableLE τ]

/-- The slot of a value that may be handed out. -/
def Available (c : Cache τ κ ν) (now : τ) (key : κ) (s : Slot τ κ ν) : Prop :=
  c.slot? key = some s ∧ c.isOver now s = false

/-- Looking for a value finds one that may be handed out, or leaves the cache without the key. -/
theorem live_cases (c : Cache τ κ ν) (now : τ) (key : κ) :
    (∃ s, c.Available now key s ∧ c.live now key = (some s, c)) ∨
      (∀ s, ¬c.Available now key s) ∧ c.live now key = (none, c.erase key) := by
  cases hslot : c.slot? key with
  | none =>
    right
    exact ⟨fun s hs ↦ by simp [Available, hslot] at hs,
      by simp [live, hslot, erase_of_slot?_eq_none hslot]⟩
  | some s =>
    cases hover : c.isOver now s with
    | false =>
      left
      exact ⟨s, ⟨hslot, hover⟩, by simp [live, hslot, hover]⟩
    | true =>
      right
      refine ⟨fun t ht ↦ ?_, by simp [live, hslot, hover]⟩
      obtain rfl : s = t := Option.some.inj (hslot.symm.trans ht.1)
      exact absurd (hover.symm.trans ht.2) (by decide)

/-- Reading a key moves its slot to the end, or leaves the cache without the key. -/
theorem get_cases (c : Cache τ κ ν) (now : τ) (key : κ) :
    (∃ s, c.Available now key s ∧
        c.get now key = (some s.value, { c with slots := (c.erase key).slots ++ [s] })) ∨
      (∀ s, ¬c.Available now key s) ∧ c.get now key = (none, c.erase key) := by
  rcases c.live_cases now key with ⟨s, hs, hlive⟩ | ⟨hnone, hlive⟩
  · exact .inl ⟨s, hs, by simp [get, hlive]⟩
  · exact .inr ⟨hnone, by simp [get, hlive]⟩

/-- Asking for a key leaves the cache alone, or without the key. -/
theorem has_cases (c : Cache τ κ ν) (now : τ) (key : κ) :
    (∃ s, c.Available now key s ∧ c.has now key = (true, c)) ∨
      (∀ s, ¬c.Available now key s) ∧ c.has now key = (false, c.erase key) := by
  rcases c.live_cases now key with ⟨s, hs, hlive⟩ | ⟨hnone, hlive⟩
  · exact .inl ⟨s, hs, by simp [has, hlive]⟩
  · exact .inr ⟨hnone, by simp [has, hlive]⟩

variable {c : Cache τ κ ν} {now : τ} {key : κ}

/-- A value is answered if the slot of its key is available. -/
theorem get_eq_some_iff {v : ν} :
    (c.get now key).1 = some v ↔ ∃ s, c.Available now key s ∧ s.value = v := by
  rcases c.get_cases now key with ⟨s, hs, hget⟩ | ⟨hnone, hget⟩
  · rw [hget]
    constructor
    · intro h
      exact ⟨s, hs, Option.some.inj h⟩
    · rintro ⟨t, ht, rfl⟩
      obtain rfl : s = t := Option.some.inj (hs.1.symm.trans ht.1)
      rfl
  · rw [hget]
    simp [hnone]

/-- A key is held if its slot is available. -/
theorem has_iff : (c.has now key).1 = true ↔ ∃ s, c.Available now key s := by
  rcases c.has_cases now key with ⟨s, hs, hhas⟩ | ⟨hnone, hhas⟩
  · simp only [hhas, true_iff]
    exact ⟨s, hs⟩
  · simp [hhas, hnone]

end

/-- A value may be handed out while its age is below the lifetime. -/
theorem isOver_eq_false_iff [Sub τ] [LinearOrder τ] {c : Cache τ κ ν} {now : τ} {s : Slot τ κ ν} :
    c.isOver now s = false ↔ ∀ t ∈ c.lifetime, now - s.stored < t := by
  cases h : c.lifetime <;> simp [isOver, h]

end TypeLens.Cache
