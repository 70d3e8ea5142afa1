import Mathlib.Data.Finset.Card
import Mathlib.Order.Monotone.Defs
import TypeLens.Proofs.Cache.History

/-!
# What a cache retains

A cache drops a value for one of three reasons only: it is taken out, its lifetime is over, or it is
the one used longest ago and room is needed (`mem_keys_call_or`). In the third case all other values
were used after it, so as many other keys as there is room for were used since, the new one
included (`Faithful.size_le_card_of_head`).

So there is a lower bound on what is kept, and it can be read off the history alone: a key is
`Entitled` to be found when it was used, fewer other keys than the capacity were used since, it was
not taken out since, and what was last stored under it is not too old. **A key that is entitled is
found** (`run_retains`).
-/

namespace TypeLens.Cache

variable {τ κ ν : Type} [DecidableEq κ]

/-! ### Reading a history -/

/-- The key an event is a use of. -/
def Event.used? (e : Event τ κ ν) : Option κ :=
  match e.call, e.answer with
  | .put k _, _ => some k
  | .get k, .value (some _) => some k
  | _, _ => none

/-- The keys that some events are uses of. -/
def usedKeys (events : List (Event τ κ ν)) : Finset κ :=
  (events.filterMap Event.used?).toFinset

/-- The events since the last use of a key. -/
def since (key : κ) (past : List (Event τ κ ν)) : List (Event τ κ ν) :=
  past.takeWhile fun e ↦ !e.uses key

/-- When a value was last stored under a key, also if it was taken out since. -/
def storedAt? (key : κ) : List (Event τ κ ν) → Option τ
  | [] => none
  | e :: past =>
    match e.call with
    | .put k _ => if k = key then some e.time else storedAt? key past
    | _ => storedAt? key past

/-- By its history, a cache has no reason to have dropped a key. -/
structure Entitled [Sub τ] [LT τ] (capacity : Nat) (lifetime : Option τ) (now : τ) (key : κ)
    (past : List (Event τ κ ν)) : Prop where
  /-- The key was used. -/
  used : ∃ e ∈ past, e.uses key = true
  /-- Since its last use, fewer other keys were used than there is room for. -/
  few : (usedKeys (since key past)).card < capacity
  /-- Since its last use, the key was not taken out. -/
  kept : ∀ e ∈ since key past, e.removes key = false
  /-- Less than a lifetime has passed since a value was last stored under the key. -/
  young : ∀ t ∈ lifetime, ∀ stored ∈ storedAt? key past, now - stored < t

/-- The key that is read off an event is the one it uses. -/
theorem Event.used?_eq_some_iff {e : Event τ κ ν} {key : κ} :
    e.used? = some key ↔ e.uses key = true := by
  rcases e with ⟨time, call, answer⟩
  cases call with
  | put k v => simp [Event.used?, Event.uses]
  | get k => cases answer with
    | value found => cases found <;> simp [Event.used?, Event.uses]
    | truth | keys | done => simp [Event.used?, Event.uses]
  | has | pop | keys | clear => simp [Event.used?, Event.uses]

theorem mem_usedKeys {events : List (Event τ κ ν)} {key : κ} :
    key ∈ usedKeys events ↔ ∃ e ∈ events, e.uses key = true := by
  simp [usedKeys, Event.used?_eq_some_iff]

theorem usedKeys_subset_cons (e : Event τ κ ν) (events : List (Event τ κ ν)) :
    usedKeys events ⊆ usedKeys (e :: events) := by
  intro key hkey
  obtain ⟨f, hf, huse⟩ := mem_usedKeys.1 hkey
  exact mem_usedKeys.2 ⟨f, List.mem_cons_of_mem e hf, huse⟩

theorem since_cons_of_not_uses {e : Event τ κ ν} {key : κ} (h : e.uses key = false)
    (past : List (Event τ κ ν)) : since key (e :: past) = e :: since key past := by
  simp [since, h]

/-- A key that is idle for fewer calls than another one was used since the other one was. -/
theorem mem_usedKeys_since {past : List (Event τ κ ν)} {key other : κ}
    (h : idle past other < idle past key) : other ∈ usedKeys (since key past) := by
  induction past with
  | nil => exact absurd h (Nat.lt_irrefl 0)
  | cons e past ih =>
    cases hkey : e.uses key with
    | true =>
      rw [idle_cons_of_uses hkey] at h
      exact absurd h (Nat.not_lt_zero _)
    | false =>
      rw [since_cons_of_not_uses hkey]
      cases hother : e.uses other with
      | true => exact mem_usedKeys.2 ⟨e, List.mem_cons_self, hother⟩
      | false =>
        rw [idle_cons_of_not_uses hkey, idle_cons_of_not_uses hother] at h
        exact usedKeys_subset_cons e _ (ih (Nat.lt_of_succ_lt_succ h))

/-- An event that does not use a key leaves the time at which it was stored. -/
theorem storedAt?_cons_of_not_uses {e : Event τ κ ν} {key : κ} (h : e.uses key = false)
    (past : List (Event τ κ ν)) : storedAt? key (e :: past) = storedAt? key past := by
  obtain ⟨time, call, answer⟩ := e
  cases call with
  | put k v =>
    have hk : k ≠ key := by simpa [Event.uses] using h
    simp [storedAt?, hk]
  | get | has | pop | keys | clear => rfl

/-- What stands was the last to be stored. -/
theorem storedAt?_of_standing {past : List (Event τ κ ν)} {key : κ} {stored : τ} {v : ν}
    (h : standing key past = some (stored, v)) : storedAt? key past = some stored := by
  induction past with
  | nil => cases h
  | cons e past ih =>
    obtain ⟨time, call, answer⟩ := e
    cases call with
    | put k w =>
      by_cases hk : k = key
      · simp_all [standing, storedAt?]
      · simp_all [standing, storedAt?]
    | pop k => simp_all [standing, storedAt?]
    | clear => cases h
    | get | has | keys => exact ih h

/-- A key that is entitled after a call that is no use of it was so before. -/
theorem Entitled.of_cons [Sub τ] [LT τ] {capacity : Nat} {lifetime : Option τ} {now : τ} {key : κ}
    {e : Event τ κ ν} {past : List (Event τ κ ν)}
    (h : Entitled capacity lifetime now key (e :: past)) (huse : e.uses key = false) :
    Entitled capacity lifetime now key past where
  used := by
    -- The key was used, but not by this call.
    obtain ⟨f, hf, hkey⟩ := h.used
    rcases List.mem_cons.1 hf with rfl | hf
    · exact absurd (huse.symm.trans hkey) (by decide)
    · exact ⟨f, hf, hkey⟩
  few := by
    have hfew := h.few
    rw [since_cons_of_not_uses huse] at hfew
    exact (Finset.card_le_card (usedKeys_subset_cons e _)).trans_lt hfew
  kept := by
    have hkept := h.kept
    rw [since_cons_of_not_uses huse] at hkept
    exact fun f hf ↦ hkept f (List.mem_cons_of_mem e hf)
  young := by
    have hyoung := h.young
    rwa [storedAt?_cons_of_not_uses huse] at hyoung

/-! ### What a call drops -/

/-- Erasing a key leaves the other ones. -/
theorem mem_keys_erase {c : Cache τ κ ν} {s : Slot τ κ ν} {key : κ} (hs : s ∈ c.slots)
    (hne : s.key ≠ key) : s.key ∈ (c.erase key).keys := by
  rw [keys_erase]
  exact List.mem_filter.2 ⟨List.mem_map_of_mem hs, by simpa using hne⟩

/-- Storing a value drops a slot only if it is the first one, when the key is new and there is no
room for it. -/
theorem mem_keys_put_or {c : Cache τ κ ν} {s : Slot τ κ ν} (hs : s ∈ c.slots) (now : τ) (key : κ)
    (value : ν) :
    s.key ∈ (c.put now key value).keys ∨
      key ∉ c.keys ∧ c.capacity ≤ c.size ∧ ∃ rest, c.slots = s :: rest := by
  by_cases hheld : (c.slot? key).isSome
  · left
    by_cases hkey : s.key = key
    · simp [put, keys, hkey]
    · have := mem_keys_erase hs hkey
      simp_all [put, keys]
  · by_cases hfull : c.capacity ≤ c.size
    · obtain ⟨first, rest, hslots⟩ := List.exists_cons_of_ne_nil (List.ne_nil_of_mem hs)
      rw [hslots] at hs
      rcases List.mem_cons.1 hs with rfl | hs
      · exact .inr ⟨fun hkey ↦ hheld (c.isSome_slot?.2 hkey), hfull, rest, hslots⟩
      · left
        simp only [put, hheld, hfull, keys, hslots]
        simpa using .inl ⟨s, hs, rfl⟩
    · left
      simp only [put, hheld, hfull, keys]
      simpa using .inl ⟨s, hs, rfl⟩

/-- When a new key is used, the first slot has seen a use of every other key that is held, and of
the new one. -/
theorem Faithful.size_le_card_of_head {past : List (Event τ κ ν)} {c : Cache τ κ ν}
    (h : Faithful past c) {s : Slot τ κ ν} {rest : List (Slot τ κ ν)} (hslots : c.slots = s :: rest)
    {e : Event τ κ ν} {key : κ} (hnew : key ∉ c.keys) (huse : e.uses key = true) :
    c.size ≤ (usedKeys (e :: since s.key past)).card := by
  have hnodup : (key :: rest.map Slot.key).Nodup := by
    have := h.nodup
    simp_all [keys]
  have hsub : (key :: rest.map Slot.key).toFinset ⊆ usedKeys (e :: since s.key past) := by
    intro k hk
    rcases List.mem_cons.1 (List.mem_toFinset.1 hk) with rfl | hk
    · exact mem_usedKeys.2 ⟨e, List.mem_cons_self, huse⟩
    · obtain ⟨t, ht, rfl⟩ := List.mem_map.1 hk
      have hrecency := h.recency
      rw [hslots, List.pairwise_cons] at hrecency
      exact usedKeys_subset_cons e _ (mem_usedKeys_since (hrecency.1 t ht))
  calc c.size
    _ = (key :: rest.map Slot.key).length := by simp [size, hslots]
    _ = (key :: rest.map Slot.key).toFinset.card := (List.toFinset_card_of_nodup hnodup).symm
    _ ≤ _ := Finset.card_le_card hsub

variable [Sub τ] [LinearOrder τ]

/-- **What a call can drop.** A slot stays under its key, unless the key is taken out, or its
lifetime is over, or it is the one used longest ago and a value under a new key needs the room. -/
theorem mem_keys_call_or {c : Cache τ κ ν} (hc : c.keys.Nodup) {s : Slot τ κ ν} (hs : s ∈ c.slots)
    (now : τ) (x : Call κ ν) :
    s.key ∈ (c.call now x).2.keys ∨ Event.removes s.key ⟨now, x, (c.call now x).1⟩ = true ∨
      c.isOver now s = true ∨
        ∃ key value rest, x = .put key value ∧ key ∉ c.keys ∧ c.capacity ≤ c.size ∧
          c.slots = s :: rest := by
  -- A slot that may not be handed out under its own key has its lifetime over.
  have hover : (∀ t, ¬c.Available now s.key t) → c.isOver now s = true := fun hnone ↦
    Bool.of_not_eq_false fun h ↦ hnone s ⟨(slot?_eq_some_iff hc).2 ⟨hs, rfl⟩, h⟩
  cases x with
  | get key =>
    rcases c.get_cases now key with ⟨t, ⟨hslot, -⟩, hget⟩ | ⟨hnone, hget⟩
    · obtain ⟨-, rfl⟩ := mem_of_slot? hslot
      left
      by_cases hkey : s.key = t.key
      · simp [call, hget, keys, hkey]
      · have := mem_keys_erase hs hkey
        simp_all [call, keys]
    · by_cases hkey : s.key = key
      · subst hkey
        exact .inr (.inr (.inl (hover hnone)))
      · exact .inl (by simpa [call, hget] using mem_keys_erase hs hkey)
  | has key =>
    rcases c.has_cases now key with ⟨t, -, hhas⟩ | ⟨hnone, hhas⟩
    · exact .inl (by simpa [call, hhas, keys] using ⟨s, hs, rfl⟩)
    · by_cases hkey : s.key = key
      · subst hkey
        exact .inr (.inr (.inl (hover hnone)))
      · exact .inl (by simpa [call, hhas] using mem_keys_erase hs hkey)
  | put key value =>
    rcases mem_keys_put_or hs now key value with hmem | ⟨hnew, hfull, rest, hslots⟩
    · exact .inl hmem
    · exact .inr (.inr (.inr ⟨key, value, rest, rfl, hnew, hfull, hslots⟩))
  | pop key =>
    by_cases hkey : s.key = key
    · exact .inr (.inl (by simp [Event.removes, hkey]))
    · exact .inl (by simpa [call, pop] using mem_keys_erase hs hkey)
  | keys => exact .inl (List.mem_map_of_mem hs)
  | clear => exact .inr (.inl rfl)

/-! ### Runs -/

section

variable {capacity : Nat} {lifetime : Option τ} {now : τ} {key : κ}

/-- An entitled key is not too old to be handed out, now or before. -/
theorem Faithful.isOver_eq_false {past : List (Event τ κ ν)} {c : Cache τ κ ν} (h : Faithful past c)
    (hage : ∀ stored : τ, Monotone fun t ↦ t - stored)
    (hkey : Entitled capacity c.lifetime now key past) {s : Slot τ κ ν} (hs : s ∈ c.slots)
    (hskey : s.key = key) {time : τ} (htime : time ≤ now) : c.isOver time s = false := by
  subst hskey
  refine isOver_eq_false_iff.2 fun t ht ↦ ?_
  have hyoung := hkey.young t ht s.stored (storedAt?_of_standing (h.standing s hs))
  exact (hage s.stored htime).trans_lt hyoung

/-- One more call keeps a key that is entitled afterwards. -/
theorem Faithful.mem_keys_call {past : List (Event τ κ ν)} {c : Cache τ κ ν} (h : Faithful past c)
    (hcapacity : c.capacity = capacity) (hlifetime : c.lifetime = lifetime)
    (hage : ∀ stored : τ, Monotone fun t ↦ t - stored) {time : τ} (htime : time ≤ now)
    {x : Call κ ν}
    (hkey : Entitled capacity lifetime now key (⟨time, x, (c.call time x).1⟩ :: past))
    (hheld : Entitled capacity lifetime now key past → key ∈ c.keys) :
    key ∈ (c.call time x).2.keys := by
  subst hcapacity hlifetime
  -- A use of the key leaves it there. Any other call can only take it out, by name, by age, or to
  -- make room, and an entitled key is exempt from each of these.
  cases huse : Event.uses key ⟨time, x, (c.call time x).1⟩ with
  | true =>
    obtain ⟨kept, -, ⟨-, hnone, -⟩ | ⟨s, heq, -, -, hs, -⟩⟩ := c.call_cases time x
    · exact absurd (huse.symm.trans (hnone key)) (by decide)
    · have hskey : key = s.key := by
        by_contra hne
        exact absurd (huse.symm.trans (Event.uses_eq_false hs hne)) (by decide)
      simp [heq, keys, hskey]
  | false =>
    have hpast := hkey.of_cons huse
    obtain ⟨s, hs, rfl⟩ := List.mem_map.1 (hheld hpast)
    have hkept := hkey.kept
    have hfew := hkey.few
    rw [since_cons_of_not_uses huse] at hkept hfew
    rcases mem_keys_call_or h.nodup hs time x with hmem | hremoved | hover | hevicted
    · exact hmem
    · exact absurd ((hkept _ List.mem_cons_self).symm.trans hremoved) (by decide)
    · have hyoung := h.isOver_eq_false hage hpast hs rfl htime
      exact absurd (hyoung.symm.trans hover) (by decide)
    · obtain ⟨new, value, rest, rfl, hnew, hfull, hslots⟩ := hevicted
      have hmany := h.size_le_card_of_head (e := ⟨time, .put new value, .done⟩) hslots hnew
        (by simp [Event.uses])
      exact absurd (hfull.trans hmany) (Nat.not_le.2 hfew)

/-- A run keeps every key that is entitled. -/
theorem mem_keys_run (hcapacity : 1 ≤ capacity) (hage : ∀ stored : τ, Monotone fun t ↦ t - stored)
    {calls : List (τ × Call κ ν)} {past : List (Event τ κ ν)} {c : Cache τ κ ν}
    (hrun : run (empty capacity lifetime) calls = (past, c)) (hclock : ∀ x ∈ calls, x.1 ≤ now)
    (hkey : Entitled capacity lifetime now key past) : key ∈ c.keys := by
  induction calls using List.reverseRecOn generalizing past c with
  | nil =>
    obtain ⟨rfl, rfl⟩ := Prod.mk.inj hrun
    obtain ⟨e, he, -⟩ := hkey.used
    exact nomatch he
  | append_singleton calls timed ih =>
    rw [run, List.foldl_append] at hrun
    obtain ⟨rfl, rfl⟩ := Prod.mk.inj hrun
    have hbefore : run (empty capacity lifetime) calls =
        ((calls.foldl record ([], empty capacity lifetime)).1,
          (calls.foldl record ([], empty capacity lifetime)).2) := rfl
    obtain ⟨hfaithful, hcap, hlife⟩ := faithful_run hcapacity hbefore
    refine hfaithful.mem_keys_call hcap hlife hage (hclock timed (by simp)) hkey ?_
    exact ih rfl fun x hx ↦ hclock x (List.mem_append_left _ hx)

/-- **A cache retains what it must.** After any run from an empty cache that has room, a key is
found if by the history the cache has no reason to have dropped it: it was used, fewer distinct
other keys than the capacity were used since, it was neither taken out nor cleared since, and less
than a lifetime has passed since a value was last stored under it. Of the clock it is only assumed
that no call was made later than `now` and that ages grow with the time. -/
theorem run_retains (hcapacity : 1 ≤ capacity) (hage : ∀ stored : τ, Monotone fun t ↦ t - stored)
    {calls : List (τ × Call κ ν)} {past : List (Event τ κ ν)} {c : Cache τ κ ν}
    (hrun : run (empty capacity lifetime) calls = (past, c)) (hclock : ∀ x ∈ calls, x.1 ≤ now)
    (hkey : Entitled capacity lifetime now key past) : ∃ v, (c.get now key).1 = some v := by
  obtain ⟨s, hs, hskey⟩ := List.mem_map.1 (mem_keys_run hcapacity hage hrun hclock hkey)
  obtain ⟨hfaithful, -, rfl⟩ := faithful_run hcapacity hrun
  have hslot := (slot?_eq_some_iff hfaithful.nodup).2 ⟨hs, hskey⟩
  have hyoung := hfaithful.isOver_eq_false hage hkey hs hskey le_rfl
  exact ⟨s.value, get_eq_some_iff.2 ⟨s, ⟨hslot, hyoung⟩, rfl⟩⟩

end

/-- With room for two, `a` is found after one other key was used, and `b`, after two other keys were
used, is not. -/
theorem run_retains_sample : ∃ past c,
    run (empty 2 (some 10)) sampleCalls = (past, c) ∧ Entitled 2 (some 10) 9 "a" past ∧
      (∃ v, (c.get 9 "a").1 = some v) ∧
      (usedKeys (since "b" past)).card = 2 ∧ (c.get 9 "b").1 = none := by
  have hage : ∀ stored : ℤ, Monotone fun t ↦ t - stored := fun stored _ _ h ↦
    Int.sub_le_sub_right h stored
  have hclock : ∀ x ∈ sampleCalls, x.1 ≤ 9 := by decide
  have hentitled : Entitled 2 (some 10) 9 "a" (run (empty 2 (some 10)) sampleCalls).1 :=
    ⟨by decide, by decide, by decide, by decide⟩
  exact ⟨_, _, rfl, hentitled, run_retains (by decide) hage rfl hclock hentitled, by decide,
    by decide⟩

end TypeLens.Cache
