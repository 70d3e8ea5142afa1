import Mathlib.Data.List.Induction
import Mathlib.Order.Lattice
import TypeLens.Proofs.Cache.Operation

/-!
# The history of a cache

A client makes one call after another, and `run` records each call with its time and its answer, the
latest first. From such a history alone one can read off

* when a key was last used, `idle`: storing a value is a use, and so is reading one that is there;
* what was last stored under a key and when, `standing`, unless it was taken out since.

**A cache is what its history says** (`run_refines`): the keys come in the order of their last use,
and a value that is handed out is the one that stands, stored less than a lifetime ago. Nothing is
assumed of the clock. The two facts are carried through a run by `Faithful`; what a single call does
is said once, in `call_cases`.
-/

namespace TypeLens.Cache

/-- What a client may ask of a cache. -/
inductive Call (κ ν : Type) where
  | get (key : κ)
  | put (key : κ) (value : ν)
  | has (key : κ)
  | pop (key : κ)
  | keys
  | clear
deriving Repr, DecidableEq

/-- What a cache answers. -/
inductive Answer (κ ν : Type) where
  | value (found : Option ν)
  | truth (holds : Bool)
  | keys (keys : List κ)
  | done
deriving Repr, DecidableEq

/-- A call and its answer. -/
structure Event (τ κ ν : Type) where
  /-- The time of the call. -/
  time : τ
  /-- The call. -/
  call : Call κ ν
  /-- The answer. -/
  answer : Answer κ ν
deriving Repr, DecidableEq

variable {τ κ ν : Type} [DecidableEq κ]

/-! ### Reading a history -/

/-- Whether an event is a use of a key. -/
def Event.uses (key : κ) (e : Event τ κ ν) : Bool :=
  match e.call, e.answer with
  | .put k _, _ => k = key
  | .get k, .value (some _) => k = key
  | _, _ => false

/-- The number of calls since the last use of a key. -/
def idle (past : List (Event τ κ ν)) (key : κ) : Nat :=
  past.findIdx (Event.uses key)

/-- The time and the value last stored under a key, unless it was taken out since. -/
def standing (key : κ) : List (Event τ κ ν) → Option (τ × ν)
  | [] => none
  | e :: past =>
    match e.call with
    | .put k v => if k = key then some (e.time, v) else standing key past
    | .pop k => if k = key then none else standing key past
    | .clear => none
    | _ => standing key past

/-- Whether an event takes out what stands under a key. -/
def Event.removes (key : κ) (e : Event τ κ ν) : Bool :=
  match e.call with
  | .pop k => k = key
  | .clear => true
  | _ => false

theorem idle_cons_of_uses {e : Event τ κ ν} {key : κ} (h : e.uses key = true)
    (past : List (Event τ κ ν)) : idle (e :: past) key = 0 := by
  simp [idle, List.findIdx_cons, h]

theorem idle_cons_of_not_uses {e : Event τ κ ν} {key : κ} (h : e.uses key = false)
    (past : List (Event τ κ ν)) : idle (e :: past) key = idle past key + 1 := by
  simp [idle, List.findIdx_cons, h]

/-- An event is a use of one key at most. -/
theorem Event.uses_eq_false {e : Event τ κ ν} {key other : κ} (h : e.uses key = true)
    (hne : other ≠ key) : e.uses other = false := by
  revert h
  simp only [Event.uses]
  split
  · intro h
    simpa [of_decide_eq_true h] using hne.symm
  · intro h
    simpa [of_decide_eq_true h] using hne.symm
  · exact fun h ↦ nomatch h

/-- A call that neither stores a key nor removes it leaves the standing of the key. -/
theorem standing_cons_of_not {e : Event τ κ ν} {key : κ} (hput : ∀ v, e.call ≠ .put key v)
    (h : e.removes key = false) (past : List (Event τ κ ν)) :
    standing key (e :: past) = standing key past := by
  obtain ⟨time, call, answer⟩ := e
  cases call with
  | put k v =>
    have hk : k ≠ key := fun hk ↦ hput v (by rw [hk])
    simp [standing, hk]
  | pop k => simp_all [standing, Event.removes]
  | clear => simp [Event.removes] at h
  | get | has | keys => rfl

/-- A sound cache that agrees with a history: its slots come in the order of their last use, and
hold what stands. -/
structure Faithful (past : List (Event τ κ ν)) (c : Cache τ κ ν) : Prop extends c.Sound where
  /-- A slot was used before the slots behind it. -/
  recency : c.slots.Pairwise fun s t ↦ idle past t.key < idle past s.key
  /-- Every key was used. -/
  used : ∀ s ∈ c.slots, idle past s.key < past.length
  /-- Every slot has what was last stored under its key, and when. -/
  standing : ∀ s ∈ c.slots, standing s.key past = some (s.stored, s.value)

/-- A cache without slots is faithful to the empty history. -/
theorem faithful_empty (capacity : Nat) (lifetime : Option τ) :
    Faithful [] (empty capacity lifetime : Cache τ κ ν) where
  toSound := sound_empty capacity lifetime
  recency := List.Pairwise.nil
  used := fun _ hs ↦ nomatch hs
  standing := fun _ hs ↦ nomatch hs

variable [Sub τ] [LinearOrder τ]

/-! ### Runs -/

/-- Answers a call. -/
def call (c : Cache τ κ ν) (now : τ) : Call κ ν → Answer κ ν × Cache τ κ ν
  | .get key => ((c.get now key).map .value id)
  | .put key value => (.done, c.put now key value)
  | .has key => (c.has now key).map .truth id
  | .pop key => (c.pop key).map .value id
  | .keys => (.keys c.keys, c)
  | .clear => (.done, c.clear)

/-- Answers one more call, and records it. -/
def record (s : List (Event τ κ ν) × Cache τ κ ν) (timed : τ × Call κ ν) :
    List (Event τ κ ν) × Cache τ κ ν :=
  (⟨timed.1, timed.2, (s.2.call timed.1 timed.2).1⟩ :: s.1, (s.2.call timed.1 timed.2).2)

/-- The history of a cache that answers calls, the latest first, and the cache afterwards. -/
def run (c : Cache τ κ ν) (calls : List (τ × Call κ ν)) : List (Event τ κ ν) × Cache τ κ ν :=
  calls.foldl record ([], c)

/-- **What a call can do.** It drops slots, among them those of the keys it takes out; or it is a
use of one key, whose slot comes to the end, stored now or as it was, and there is room for it. -/
theorem call_cases (c : Cache τ κ ν) (now : τ) (x : Call κ ν) :
    ∃ kept, kept.Sublist c.slots ∧
      (((c.call now x).2 = { c with slots := kept } ∧
          (∀ k, Event.uses k ⟨now, x, (c.call now x).1⟩ = false) ∧
          ∀ t ∈ kept, Event.removes t.key ⟨now, x, (c.call now x).1⟩ = false) ∨
        ∃ s, (c.call now x).2 = { c with slots := kept ++ [s] } ∧ (∀ t ∈ kept, t.key ≠ s.key) ∧
          (c.size ≤ c.capacity → 1 ≤ c.capacity → kept.length < c.capacity) ∧
          Event.uses s.key ⟨now, x, (c.call now x).1⟩ = true ∧
          (s ∈ c.slots ∧ x = .get s.key ∨ s.stored = now ∧ x = .put s.key s.value)) := by
  -- Only a hit of `get` and a `put` use a key. All other calls leave the slots or take some out.
  cases x with
  | get key =>
    rcases c.get_cases now key with ⟨s, ⟨hslot, -⟩, hget⟩ | ⟨-, hget⟩
    · obtain ⟨hmem, rfl⟩ := mem_of_slot? hslot
      refine ⟨_, c.erase_sublist s.key, .inr ⟨s, ?_, fun t ↦ key_ne_of_mem_erase, ?_, ?_, ?_⟩⟩
      · simp [call, hget]
      · exact fun hsize _ ↦ Nat.lt_of_lt_of_le (length_erase_lt (by simp [hslot])) hsize
      · simp [call, hget, Event.uses]
      · exact .inl ⟨hmem, rfl⟩
    · exact ⟨_, c.erase_sublist key, .inl ⟨by simp [call, hget, erase],
        fun k ↦ by simp [call, hget, Event.uses], fun _ _ ↦ rfl⟩⟩
  | put key value =>
    obtain ⟨kept, heq, hsub, hkey, hroom⟩ := c.put_eq now key value
    exact ⟨kept, hsub, .inr ⟨_, heq, hkey, hroom, by simp [Event.uses], .inr ⟨rfl, rfl⟩⟩⟩
  | has key =>
    rcases c.has_cases now key with ⟨s, -, hhas⟩ | ⟨-, hhas⟩
    · exact ⟨c.slots, .refl _, .inl ⟨by simp [call, hhas], fun _ ↦ rfl, fun _ _ ↦ rfl⟩⟩
    · exact ⟨_, c.erase_sublist key, .inl ⟨by simp [call, hhas, erase], fun _ ↦ rfl,
        fun _ _ ↦ rfl⟩⟩
  | pop key =>
    refine ⟨_, c.erase_sublist key, .inl ⟨rfl, fun _ ↦ rfl, fun t ht ↦ ?_⟩⟩
    simpa [Event.removes] using (key_ne_of_mem_erase ht).symm
  | keys => exact ⟨c.slots, .refl _, .inl ⟨rfl, fun _ ↦ rfl, fun _ _ ↦ rfl⟩⟩
  | clear => exact ⟨[], List.nil_sublist _, .inl ⟨rfl, fun _ ↦ rfl, by simp⟩⟩

/-! ### The cache and its history -/

/-- One more call keeps a cache faithful. -/
theorem Faithful.call {past : List (Event τ κ ν)} {c : Cache τ κ ν} (h : Faithful past c)
    (hcapacity : 1 ≤ c.capacity) (now : τ) (x : Call κ ν) :
    Faithful (⟨now, x, (c.call now x).1⟩ :: past) (c.call now x).2 := by
  obtain ⟨kept, hsub, hcase⟩ := c.call_cases now x
  have hrecency := h.recency.sublist hsub
  rcases hcase with ⟨heq, huses, hremoves⟩ | ⟨s, heq, hkey, hroom, huse, hslot⟩
  -- Without a use all keys are idle for one call more, and their order stays.
  · rw [heq]
    refine ⟨h.toSound.of_sublist hsub, hrecency.imp ?_, fun s hs ↦ ?_, fun s hs ↦ ?_⟩
    · intro s t hst
      rw [idle_cons_of_not_uses (huses _), idle_cons_of_not_uses (huses _)]
      exact Nat.succ_lt_succ hst
    · rw [idle_cons_of_not_uses (huses _)]
      exact Nat.succ_lt_succ (h.used s (hsub.subset hs))
    · rw [standing_cons_of_not (fun v hput ↦ ?_) (hremoves s hs), h.standing s (hsub.subset hs)]
      exact absurd (huses s.key) (by simp_all [Event.uses])
  -- After a use one key is not idle at all, and all others come before it.
  · have hother : ∀ t ∈ kept, Event.uses t.key ⟨now, x, (c.call now x).1⟩ = false := fun t ht ↦
      Event.uses_eq_false huse (hkey t ht)
    rw [heq]
    refine ⟨h.toSound.concat hsub hkey (hroom h.size_le hcapacity),
      List.pairwise_append.2 ⟨hrecency.imp_of_mem ?_, List.pairwise_singleton .., ?_⟩, ?_, ?_⟩
    · intro a b ha hb hab
      rw [idle_cons_of_not_uses (hother a ha), idle_cons_of_not_uses (hother b hb)]
      exact Nat.succ_lt_succ hab
    · intro a ha b hb
      obtain rfl := List.mem_singleton.1 hb
      rw [idle_cons_of_uses huse, idle_cons_of_not_uses (hother a ha)]
      exact Nat.succ_pos _
    · intro t ht
      rcases List.mem_append.1 ht with ht | ht
      · rw [idle_cons_of_not_uses (hother t ht)]
        exact Nat.succ_lt_succ (h.used t (hsub.subset ht))
      · rw [List.mem_singleton.1 ht, idle_cons_of_uses huse]
        exact Nat.succ_pos _
    · intro t ht
      rcases List.mem_append.1 ht with ht | ht
      · have hput : ∀ v, x ≠ .put t.key v := fun v hput ↦ by
          have := hother t ht
          simp [hput, Event.uses] at this
        rw [standing_cons_of_not hput, h.standing t (hsub.subset ht)]
        rcases hslot with ⟨-, rfl⟩ | ⟨-, rfl⟩ <;> rfl
      · obtain rfl := List.mem_singleton.1 ht
        rcases hslot with ⟨hmem, rfl⟩ | ⟨rfl, rfl⟩
        · exact h.standing t hmem
        · simp [Cache.standing]

/-- A call changes nothing but the slots. -/
theorem call_settings (c : Cache τ κ ν) (now : τ) (x : Call κ ν) :
    (c.call now x).2.capacity = c.capacity ∧ (c.call now x).2.lifetime = c.lifetime := by
  obtain ⟨kept, -, ⟨heq, -⟩ | ⟨s, heq, -⟩⟩ := c.call_cases now x <;> rw [heq] <;> exact ⟨rfl, rfl⟩

/-- A run keeps a cache faithful. -/
theorem faithful_run {capacity : Nat} {lifetime : Option τ} {calls : List (τ × Call κ ν)}
    {past : List (Event τ κ ν)} {c : Cache τ κ ν} (hcapacity : 1 ≤ capacity)
    (hrun : run (empty capacity lifetime) calls = (past, c)) :
    Faithful past c ∧ c.capacity = capacity ∧ c.lifetime = lifetime := by
  induction calls using List.reverseRecOn generalizing past c with
  | nil =>
    obtain ⟨rfl, rfl⟩ := Prod.mk.inj hrun
    exact ⟨faithful_empty capacity lifetime, rfl, rfl⟩
  | append_singleton calls timed ih =>
    rw [run, List.foldl_append] at hrun
    obtain ⟨rfl, rfl⟩ := Prod.mk.inj hrun
    obtain ⟨hfaithful, hcap, hlife⟩ := ih rfl
    have hsettings := call_settings (run (empty capacity lifetime) calls).2 timed.1 timed.2
    exact ⟨hfaithful.call (hcapacity.trans hcap.ge) timed.1 timed.2, hsettings.1.trans hcap,
      hsettings.2.trans hlife⟩

/-- What may be handed out is what stands under a key that is held, before its lifetime is over. -/
theorem Faithful.available_iff {past : List (Event τ κ ν)} {c : Cache τ κ ν} (h : Faithful past c)
    {now : τ} {key : κ} {v : ν} :
    (∃ s, c.Available now key s ∧ s.value = v) ↔
      key ∈ c.keys ∧ ∃ stored, Cache.standing key past = some (stored, v) ∧
        ∀ t ∈ c.lifetime, now - stored < t := by
  constructor
  · rintro ⟨s, ⟨hslot, hover⟩, rfl⟩
    obtain ⟨hmem, rfl⟩ := mem_of_slot? hslot
    exact ⟨List.mem_map_of_mem hmem, s.stored, h.standing s hmem, isOver_eq_false_iff.1 hover⟩
  · rintro ⟨hkey, stored, hstanding, hage⟩
    obtain ⟨s, hmem, rfl⟩ := List.mem_map.1 hkey
    obtain ⟨rfl, rfl⟩ : s.stored = stored ∧ s.value = v := by
      simpa using (h.standing s hmem).symm.trans hstanding
    exact ⟨s, ⟨(slot?_eq_some_iff h.nodup).2 ⟨hmem, rfl⟩, isOver_eq_false_iff.2 hage⟩, rfl⟩

/-- **A cache is what its history says.** After any run from an empty cache that has room, keys are
distinct and fit the capacity; they are all used, and listed from the one used longest ago to the
one used last. Reading a key hands out the value that stands under it, for keys that are held, until
its lifetime is over, counted from when it was stored; and the key is found to be there just
then. -/
theorem run_refines {capacity : Nat} {lifetime : Option τ} {calls : List (τ × Call κ ν)}
    {past : List (Event τ κ ν)} {c : Cache τ κ ν} (hcapacity : 1 ≤ capacity)
    (hrun : run (empty capacity lifetime) calls = (past, c)) :
    c.keys.Nodup ∧ c.keys.length ≤ capacity ∧
      c.keys.Pairwise (fun a b ↦ idle past b < idle past a) ∧
      (∀ k ∈ c.keys, ∃ e ∈ past, e.uses k = true) ∧
      (∀ now k v, (c.get now k).1 = some v ↔
        k ∈ c.keys ∧ ∃ stored, standing k past = some (stored, v) ∧
          ∀ t ∈ lifetime, now - stored < t) ∧
      ∀ now k, (c.has now k).1 = true ↔
        k ∈ c.keys ∧ ∃ stored v, standing k past = some (stored, v) ∧
          ∀ t ∈ lifetime, now - stored < t := by
  obtain ⟨h, rfl, rfl⟩ := faithful_run hcapacity hrun
  refine ⟨h.nodup, ?_, List.pairwise_map.2 h.recency, ?_, ?_, ?_⟩
  · rw [keys, List.length_map]
    exact h.size_le
  · intro k hk
    obtain ⟨s, hs, rfl⟩ := List.mem_map.1 hk
    exact List.findIdx_lt_length.1 (h.used s hs)
  · intro now k v
    rw [get_eq_some_iff, h.available_iff]
  · intro now k
    calc (c.has now k).1 = true
      _ ↔ ∃ v s, c.Available now k s ∧ s.value = v := by simp [has_iff]
      _ ↔ _ := by
        simp only [h.available_iff, exists_and_left]
        rw [exists_comm]

/-- A run with room for two: `b` makes room for `c`, because `a` was read in between. -/
def sampleCalls : List (ℤ × Call String ℕ) :=
  [(0, .put "a" 1), (1, .put "b" 2), (2, .get "a"), (3, .put "c" 3), (4, .has "b")]

/-- With room for two, the key that was used longest ago makes way, and a value is held only for its
lifetime. -/
theorem run_refines_sample : ∃ past c,
    run (empty 2 (some 10)) sampleCalls = (past, c) ∧ c.keys = ["a", "c"] ∧
      idle past "c" < idle past "a" ∧ standing "b" past = some (1, 2) ∧
      (c.get 9 "a").1 = some 1 ∧ (c.get 9 "b").1 = none ∧ ¬(c.has 10 "a").1 = true := by
  have hrun : run (empty 2 (some 10)) sampleCalls =
      ((run (empty 2 (some 10)) sampleCalls).1, (run (empty 2 (some 10)) sampleCalls).2) := rfl
  obtain ⟨-, -, hrecency, -, hget, hhas⟩ := run_refines (by decide) hrun
  have hkeys : (run (empty 2 (some 10)) sampleCalls).2.keys = ["a", "c"] := by decide
  have hstanding : standing "a" (run (empty 2 (some 10)) sampleCalls).1 = some (0, 1) := by decide
  refine ⟨_, _, hrun, hkeys, ?_, by decide, ?_, ?_, ?_⟩
  · rw [hkeys] at hrecency
    simpa using hrecency
  · exact (hget 9 "a" 1).2 ⟨by simp [hkeys], 0, hstanding, by simp⟩
  · refine Option.eq_none_iff_forall_ne_some.2 fun v hv ↦ ?_
    simpa [hkeys] using ((hget 9 "b" v).1 hv).1
  · intro h
    obtain ⟨-, stored, v, hv, hage⟩ := (hhas 10 "a").1 h
    obtain ⟨rfl, -⟩ : 0 = stored ∧ 1 = v := by simpa using hstanding.symm.trans hv
    exact absurd (hage 10 rfl) (by decide)

end TypeLens.Cache
