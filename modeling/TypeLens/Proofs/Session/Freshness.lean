import Mathlib.Algebra.Ring.Int.Defs
import Mathlib.Data.Int.Order.Basic
import Mathlib.Order.Basic
import TypeLens.Proofs.Cache.Operation
import TypeLens.Proofs.Graph.Closed
import TypeLens.Proofs.Session.Change
import TypeLens.Session

/-!
# Sessions are never stale

A *factory* makes an oracle of the content of a snapshot. It may fail, also where it did not fail
before. A `Scene` has the files, the time and the sessions that are kept; in a `Run` sessions are
requested and dropped, time passes and files change. Every file that is written or touched gets a
time of modification that it never had before, and nothing else is assumed.

**Requests are served afresh** (`Run.served`): a session that is handed out was made from the
content that the file has now, and its lifetime is not over; the factory is called only if there is
no such session; and a request that fails leaves the other sessions as they are.

Why it holds: a session remembers the time of modification of its file, and that time tells the
content (`FileSystem.Dated`). So it is enough that every session in the cache was made from what the
file had at that time (`Origin`), which each step keeps (`Run.kept`).
-/

namespace TypeLens

open TypeLens.Graph

namespace Session

/-- What makes an oracle of the path and the content of a snapshot. -/
abbrev Factory := String → ByteArray → Except BuildError Oracle

/-- The builder that hands the content of files to a factory. It fails if it is told to. -/
def Factory.builder (factory : Factory) (fs : FileSystem) (refusal : Option BuildError) :
    Builder := fun path ↦
  match refusal with
  | some cause => .error cause
  | none =>
    match fs.stat path with
    | .ok (.file content _) => factory path content
    | _ => .error (.directory path)

/-- The factory that reads snapshots. -/
def loader (working : String) : Factory := fun path content ↦
  match Snapshot.parse content with
  | .ok snapshot => .ok { snapshot, base := Path.parent (Path.absolute working path) }
  | .error e => .error (.snapshot e)

/-- Sessions are loaded by reading snapshots. -/
theorem load_eq_builder (fs : FileSystem) : load fs = (loader fs.working).builder fs none := by
  funext path
  rw [load, Factory.builder]
  cases fs.stat path with
  | error e => rfl
  | ok node => cases node <;> rfl

end Session

namespace Sessions

variable {τ : Type}

/-- Building fails and is counted, or a session is kept as the one used last. -/
theorem build_cases (s : Sessions τ) (builder : Session.Builder) (now : τ) (key : String)
    (modified : Int) :
    (∃ cause, builder key = .error cause ∧
        s.build builder now key modified =
          (.error (.build key cause), { s with builds := s.builds + 1 })) ∨
      ∃ oracle session, builder key = .ok oracle ∧ session.key = key ∧ session.oracle = oracle ∧
        session.modified = modified ∧
        s.build builder now key modified =
          (.ok session,
            { s with cache := s.cache.put now key session, builds := s.builds + 1 }) := by
  cases hbuilder : builder key with
  | error cause => exact .inl ⟨cause, rfl, by simp [build, hbuilder]⟩
  | ok oracle =>
    exact .inr ⟨oracle, ⟨key, oracle, s.skipped.filter oracle.snapshot.hasTypeNamed, modified,
      s.builds⟩, rfl, rfl, rfl, rfl, by simp [build, hbuilder]⟩

section

variable [Sub τ] [LE τ] [DecidableLE τ]

/-- **What a request can do.** It fails because there is no file to look at; or a session is there,
unchanged and in time, and is the one used last now; or one is built, after what there was is
dropped. -/
theorem getOrBuildAt_cases (s : Sessions τ) (fs : FileSystem) (builder : Session.Builder) (now : τ)
    (key : String) :
    (∃ e, modified fs key = .error e ∧ s.getOrBuildAt fs builder now key = (.error e, s)) ∨
      ∃ m, modified fs key = .ok m ∧
        ((∃ slot, s.cache.Available now key slot ∧ some slot.value.modified = m ∧
            s.getOrBuildAt fs builder now key =
              (.ok slot.value, { s with
                cache := { s.cache with slots := (s.cache.erase key).slots ++ [slot] } })) ∨
          (∀ slot, s.cache.Available now key slot → some slot.value.modified ≠ m) ∧
            s.getOrBuildAt fs builder now key =
              { s with cache := s.cache.erase key }.build builder now key (m.getD 0)) := by
  cases hmodified : modified fs key with
  | error e => exact .inl ⟨e, rfl, by simp only [getOrBuildAt, hmodified]⟩
  | ok m =>
    refine .inr ⟨m, rfl, ?_⟩
    rcases s.cache.get_cases now key with ⟨slot, hslot, hget⟩ | ⟨hnone, hget⟩
    · by_cases hm : some slot.value.modified = m
      · exact .inl ⟨slot, hslot, hm, by simp only [getOrBuildAt, hmodified, hget, hm, if_true]⟩
      · refine .inr ⟨fun t ht ↦ ?_, ?_⟩
        · obtain rfl : slot = t := Option.some.inj (hslot.1.symm.trans ht.1)
          exact hm
        · simp only [getOrBuildAt, hmodified, hget, hm, if_false, Cache.pop,
            Cache.erase_moveToEnd hslot.1]
    · exact .inr ⟨fun t ht ↦ absurd ht (hnone t), by simp only [getOrBuildAt, hmodified, hget]⟩

end

variable [AddGroup τ] [LinearOrder τ]

/-! ### Runs -/

/-- What there is at one moment. -/
structure Scene (τ : Type) where
  /-- The files. -/
  files : FileSystem
  /-- The time. -/
  now : τ
  /-- The sessions that are kept. -/
  sessions : Sessions τ

/-- The answer to a request, and the sessions afterwards. -/
def Scene.request (s : Scene τ) (factory : Session.Factory) (path : String)
    (refusal : Option Session.BuildError) : Except Session.Error Session × Sessions τ :=
  s.sessions.getOrBuild s.files (factory.builder s.files refusal) s.now path

/-- `Run factory start past s` leads from the sessions `start`, with any files and at any time, to
the scene `s`, through the file systems `past`, the latest first. -/
inductive Run (factory : Session.Factory) (start : Sessions τ) : List FileSystem → Scene τ → Prop
  | start (files : FileSystem) (now : τ) : Run factory start [files] ⟨files, now, start⟩
  /-- A session is requested; the factory may be told to fail. -/
  | request {past : List FileSystem} {s : Scene τ} (hrun : Run factory start past s)
    (path : String) (refusal : Option Session.BuildError) :
    Run factory start past { s with sessions := (s.request factory path refusal).2 }
  /-- All sessions are dropped. -/
  | clear {past : List FileSystem} {s : Scene τ} (hrun : Run factory start past s) :
    Run factory start past { s with sessions := s.sessions.clear }
  /-- Time passes. -/
  | wait {past : List FileSystem} {s : Scene τ} (hrun : Run factory start past s) (elapsed : τ) :
    Run factory start past { s with now := s.now + elapsed }
  /-- The files change, and a file that is written or touched gets a time it never had before. -/
  | change {past : List FileSystem} {s : Scene τ} (hrun : Run factory start past s)
    (x : FileSystem.Change) (hfresh : x.Fresh past) :
    Run factory start (x.apply s.files :: past) { s with files := x.apply s.files }

/-! ### What is kept -/

/-- A slot has a session for its key, made from the content that the file once had at the time of
modification that the session remembers. -/
def Origin (factory : Session.Factory) (past : List FileSystem)
    (slot : Cache.Slot τ String Session) : Prop :=
  slot.value.key = slot.key ∧ ∃ fs ∈ past, ∃ content,
    fs.stat slot.key = .ok (.file content slot.value.modified) ∧
      factory slot.key content = .ok slot.value.oracle

/-- What holds all along a run. -/
structure Kept (factory : Session.Factory) (start : Sessions τ) (past : List FileSystem)
    (s : Scene τ) : Prop where
  /-- The capacity does not change. -/
  capacity_eq : s.sessions.cache.capacity = start.cache.capacity
  /-- The lifetime does not change. -/
  lifetime_eq : s.sessions.cache.lifetime = start.cache.lifetime
  /-- The cache is sound. -/
  sound : s.sessions.cache.Sound
  /-- The time of modification tells the content. -/
  dated : FileSystem.Dated past
  /-- The files are the latest of those met. -/
  files_mem : s.files ∈ past
  /-- Every session was made from what its file had. -/
  origin : ∀ slot ∈ s.sessions.cache.slots, Origin factory past slot

section

variable {factory : Session.Factory} {start : Sessions τ} {past : List FileSystem} {s : Scene τ}

/-- A builder that succeeds was given the content of a file. -/
theorem of_builder_eq_ok {fs : FileSystem} {refusal : Option Session.BuildError} {key : String}
    {oracle : Oracle} (h : factory.builder fs refusal key = .ok oracle) :
    ∃ content m, fs.stat key = .ok (.file content m) ∧ factory key content = .ok oracle := by
  cases refusal with
  | some cause => cases h
  | none =>
    simp only [Session.Factory.builder] at h
    split at h
    · next content m hstat => exact ⟨content, m, hstat, h⟩
    · cases h

/-- There is a modification time exactly for files. -/
theorem modified_eq_some_iff {fs : FileSystem} {key : String} {m : Int} :
    modified fs key = .ok (some m) ↔ ∃ content, fs.stat key = .ok (.file content m) := by
  rw [modified]
  rcases fs.stat key with (_ | _ | _) | (_ | ⟨content, modified⟩) <;> simp

/-- A request keeps what is kept, and what it answers is of that kind. -/
theorem Kept.request (h : Kept factory start past s) (hcapacity : 1 ≤ start.cache.capacity)
    (path : String) (refusal : Option Session.BuildError) :
    Kept factory start past { s with sessions := (s.request factory path refusal).2 } := by
  rw [Scene.request, getOrBuild]
  generalize s.files.absolute path = key
  have herased : ∀ slot ∈ (s.sessions.cache.erase key).slots, Origin factory past slot :=
    fun slot hslot ↦ h.origin slot ((s.sessions.cache.erase_sublist key).subset hslot)
  -- There is no file, or a held session moves to the end, or a session is built.
  rcases s.sessions.getOrBuildAt_cases s.files (factory.builder s.files refusal) s.now key with
    ⟨e, -, heq⟩ | ⟨m, hm, ⟨slot, hslot, -, heq⟩ | ⟨-, heq⟩⟩
  · rw [heq]
    exact h
  · rw [heq]
    refine ⟨h.capacity_eq, h.lifetime_eq, h.sound.moveToEnd hslot.1, h.dated, h.files_mem, ?_⟩
    intro t ht
    rcases List.mem_append.1 ht with ht | ht
    · exact herased t ht
    · rw [List.mem_singleton.1 ht]
      exact h.origin slot (Cache.mem_of_slot? hslot.1).1
  · rw [heq]
    rcases build_cases { s.sessions with cache := s.sessions.cache.erase key }
      (factory.builder s.files refusal) s.now key (m.getD 0) with
      ⟨cause, -, hbuild⟩ | ⟨oracle, session, horacle, hkey, rfl, hmodified, hbuild⟩
    · rw [hbuild]
      exact ⟨h.capacity_eq, h.lifetime_eq, h.sound.erase key, h.dated, h.files_mem, herased⟩
    · rw [hbuild]
      obtain ⟨content, m', hstat, hfactory⟩ := of_builder_eq_ok horacle
      obtain rfl : some m' = m :=
        Except.ok.inj ((modified_eq_some_iff.2 ⟨content, hstat⟩).symm.trans hm)
      have hput := (h.sound.erase key).put (hcapacity.trans_eq h.capacity_eq.symm) s.now key session
      obtain ⟨kept, hslots, hsub, -⟩ := (s.sessions.cache.erase key).put_eq s.now key session
      simp only [hslots] at hput ⊢
      refine ⟨h.capacity_eq, h.lifetime_eq, hput, h.dated, h.files_mem, fun t ht ↦ ?_⟩
      rcases List.mem_append.1 ht with ht | ht
      · exact herased t (hsub.subset ht)
      · rw [List.mem_singleton.1 ht]
        refine ⟨hkey, s.files, h.files_mem, content, ?_, hfactory⟩
        rw [hstat, hmodified]
        rfl

omit [AddGroup τ] [LinearOrder τ] in
/-- A change of the files keeps what is kept. -/
theorem Kept.change (h : Kept factory start past s) {x : FileSystem.Change}
    (hfresh : x.Fresh past) :
    Kept factory start (x.apply s.files :: past) { s with files := x.apply s.files } where
  capacity_eq := h.capacity_eq
  lifetime_eq := h.lifetime_eq
  sound := h.sound
  dated := h.dated.apply h.files_mem hfresh
  files_mem := List.mem_cons_self
  origin := by
    intro slot hslot
    obtain ⟨hkey, fs, hfs, hcontent⟩ := h.origin slot hslot
    exact ⟨hkey, fs, List.mem_cons_of_mem _ hfs, hcontent⟩

/-- What is kept at the start is kept along a run. -/
theorem Run.kept {capacity : Nat} {lifetime : Option τ} {skipped : List String}
    (hcapacity : 1 ≤ capacity)
    (hrun : Run factory ⟨.empty capacity lifetime, skipped, 0⟩ past s) :
    Kept factory ⟨.empty capacity lifetime, skipped, 0⟩ past s := by
  induction hrun with
  | start files now =>
    exact ⟨rfl, rfl, Cache.sound_empty capacity lifetime, FileSystem.dated_singleton files,
      List.mem_singleton_self files, fun slot hslot ↦ nomatch hslot⟩
  | request hrun path refusal ih => exact ih.request hcapacity path refusal
  | clear hrun ih =>
    exact ⟨ih.capacity_eq, ih.lifetime_eq, ih.sound.clear, ih.dated, ih.files_mem,
      fun slot hslot ↦ nomatch hslot⟩
  | wait hrun elapsed ih =>
    exact ⟨ih.capacity_eq, ih.lifetime_eq, ih.sound, ih.dated, ih.files_mem, ih.origin⟩
  | change hrun x hfresh ih => exact ih.change hfresh

end

/-! ### What a request gets -/

/-- A slot with a session for a key, not over and as recent as the file. -/
def Scene.Holds (s : Scene τ) (lifetime : Option τ) (key : String)
    (slot : Cache.Slot τ String Session) : Prop :=
  slot ∈ s.sessions.cache.slots ∧ slot.key = key ∧ (∀ t ∈ lifetime, s.now - slot.stored < t) ∧
    modified s.files key = .ok (some slot.value.modified)

/-- What a request for the session at the absolute path `key` answers and leaves behind. -/
structure Served (factory : Session.Factory) (capacity : Nat) (lifetime : Option τ) (s : Scene τ)
    (key : String) (refusal : Option Session.BuildError)
    (result : Except Session.Error Session × Sessions τ) : Prop where
  /-- A session that is handed out is the one of this path. It has the time of modification that the
  file has now, and was made from the content that the file has now. -/
  current : ∀ session, result.1 = .ok session → session.key = key ∧
    ∃ content, s.files.stat key = .ok (.file content session.modified) ∧
      factory key content = .ok session.oracle
  /-- It is kept as the session used last, and its lifetime is not over. -/
  latest : ∀ session, result.1 = .ok session → ∃ earlier stored,
    result.2.cache.slots = earlier ++ [⟨key, session, stored⟩] ∧
      ∀ t ∈ lifetime, s.now - stored < t
  /-- A session that is held is handed out, and the factory is not called. -/
  held : ∀ slot, s.Holds lifetime key slot →
    result.1 = .ok slot.value ∧ result.2.builds = s.sessions.builds
  /-- If none is held and there is a file to look at, the factory is called once, and what comes of
  it is the answer. -/
  built : (∀ slot, ¬s.Holds lifetime key slot) → ∀ m, modified s.files key = .ok m →
    result.2.builds = s.sessions.builds + 1 ∧
      result.1.map Session.oracle = (factory.builder s.files refusal key).mapError (.build key)
  /-- If there is no file to look at, that is the answer, and nothing changes. -/
  missing : ∀ e, modified s.files key = .error e → result = (.error e, s.sessions)
  /-- A request that fails, but not in building, fails for that reason. -/
  unbuilt : ∀ e, result.1 = .error e → (∀ k cause, e ≠ .build k cause) →
    modified s.files key = .error e
  /-- If building fails, the session of this path is dropped, and all others are as they were. -/
  failed : ∀ k cause, result.1 = .error (.build k cause) → k = key ∧
    result.2.cache = s.sessions.cache.erase key
  /-- The keys are distinct. -/
  nodup : result.2.cache.keys.Nodup
  /-- There are no more sessions than there is room for. -/
  size_le : result.2.cache.size ≤ capacity

section

variable {factory : Session.Factory} {capacity : Nat} {lifetime : Option τ} {skipped : List String}
  {past : List FileSystem} {s : Scene τ} {key : String} {refusal : Option Session.BuildError}

/-- No failure to look at a file is a failure to build. -/
theorem modified_ne_build {fs : FileSystem} {k : String} {cause : Session.BuildError} :
    modified fs key ≠ .error (.build k cause) := by
  rw [modified]
  rcases fs.stat key with (_ | _ | _) | (_ | ⟨content, modified⟩) <;> simp

/-- A session is held if it may be handed out and its file has not changed. -/
theorem Kept.holds_iff (h : Kept factory ⟨.empty capacity lifetime, skipped, 0⟩ past s)
    {slot : Cache.Slot τ String Session} :
    s.Holds lifetime key slot ↔ s.sessions.cache.Available s.now key slot ∧
      modified s.files key = .ok (some slot.value.modified) := by
  have hlifetime : s.sessions.cache.lifetime = lifetime := h.lifetime_eq
  rw [Scene.Holds, Cache.Available, Cache.slot?_eq_some_iff h.sound.nodup,
    Cache.isOver_eq_false_iff, hlifetime]
  simp only [and_assoc]

/-- Every session was made from the content that its file has now, if the time is still the same. -/
theorem Kept.current (h : Kept factory ⟨.empty capacity lifetime, skipped, 0⟩ past s)
    {slot : Cache.Slot τ String Session} (hslot : s.Holds lifetime key slot) :
    slot.value.key = key ∧ ∃ content,
      s.files.stat key = .ok (.file content slot.value.modified) ∧
        factory key content = .ok slot.value.oracle := by
  obtain ⟨hmem, rfl, -, hm⟩ := hslot
  obtain ⟨hkey, fs, hfs, content, hthen, hfactory⟩ := h.origin slot hmem
  obtain ⟨content', hnow⟩ := modified_eq_some_iff.1 hm
  obtain rfl := h.dated.content_eq hfs h.files_mem hthen hnow
  exact ⟨hkey, content, hnow, hfactory⟩

/-- Without a file to look at, a request fails for that reason, and nothing changes. -/
theorem Kept.served_missing (h : Kept factory ⟨.empty capacity lifetime, skipped, 0⟩ past s)
    {e : Session.Error} (he : modified s.files key = .error e) :
    Served factory capacity lifetime s key refusal (.error e, s.sessions) where
  current := fun session hsession ↦ nomatch hsession
  latest := fun session hsession ↦ nomatch hsession
  held := by
    rintro slot ⟨-, -, -, hm⟩
    exact nomatch he.symm.trans hm
  built := fun _ m hm ↦ nomatch he.symm.trans hm
  missing := by
    intro e' he'
    rw [Except.error.inj (he.symm.trans he')]
  unbuilt := by
    intro e' he' _
    rwa [← Except.error.inj he']
  failed := by
    intro k cause hfailed
    rw [Except.error.inj hfailed] at he
    exact absurd he modified_ne_build
  nodup := h.sound.nodup
  size_le := h.sound.size_le.trans_eq h.capacity_eq

/-- **A session that is held is handed out.** It was made from the content that the file has now,
because the time of modification is the same. -/
theorem Kept.served_held (h : Kept factory ⟨.empty capacity lifetime, skipped, 0⟩ past s)
    {slot : Cache.Slot τ String Session} (hslot : s.Holds lifetime key slot) :
    Served factory capacity lifetime s key refusal (.ok slot.value, { s.sessions with
      cache := { s.sessions.cache with
        slots := (s.sessions.cache.erase key).slots ++ [slot] } }) := by
  have havailable := (h.holds_iff.1 hslot).1
  have hsound := h.sound.moveToEnd havailable.1
  constructor
  case current =>
    intro session hsession
    obtain rfl := Except.ok.inj hsession
    exact h.current hslot
  case latest =>
    intro session hsession
    obtain rfl := Except.ok.inj hsession
    obtain ⟨-, rfl, hage, -⟩ := hslot
    exact ⟨_, slot.stored, rfl, hage⟩
  case held =>
    intro slot' hslot'
    obtain rfl : slot = slot' :=
      Option.some.inj (havailable.1.symm.trans (h.holds_iff.1 hslot').1.1)
    exact ⟨rfl, rfl⟩
  case built => exact fun hnone ↦ absurd hslot (hnone slot)
  case missing => exact fun e he ↦ nomatch hslot.2.2.2.symm.trans he
  case unbuilt => exact fun e he ↦ nomatch he
  case failed => exact fun k cause hfailed ↦ nomatch hfailed
  case nodup => exact hsound.nodup
  case size_le => exact hsound.size_le.trans_eq h.capacity_eq

/-- **A session that is not held is built.** The factory is called with the content that the file
has now. If it fails, its failure is the answer, and no session is kept for the path. Otherwise the
session takes the place of the one that was held before, if any, with the time of modification that
the file has now. -/
theorem Kept.served_built (h : Kept factory ⟨.empty capacity lifetime, skipped, 0⟩ past s)
    (hcapacity : 1 ≤ capacity) (hlifetime : ∀ t ∈ lifetime, 0 < t) {m : Option Int}
    (hm : modified s.files key = .ok m) (hnone : ∀ slot, ¬s.Holds lifetime key slot) :
    Served factory capacity lifetime s key refusal
      ({ s.sessions with cache := s.sessions.cache.erase key }.build
        (factory.builder s.files refusal) s.now key (m.getD 0)) := by
  have hroom : 1 ≤ s.sessions.cache.capacity := hcapacity.trans_eq h.capacity_eq.symm
  rcases build_cases { s.sessions with cache := s.sessions.cache.erase key }
    (factory.builder s.files refusal) s.now key (m.getD 0) with
    ⟨cause, hcause, hbuild⟩ | ⟨oracle, session, horacle, hkey, rfl, hmodified, hbuild⟩
  · rw [hbuild]
    -- The factory fails. The slot stays erased, and the cause is the answer.
    have hsound := h.sound.erase key
    constructor
    case current => exact fun session hsession ↦ nomatch hsession
    case latest => exact fun session hsession ↦ nomatch hsession
    case held => exact fun slot hslot ↦ absurd hslot (hnone slot)
    case built =>
      intro _ _ _
      rw [hcause]
      exact ⟨rfl, rfl⟩
    case missing => exact fun e he ↦ nomatch hm.symm.trans he
    case unbuilt =>
      intro e he hnot
      exact absurd (Except.error.inj he).symm (hnot key cause)
    case failed =>
      intro k cause' hfailed
      cases hfailed
      exact ⟨rfl, rfl⟩
    case nodup => exact hsound.nodup
    case size_le => exact hsound.size_le.trans_eq h.capacity_eq
  · rw [hbuild]
    -- The factory succeeds. It read the file that is there now, with the time that was asked for.
    have hsound := (h.sound.erase key).put hroom s.now key session
    obtain ⟨content, m', hstat, hfactory⟩ := of_builder_eq_ok horacle
    obtain rfl : some m' = m :=
      Except.ok.inj ((modified_eq_some_iff.2 ⟨content, hstat⟩).symm.trans hm)
    obtain ⟨kept, hput, -, -⟩ := (s.sessions.cache.erase key).put_eq s.now key session
    constructor
    case current =>
      intro session' hsession
      obtain rfl := Except.ok.inj hsession
      refine ⟨hkey, content, ?_, hfactory⟩
      rw [hstat, hmodified]
      rfl
    case latest =>
      intro session' hsession
      obtain rfl := Except.ok.inj hsession
      refine ⟨kept, s.now, by rw [hput], fun t ht ↦ ?_⟩
      rw [sub_self]
      exact hlifetime t ht
    case held => exact fun slot hslot ↦ absurd hslot (hnone slot)
    case built =>
      intro _ _ _
      rw [horacle]
      exact ⟨rfl, rfl⟩
    case missing => exact fun e he ↦ nomatch hm.symm.trans he
    case unbuilt => exact fun e he ↦ nomatch he
    case failed => exact fun k cause hfailed ↦ nomatch hfailed
    case nodup => exact hsound.nodup
    case size_le =>
      rw [hput] at hsound ⊢
      exact hsound.size_le.trans_eq h.capacity_eq

/-- **Sessions are never stale, and failures are clean.** At any moment of a run that starts without
sessions, a request is served as `Served` says. -/
theorem Run.served (hcapacity : 1 ≤ capacity) (hlifetime : ∀ t ∈ lifetime, 0 < t)
    (hrun : Run factory ⟨.empty capacity lifetime, skipped, 0⟩ past s) (path : String)
    (refusal : Option Session.BuildError) :
    Served factory capacity lifetime s (s.files.absolute path) refusal
      (s.request factory path refusal) := by
  have h := hrun.kept hcapacity
  rw [Scene.request, getOrBuild]
  generalize s.files.absolute path = key
  rcases s.sessions.getOrBuildAt_cases s.files (factory.builder s.files refusal) s.now key with
    ⟨e, he, heq⟩ | ⟨m, hm, ⟨slot, hslot, hmodified, heq⟩ | ⟨hchanged, heq⟩⟩
  · rw [heq]
    exact h.served_missing he
  · rw [heq]
    exact h.served_held (h.holds_iff.2 ⟨hslot, by rw [hm, hmodified]⟩)
  · rw [heq]
    refine h.served_built hcapacity hlifetime hm fun slot hslot ↦ ?_
    obtain ⟨havailable, hcurrent⟩ := h.holds_iff.1 hslot
    exact hchanged slot havailable (Except.ok.inj (hcurrent.symm.trans hm))

end

/-! A snapshot is loaded, then touched, and loaded again. -/

section

variable (content : ByteArray)

/-- A file with its content and its time of modification. -/
def sampleFiles (modified : Int) : FileSystem :=
  ⟨"/", [([['s']], .file content modified)]⟩

/-- The file before a session is requested, with room for one. -/
def sampleScene : Scene ℤ :=
  ⟨sampleFiles content 1, 0, ⟨.empty 1 (some 10), [], 0⟩⟩

/-- The file after it was loaded. -/
def sampleLoaded : Scene ℤ :=
  { sampleScene content with
    sessions := ((sampleScene content).request (Session.loader "/") "s" none).2 }

/-- The file after it was loaded and then touched. -/
def sampleTouched : Scene ℤ :=
  { sampleLoaded content with
    files := (FileSystem.Change.touch "s" 2).apply (sampleFiles content 1) }

theorem absolute_sampleFiles (m : Int) : (sampleFiles content m).absolute "s" = "/s" := by
  show Path.absolute "/" "s" = "/s"
  decide +kernel

theorem place_sampleFiles (m : Int) : (sampleFiles content m).place "s" = [['s']] := by
  rw [FileSystem.place, absolute_sampleFiles]
  decide +kernel

theorem stat_sampleFiles (m : Int) :
    (sampleFiles content m).stat "/s" = .ok (.file content m) := by
  have hsegments : Text.splitAll '/' (Path.join (sampleFiles content m).working "/s").toList =
      [[], ['s']] := by
    show Text.splitAll '/' (Path.join "/" "/s").toList = _
    decide +kernel
  rw [FileSystem.stat, if_neg (by decide +kernel), if_neg (by decide +kernel), hsegments]
  rfl

theorem modified_sampleFiles (m : Int) : modified (sampleFiles content m) "/s" = .ok (some m) :=
  modified_eq_some_iff.2 ⟨_, stat_sampleFiles content m⟩

theorem files_sampleTouched : (sampleTouched content).files = sampleFiles content 2 := by
  have hat : (sampleFiles content 1).at? ((sampleFiles content 1).place "s") =
      some (.file content 1) := by
    rw [place_sampleFiles]
    rfl
  rw [sampleTouched, FileSystem.Change.apply]
  obtain ⟨c, m, hfile, htouch⟩ | ⟨hnone, -⟩ := (sampleFiles content 1).touch_cases "s" 2
  · obtain ⟨rfl, -⟩ := FileNode.file.inj (Option.some.inj (hat.symm.trans hfile))
    rw [htouch, place_sampleFiles]
    rfl
  · exact absurd hat (hnone content 1)

/-- The sample is a run: the session is built, and then the file is touched. -/
theorem run_sampleTouched : Run (Session.loader "/") ⟨.empty 1 (some 10), [], 0⟩
    [(FileSystem.Change.touch "s" 2).apply (sampleFiles content 1), sampleFiles content 1]
    (sampleTouched content) := by
  have hloaded : Run (Session.loader "/") ⟨.empty 1 (some 10), [], 0⟩ [sampleFiles content 1]
      (sampleLoaded content) := (Run.start (sampleFiles content 1) 0).request "s" none
  refine hloaded.change (.touch "s" 2) ?_
  rintro path m ⟨rfl, rfl⟩ fs hfs content' hat
  rw [List.mem_singleton.1 hfs, place_sampleFiles] at hat
  exact absurd (FileNode.file.inj (Option.some.inj hat)).2 (by decide)

end

/-- A snapshot is loaded again after it was touched, and the session that is handed out was made of
it as it is then. -/
theorem Run.served_sample : ∃ content snapshot session,
    Snapshot.parse content = .ok snapshot ∧
      ((sampleTouched content).request (Session.loader "/") "s" none).1 = .ok session ∧
      session.modified = 2 ∧
      ((sampleTouched content).request (Session.loader "/") "s" none).2.builds = 2 := by
  -- The content is made opaque, so that no step evaluates its bytes.
  obtain ⟨content, snapshot, hparse⟩ : ∃ content snapshot, Snapshot.parse content = .ok snapshot :=
    ⟨_, Snapshot.exists_parse_sampleText.imp fun _ h ↦ h.1⟩
  have hserved : ∀ {past s}, Run (Session.loader "/") ⟨.empty 1 (some 10), [], 0⟩ past s → ∀ m,
      s.files = sampleFiles content m →
      Served (Session.loader "/") 1 (some (10 : ℤ)) s "/s" none
        (s.request (Session.loader "/") "s" none) := by
    intro past s hrun m hfiles
    have h := Run.served (by decide) (by simp) hrun "s" none
    rwa [hfiles, absolute_sampleFiles] at h
  obtain ⟨oracle, hbuilder⟩ : ∃ oracle, ∀ m,
      (Session.loader "/").builder (sampleFiles content m) none "/s" = .ok oracle := by
    refine ⟨{ snapshot, base := Path.parent (Path.absolute "/" "/s") }, fun m ↦ ?_⟩
    simp only [Session.Factory.builder, stat_sampleFiles, Session.loader, hparse]
  have hok : ∀ {result : Except Session.Error Session},
      result.map Session.oracle = .ok oracle → ∃ session, result = .ok session := by
    rintro (e | session) h
    · cases h
    · exact ⟨session, rfl⟩
  -- The first request builds the only session there is, of the snapshot as it was at first.
  have hfirst : Served _ _ _ (sampleScene content) _ _ _ :=
    hserved (.start (sampleFiles content 1) 0) 1 rfl
  obtain ⟨hbuilds, horacle⟩ := hfirst.built (fun slot hslot ↦ nomatch hslot.1) _
    (modified_sampleFiles content 1)
  rw [show (sampleScene content).files = sampleFiles content 1 from rfl, hbuilder] at horacle
  obtain ⟨session, hsession⟩ := hok horacle
  obtain ⟨earlier, stored, hslots, -⟩ := hfirst.latest session hsession
  obtain rfl : earlier = [] := by
    have hsize := hfirst.size_le
    rw [Cache.size, hslots, List.length_append, List.length_singleton] at hsize
    exact List.eq_nil_of_length_eq_zero (by omega)
  have hmodified : session.modified = 1 := by
    obtain ⟨-, c, hstat, -⟩ := hfirst.current session hsession
    exact (FileNode.file.inj (Except.ok.inj (hstat.symm.trans (stat_sampleFiles content 1)))).2
  -- It is not as recent as the snapshot is now, so the second request builds another one.
  have hsecond := hserved (run_sampleTouched content) 2 (files_sampleTouched content)
  have hnow : modified (sampleTouched content).files "/s" = .ok (some 2) := by
    rw [files_sampleTouched, modified_sampleFiles]
  have hsessions : (sampleTouched content).sessions =
      ((sampleScene content).request (Session.loader "/") "s" none).2 := by
    rw [sampleTouched, sampleLoaded]
  have hnone : ∀ slot, ¬(sampleTouched content).Holds (some 10) "/s" slot := by
    rintro slot ⟨hslot, -, -, hm⟩
    rw [hsessions, hslots] at hslot
    rw [List.mem_singleton.1 hslot, hnow, hmodified] at hm
    exact absurd hm (by decide)
  obtain ⟨hbuilds', horacle'⟩ := hsecond.built hnone _ hnow
  rw [files_sampleTouched, hbuilder] at horacle'
  obtain ⟨session', hsession'⟩ := hok horacle'
  obtain ⟨-, c, hstat, -⟩ := hsecond.current session' hsession'
  rw [files_sampleTouched, stat_sampleFiles] at hstat
  refine ⟨content, snapshot, session', hparse, hsession',
    (FileNode.file.inj (Except.ok.inj hstat)).2.symm, ?_⟩
  rw [hbuilds', hsessions, hbuilds]
  rfl

end Sessions

end TypeLens
