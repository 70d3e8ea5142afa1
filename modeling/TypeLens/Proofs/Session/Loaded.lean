import TypeLens.Proofs.Lookup.Total
import TypeLens.Proofs.Path.Route
import TypeLens.Proofs.Session.Freshness

/-!
# Loaded sessions

A session that was loaded from a file has a snapshot that was read, starts its documents from the
directory of the file, and is never cancelled (`Session.Loaded`). So a look-up in one of its
documents always ends with an answer (`Session.Loaded.run_inFile`).

When every session that is kept was loaded, a request for a file that is there is served with a
loaded session, or the file cannot be loaded; no other failure is left
(`Sessions.AllLoaded.request`).
-/

namespace TypeLens

open TypeLens.Graph TypeLens.Path

/-! ### One session -/

/-- A session as it is loaded from a file. -/
structure Session.Loaded (session : Session) : Prop where
  /-- The path of the file is normalized. -/
  key_eq : ∃ p : Normal, session.key = p.text
  /-- The snapshot was read. -/
  parsed : ∃ content, Snapshot.parse content = .ok session.oracle.snapshot
  /-- The documents are found from the directory of the file. -/
  base_eq : session.oracle.base = Path.parent session.key
  /-- Every kind of question is answered. -/
  broken_eq : session.oracle.broken = none
  /-- Nothing cancels a look-up. -/
  cancelFrom_eq : session.oracle.cancelFrom = none

namespace Session

variable {session : Session}

/-- What is loaded from a normalized path makes a loaded session. -/
theorem loaded_of_load {fs : FileSystem} {p : Normal} (hkey : session.key = p.text)
    (hload : load fs p.text = .ok session.oracle) : session.Loaded := by
  rw [load_eq_builder] at hload
  obtain ⟨content, -, -, hloader⟩ := Sessions.of_builder_eq_ok hload
  rw [loader] at hloader
  split at hloader
  · next snapshot hparse =>
    have horacle := (Except.ok.inj hloader).symm
    constructor
    case key_eq => exact ⟨p, hkey⟩
    case parsed => exact ⟨content, by rw [horacle, hparse]⟩
    case base_eq => rw [horacle, hkey, p.absolute_text]
    case broken_eq => rw [horacle]
    case cancelFrom_eq => rw [horacle]
  · cases hloader

/-- Cancellation checks do not change a session that is never cancelled. -/
theorem Loaded.polled (h : session.Loaded) (count : Nat) :
    { session with oracle := session.oracle.polled count } = session := by
  have hcancel : session.oracle.polled count = session.oracle := by
    rw [Oracle.polled, h.cancelFrom_eq, Option.map_none, ← h.cancelFrom_eq]
  rw [hcancel]

/-- **A look-up in a document of a loaded session ends with an answer.** -/
theorem Loaded.run_inFile (h : session.Loaded) {document : String}
    (hdocument : session.oracle.findDocument document = some document) (options : Options)
    (position : Int) :
    ∃ answer, ((Lookup.inFile session.oracle options document position).run.run 0).1 =
      .ok answer := by
  obtain ⟨content, hparse⟩ := h.parsed
  obtain ⟨d, hd⟩ :=
    Option.isSome_iff_exists.1 (Oracle.isSome_document?_of_findDocument hdocument)
  obtain ⟨answer, hanswer, -⟩ := Lookup.strictlyAt_eq_after options h.broken_eq
    (Snapshot.closed_of_parse hparse) hd position
  have hrun := Oracle.run_after h.broken_eq h.cancelFrom_eq
    (answer.elim 0 fun info ↦ info.tree.entries) answer 0
  rw [← hanswer] at hrun
  refine ⟨answer, ?_⟩
  simp only [Lookup.inFile, Oracle.documentKey, Oracle.answer_eq h.broken_eq, pure_bind, hdocument,
    Oracle.syntaxRoot, Oracle.ofDocument_eq h.broken_eq hd]
  rw [Lookup.atPosition, Lookup.run_tolerating hrun]

/-- A session for a snapshot that lies at `/s`. -/
def sample (snapshot : Snapshot) : Session :=
  ⟨"/s", { snapshot, base := "/" }, [], 1, 0⟩

theorem loaded_sample {content : ByteArray} {snapshot : Snapshot}
    (hparse : Snapshot.parse content = .ok snapshot) : (sample snapshot).Loaded where
  key_eq := ⟨⟨['/'], [['s']], .inl rfl, by simp [IsName]⟩, rfl⟩
  parsed := ⟨content, hparse⟩
  base_eq := show "/" = Path.parent "/s" by decide +kernel
  broken_eq := rfl
  cancelFrom_eq := rfl

end Session

/-! ### The sessions that are kept -/

/-- Every session that is kept was loaded from the file it is kept for. -/
def Sessions.AllLoaded {τ : Type} (s : Sessions τ) : Prop :=
  ∀ slot ∈ s.cache.slots, slot.value.key = slot.key ∧ slot.value.Loaded

namespace Sessions

variable {τ : Type} {s : Sessions τ}

/-- Counting checks leaves all sessions loaded. -/
theorem AllLoaded.polled [Sub τ] [LE τ] [DecidableLE τ] (h : s.AllLoaded) (key : String)
    (count : Nat) : (s.polled key count).AllLoaded := by
  intro slot' hslot'
  obtain ⟨slot, hslot, rfl⟩ := List.mem_map.1 hslot'
  obtain ⟨hkey, hloaded⟩ := h slot hslot
  have hvalue : (if slot.key = key then
      { slot.value with oracle := slot.value.oracle.polled count } else slot.value) =
        slot.value := by
    split
    · exact hloaded.polled count
    · rfl
  simp only [hvalue]
  exact ⟨hkey, hloaded⟩

/-- A request for a file that is there ends with a loaded session or with a file that cannot be
loaded, and all sessions that are kept are loaded again. -/
theorem AllLoaded.request [Sub τ] [LE τ] [DecidableLE τ] (h : s.AllLoaded) {fs : FileSystem}
    (now : τ) {p : Normal} (hfile : fs.isFile p.text = true) :
    (s.getOrBuildAt fs (Session.load fs) now p.text).2.AllLoaded ∧
      ((∃ session, (s.getOrBuildAt fs (Session.load fs) now p.text).1 = .ok session ∧
          session.key = p.text ∧ session.Loaded) ∨
        ∃ cause, Session.load fs p.text = .error cause ∧
          (s.getOrBuildAt fs (Session.load fs) now p.text).1 = .error (.build p.text cause)) := by
  obtain ⟨content, m, hstat⟩ := FileSystem.stat_of_isFile hfile
  have hmodified : modified fs p.text = .ok (some m) := modified_eq_some_iff.2 ⟨content, hstat⟩
  have herased : ∀ slot ∈ (s.cache.erase p.text).slots, slot.value.key = slot.key ∧
      slot.value.Loaded := fun slot hslot ↦ h slot ((s.cache.erase_sublist p.text).subset hslot)
  -- The file is there, so a session is held or is built now.
  rcases s.getOrBuildAt_cases fs (Session.load fs) now p.text with
    ⟨e, he, -⟩ | ⟨m', -, ⟨slot, havailable, -, heq⟩ | ⟨-, heq⟩⟩
  · exact nomatch hmodified.symm.trans he
  · obtain ⟨hmem, hslotKey⟩ := Cache.mem_of_slot? havailable.1
    obtain ⟨hkey, hloaded⟩ := h slot hmem
    rw [heq]
    refine ⟨fun t ht ↦ ?_, .inl ⟨slot.value, rfl, hkey.trans hslotKey, hloaded⟩⟩
    rcases List.mem_append.1 ht with ht | ht
    · exact herased t ht
    · rw [List.mem_singleton.1 ht]
      exact ⟨hkey, hloaded⟩
  · rw [heq]
    rcases build_cases { s with cache := s.cache.erase p.text } (Session.load fs) now p.text
      (m'.getD 0) with ⟨cause, hcause, hbuild⟩ | ⟨_, session, hload, hkey, rfl, -, hbuild⟩
    · rw [hbuild]
      exact ⟨herased, .inr ⟨cause, hcause, rfl⟩⟩
    · rw [hbuild]
      have hloaded := Session.loaded_of_load hkey hload
      obtain ⟨kept, hput, hsub, -⟩ := (s.cache.erase p.text).put_eq now p.text session
      refine ⟨fun t ht ↦ ?_, .inl ⟨session, rfl, hkey, hloaded⟩⟩
      simp only [hput] at ht
      rcases List.mem_append.1 ht with ht | ht
      · exact herased t (hsub.subset ht)
      · rw [List.mem_singleton.1 ht]
        exact ⟨hkey, hloaded⟩

end Sessions

end TypeLens
