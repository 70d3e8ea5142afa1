import TypeLens.Proofs.Path.Route
import TypeLens.Proofs.Session.Loaded
import TypeLens.Tool.Lookup
import TypeLens.Tool.Status

/-!
# The states of a server

A server starts without sessions and with an empty memo. Look-ups and status reports change it; in
between, the files, the time and the working directory may change at will (`Server.Reachable`). At
all times every session that is kept was loaded from its file, and the memo holds normalized paths
(`Reachable.sound`).

So there is not much that can go wrong before a look-up has its session. A path that is resolved
leads to a file, and is normalized (`Sound.resolve`); and the session for it is there, or the file
cannot be loaded (`Sound.session`).
-/

namespace TypeLens

open TypeLens.Path

variable {τ : Type}

/-! ### Searching -/

namespace Project

variable {fs : FileSystem} {name file found : String} {memo : Memo}

/-- Every directory above a file is a normal path. -/
theorem exists_normal_of_mem_directoriesAbove (hworking : isAbsolute fs.working = true) {d : String}
    (h : d ∈ directoriesAbove fs file) : ∃ p : Normal, d = p.text := by
  obtain ⟨p, hp⟩ := exists_normal_absolute hworking file
  have hfull : fs.absolute file = p.text := hp
  rw [directoriesAbove, hfull, Normal.parent_text] at h
  have habove : ∀ q : Normal, d ∈ ancestors q.text → ∃ p : Normal, d = p.text :=
    fun q hq ↦ (Normal.exists_of_mem_ancestors hq).imp fun _ ↦ And.left
  split at h
  · exact habove p h
  · exact habove p.up h

/-- What a search finds is a file under an absolute path. -/
theorem isFile_of_find (hworking : isAbsolute fs.working = true)
    (h : find fs name file = .ok found) : isAbsolute found = true ∧ fs.isFile found = true := by
  rw [find] at h
  split at h
  next habsolute =>
    split at h
    next hfile =>
      obtain rfl := Except.ok.inj h
      exact ⟨habsolute, hfile⟩
    · cases h
  · split at h
    next candidate hcandidate =>
      obtain rfl := Except.ok.inj h
      obtain ⟨d, hd, rfl⟩ := List.mem_map.1 (List.mem_of_find?_eq_some hcandidate)
      obtain ⟨p, rfl⟩ := exists_normal_of_mem_directoriesAbove hworking hd
      exact ⟨isAbsolute_join p.isAbsolute_text name, List.find?_some hcandidate⟩
    · cases h

/-- All snapshots that are remembered have normalized paths. -/
def AllNormal (memo : Memo) : Prop :=
  ∀ entry ∈ memo, ∃ p : Normal, entry.2 = p.text

theorem AllNormal.remember (h : AllNormal memo) (directory : String) (p : Normal) :
    AllNormal (remember memo directory p.text) := by
  intro entry hentry
  rcases List.mem_cons.1 hentry with rfl | hentry
  · exact ⟨p, rfl⟩
  · exact h entry (List.mem_filter.1 hentry).1

theorem AllNormal.lookup (h : AllNormal memo) {directory path : String}
    (hlookup : memo.lookup directory = some path) : ∃ p : Normal, path = p.text := by
  obtain ⟨before, after, rfl, -⟩ := List.lookup_eq_some_iff.1 hlookup
  exact h (directory, path) (List.mem_append_right before List.mem_cons_self)

/-- A result that is no failure is a file under a normalized path, and no others are remembered. -/
def Settles (fs : FileSystem) (result : Except Missing String × Memo) : Prop :=
  AllNormal result.2 ∧
    ∀ path, result.1 = .ok path → ∃ p : Normal, path = p.text ∧ fs.isFile p.text = true

/-- A search remembers only normal paths, since it goes up from one. -/
theorem AllNormal.search (h : AllNormal memo) (hworking : isAbsolute fs.working = true) :
    Settles fs (search fs name memo file) := by
  rw [Project.search]
  cases hfind : find fs name file with
  | error e => exact ⟨h, fun path hpath ↦ nomatch hpath⟩
  | ok found =>
    obtain ⟨habsolute, hfile⟩ := isFile_of_find hworking hfind
    obtain ⟨p, hp⟩ := exists_normal_absolute hworking found
    have hsnapshot : fs.absolute found = p.text := hp
    have hsnapshotFile := FileSystem.isFile_absolute habsolute hfile
    simp only [Settles, hsnapshot] at hsnapshotFile ⊢
    constructor
    · generalize sharing (parent p.text) _ = directories
      induction directories generalizing memo with
      | nil => exact h
      | cons d directories ih => exact ih (h.remember d p)
    · intro path hpath
      exact ⟨p, (Except.ok.inj hpath).symm, hsnapshotFile⟩

/-- What is resolved is a file under a normalized path. -/
theorem AllNormal.resolve (h : AllNormal memo) (hworking : isAbsolute fs.working = true)
    (given : Option String) : Settles fs (resolve fs name memo file given) := by
  have hsearch : Settles fs (Project.search fs name memo file) := h.search hworking
  unfold Project.resolve
  split
  case h_3 path _ =>
    split
    next hfile =>
      obtain ⟨p, hp⟩ := exists_normal_absolute hworking path
      have hgiven : fs.absolute path = p.text := hp
      rw [hgiven] at hfile ⊢
      exact ⟨h, fun path hpath ↦ ⟨p, (Except.ok.inj hpath).symm, hfile⟩⟩
    · exact ⟨h, fun path hpath ↦ nomatch hpath⟩
  all_goals
    split
    next cached hcached =>
      split
      next hfile =>
        obtain ⟨p, rfl⟩ := h.lookup hcached
        exact ⟨h, fun path hpath ↦ ⟨p, (Except.ok.inj hpath).symm, hfile⟩⟩
      · exact hsearch
    · exact hsearch

/-- A path that is given is not searched for. -/
theorem resolve_given {path : String} (h : path ≠ "") (fs : FileSystem) (name : String)
    (memo : Memo) (file : String) : Project.resolve fs name memo file (some path) =
      if fs.isFile (fs.absolute path) then (.ok (fs.absolute path), memo)
      else (.error (.given path), memo) := by
  unfold Project.resolve
  split
  next heq => cases heq
  next heq => exact absurd (Option.some.inj heq) h
  next heq =>
    obtain rfl := Option.some.inj heq
    rfl

end Project

/-! ### Servers -/

/-- What a server finds around it in the ordinary case: its sessions are loaded from the files, and
the working directory is an absolute path. -/
structure Host.Ordinary (h : Host τ) : Prop where
  /-- Sessions are loaded from the files. -/
  builder_eq : h.builder = Session.load h.files
  /-- The working directory is an absolute path. -/
  working : isAbsolute h.files.working = true

namespace Server

/-- The sessions that are kept were loaded, and the memo holds normalized paths. -/
structure Sound (s : Server τ) : Prop where
  /-- The sessions that are kept were loaded. -/
  sessions : s.sessions.AllLoaded
  /-- The memo holds normalized paths. -/
  memo : Project.AllNormal s.memo

variable {s : Server τ} {h : Host τ}

/-- A path that is resolved leads to a file, and is normalized. -/
theorem Sound.resolve (hs : s.Sound) (hh : h.Ordinary) (file : String) (given : Option String) :
    (s.resolve h.files file given).2.Sound ∧
      ∀ path, (s.resolve h.files file given).1 = .ok path →
        ∃ p : Normal, path = p.text ∧ h.files.isFile p.text = true :=
  have hsettles := hs.memo.resolve hh.working given
  ⟨⟨hs.sessions, hsettles.1⟩, hsettles.2⟩

variable [Sub τ] [LE τ] [DecidableLE τ]

/-- The session for a file that is there is loaded, or the file cannot be loaded. -/
theorem Sound.session (hs : s.Sound) (hh : h.Ordinary) {p : Normal}
    (hfile : h.files.isFile p.text = true) :
    (s.session h p.text).2.Sound ∧
      ((∃ session, (s.session h p.text).1 = .ok session ∧ session.key = p.text ∧ session.Loaded) ∨
        ∃ cause, Session.load h.files p.text = .error cause ∧
          (s.session h p.text).1 = .error (.build p.text cause)) := by
  have hrequest := hs.sessions.request h.now hfile
  simp only [Server.session, Sessions.getOrBuild, hh.builder_eq, FileSystem.absolute_text]
  exact ⟨⟨hrequest.1, hs.memo⟩, hrequest.2⟩

/-- Opening a session leaves the server sound, whether it is found or built. -/
theorem Sound.sessionFor (hs : s.Sound) (hh : h.Ordinary) (file : String)
    (given : Option String) : (s.sessionFor h file given).2.Sound := by
  obtain ⟨hresolved, hpath⟩ := hs.resolve hh file given
  rw [Server.sessionFor]
  rcases hresolve : s.resolve h.files file given with ⟨_ | path, s'⟩
  · rw [hresolve] at hresolved
    exact hresolved
  · rw [hresolve] at hresolved hpath
    obtain ⟨p, rfl, hfile⟩ := hpath path rfl
    exact (hresolved.session hh hfile).1

/-- A look-up leaves a server in order, whether it ends with a reply or not. -/
theorem Sound.lookup (hs : s.Sound) (hh : h.Ordinary) (c : Codec) (service : Tool.Service)
    (input : Tool.LookupInput) : (Tool.lookup c h service s input).2.Sound := by
  have hsession := hs.sessionFor hh input.location.file input.config
  rw [Tool.lookup]
  rcases hresult : s.sessionFor h input.location.file input.config with ⟨e | session, s'⟩
  · rw [hresult] at hsession
    dsimp only
    split <;> exact hsession
  · rw [hresult] at hsession
    exact ⟨hsession.sessions.polled session.key _, hsession.memo⟩

omit [Sub τ] [LE τ] [DecidableLE τ] in
/-- Asking for the status leaves the server sound. -/
theorem Sound.status (hs : s.Sound) (setting : Reply.Setting) (input : Tool.StatusInput) :
    (Tool.status setting s input).2.Sound := by
  refine ⟨?_, hs.memo⟩
  show (Tool.reported s.sessions input).AllLoaded
  rw [Tool.reported]
  split
  · exact fun slot hslot ↦ nomatch hslot
  · exact hs.sessions

/-- The states of a server. Between two steps the files, the time and the working directory may
change at will. -/
inductive Reachable : Server τ → Prop
  /-- There are no sessions at first, and nothing is remembered. -/
  | start (capacity : Nat) (lifetime : Option τ) (skipped : List String)
    (configName : Option String) :
    Reachable ⟨⟨.empty capacity lifetime, skipped, 0⟩, [], configName⟩
  /-- A type is looked up. -/
  | lookup {s : Server τ} (hs : Reachable s) {h : Host τ} (hh : h.Ordinary)
    (c : Codec) (service : Tool.Service) (input : Tool.LookupInput) :
    Reachable (Tool.lookup c h service s input).2
  /-- The sessions are listed, and may be dropped. -/
  | status {s : Server τ} (hs : Reachable s) (setting : Reply.Setting) (input : Tool.StatusInput) :
    Reachable (Tool.status setting s input).2

/-- Every server that can be reached is sound. -/
theorem Reachable.sound (hs : s.Reachable) : s.Sound := by
  induction hs with
  | start => exact ⟨fun _ hslot ↦ (nomatch hslot), fun _ hentry ↦ (nomatch hentry)⟩
  | lookup _ hh c service input ih => exact ih.lookup hh c service input
  | status _ setting input ih => exact ih.status setting input

end Server

end TypeLens
