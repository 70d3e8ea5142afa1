import Mathlib.Tactic.SplitIfs
import TypeLens.FileSystem

/-!
# Files that change

Files are written, touched and deleted, and directories are made. A `FileSystem.Change` is one such
step. It brings about no file but the one it writes or touches, which then has the time of
modification that the change gives it (`Change.of_at?_apply`).

Suppose that every file that is written or touched gets a time of modification that it never had
before. Then **the time of modification tells the content**: among all file systems met so far, two
files at one path with the same time have the same content (`Dated.content_eq`). The argument is
about places. Where a path leads is a matter of its text alone, as long as the walk succeeds
(`at?_of_stat`).
-/

namespace TypeLens.FileSystem

/-! ### Where a path leads -/

/-- The place where a walk ends if nothing stops it. -/
def route : (here : Place) → List (List Char) → Place
  | here, [] => here
  | here, segment :: rest =>
    if segment = [] ∨ segment = ['.'] then route here rest
    else if segment = ['.', '.'] then route here.dropLast rest
    else route (here ++ [segment]) rest

/-- What a walk comes to is at the end of its route. -/
theorem at?_of_walk {fs : FileSystem} {node : FileNode} {segments : List (List Char)} :
    ∀ {here : Place}, fs.walk here segments = .ok node →
      fs.at? (route here segments) = some node := by
  induction segments with
  | nil =>
    intro here h
    rw [walk] at h
    split at h
    · next hat => rw [route, hat, Except.ok.inj h]
    · cases h
  | cons segment rest ih =>
    intro here h
    rw [walk] at h
    split at h
    · cases h
    · cases h
    · rw [route]
      split_ifs at h ⊢ <;> exact ih h

/-- A path leads to a place that depends on the working directory only. -/
theorem at?_of_stat {fs : FileSystem} {path : String} {node : FileNode}
    (h : fs.stat path = .ok node) :
    fs.at? (route [] (Text.splitAll '/' (Path.join fs.working path).toList)) = some node := by
  rw [stat] at h
  split_ifs at h
  exact at?_of_walk h

/-! ### Changes -/

section

variable {fs : FileSystem} {place other : Place} {node : FileNode} {content : ByteArray}
  {modified : Int}

/-- Looking up a key among the entries whose keys pass a test. -/
theorem lookup_filter_key {κ α : Type} [BEq κ] [LawfulBEq κ] (test : κ → Bool) (key : κ)
    (entries : List (κ × α)) :
    (entries.filter fun entry ↦ test entry.1).lookup key =
      if test key then entries.lookup key else none := by
  induction entries with
  | nil => simp
  | cons entry entries ih =>
    obtain ⟨k, a⟩ := entry
    by_cases hk : key = k
    · subst hk
      cases htest : test key <;> simp [htest, ih]
    · have hbeq : (key == k) = false := by simpa using hk
      cases htest : test k <;> simp [htest, ih, List.lookup_cons, hbeq]

/-- What is put at a place leaves other places alone. -/
theorem at?_put_of_ne (h : other ≠ place) : (fs.put place node).at? other = fs.at? other := by
  have hplace : (other == place) = false := by simpa using h
  have hkept := lookup_filter_key (fun p ↦ p ≠ place) other fs.nodes
  simp only [at?, put, List.lookup_cons, hplace]
  rw [hkept]
  simp [h]

theorem working_put (fs : FileSystem) (place : Place) (node : FileNode) :
    (fs.put place node).working = fs.working :=
  rfl

theorem working_makeDirectories (fs : FileSystem) (place : Place) :
    (fs.makeDirectories place).working = fs.working := by
  rw [makeDirectories]
  generalize ((Path.waysUp place.reverse).map List.reverse).reverse = places
  induction places generalizing fs with
  | nil => rfl
  | cons p places ih =>
    rw [List.foldl_cons, ih]
    split <;> rfl

/-- A file found after something was put at a place is what was put, or was there before. -/
theorem of_at?_put (h : (fs.put place node).at? other = some (.file content modified)) :
    other = place ∧ node = .file content modified ∨
      fs.at? other = some (.file content modified) := by
  by_cases hplace : other = place
  · subst hplace
    by_cases hroot : other = []
    · simp [at?, hroot] at h
    · rw [at?_put_self fs node hroot] at h
      exact .inl ⟨rfl, Option.some.inj h⟩
  · exact .inr (by rwa [at?_put_of_ne hplace] at h)

/-- Touching puts the file back with another time, or does nothing where there is no file. -/
theorem touch_cases (fs : FileSystem) (path : String) (modified : Int) :
    (∃ content m, fs.at? (fs.place path) = some (.file content m) ∧
        fs.touch path modified = fs.put (fs.place path) (.file content modified)) ∨
      (∀ content m, fs.at? (fs.place path) ≠ some (.file content m)) ∧
        fs.touch path modified = fs := by
  unfold touch
  -- The place is made opaque, or the match below would be evaluated along the path.
  generalize fs.place path = place
  extract_lets here
  split
  · next content m hat => exact .inl ⟨content, m, hat, rfl⟩
  · next hnone => exact .inr ⟨hnone, rfl⟩

/-- Making directories brings about no file. -/
theorem of_at?_makeDirectories
    (h : (fs.makeDirectories place).at? other = some (.file content modified)) :
    fs.at? other = some (.file content modified) := by
  rw [makeDirectories] at h
  generalize ((Path.waysUp place.reverse).map List.reverse).reverse = places at h
  induction places generalizing fs with
  | nil => exact h
  | cons p places ih =>
    rw [List.foldl_cons] at h
    have hstep := ih h
    split at hstep
    · exact hstep
    · rcases of_at?_put hstep with ⟨-, hnode⟩ | hold
      · cases hnode
      · exact hold

/-- Deleting brings about no file. -/
theorem of_at?_delete {path : String}
    (h : (fs.delete path).at? other = some (.file content modified)) :
    fs.at? other = some (.file content modified) := by
  have hkept := lookup_filter_key (fun p ↦ !(fs.place path).isPrefixOf p) other fs.nodes
  simp only [at?, delete] at h ⊢
  split_ifs at h ⊢
  · exact h
  · rw [hkept] at h
    split_ifs at h
    exact h

end

/-- A change of the files. -/
inductive Change where
  /-- A file is written. -/
  | write (path : String) (content : ByteArray) (modified : Int)
  /-- The time of modification of a file is set. -/
  | touch (path : String) (modified : Int)
  /-- Something is deleted, with all below it. -/
  | delete (path : String)
  /-- A directory is made. -/
  | makeDirectory (path : String)

namespace Change

/-- The files after a change. -/
def apply (fs : FileSystem) : Change → FileSystem
  | write path content modified => fs.write path content modified
  | touch path modified => fs.touch path modified
  | delete path => fs.delete path
  | makeDirectory path => fs.makeDirectory path

/-- Whether a change gives the file at a path this time of modification. -/
def Dates (path : String) (modified : Int) : Change → Prop
  | write p _ m | touch p m => p = path ∧ m = modified
  | delete _ | makeDirectory _ => False

/-- A change gives a file a time of modification that it never had before. -/
def Fresh (past : List FileSystem) (x : Change) : Prop :=
  ∀ path modified, x.Dates path modified → ∀ fs ∈ past, ∀ content,
    fs.at? (fs.place path) ≠ some (.file content modified)

/-- No change moves the working directory. -/
theorem working_apply (fs : FileSystem) (x : Change) : (x.apply fs).working = fs.working := by
  cases x with
  | write path content modified =>
    rw [apply, FileSystem.write, working_put, working_makeDirectories]
  | touch path modified =>
    rw [apply]
    obtain ⟨content, -, -, h⟩ | ⟨-, h⟩ := fs.touch_cases path modified
    · rw [h, working_put]
    · rw [h]
  | delete path => rfl
  | makeDirectory path => rw [apply, FileSystem.makeDirectory, working_makeDirectories]

/-- A file found after a change was there before, or the change gave it its time. -/
theorem of_at?_apply {fs : FileSystem} {x : Change} {place : Place} {content : ByteArray}
    {modified : Int} (h : (x.apply fs).at? place = some (.file content modified)) :
    fs.at? place = some (.file content modified) ∨
      ∃ path, x.Dates path modified ∧ place = fs.place path := by
  -- Only writing and touching give a time, and only to the file they name.
  cases x with
  | write path c m =>
    rw [apply, FileSystem.write] at h
    rcases of_at?_put h with ⟨hplace, hnode⟩ | hold
    · cases hnode
      exact .inr ⟨path, ⟨rfl, rfl⟩, hplace⟩
    · exact .inl (of_at?_makeDirectories hold)
  | touch path m =>
    rw [apply] at h
    obtain ⟨c, -, -, htouch⟩ | ⟨-, htouch⟩ := fs.touch_cases path m
    · rw [htouch] at h
      rcases of_at?_put h with ⟨hplace, hnode⟩ | hold
      · cases hnode
        exact .inr ⟨path, ⟨rfl, rfl⟩, hplace⟩
      · exact .inl hold
    · exact .inl (htouch ▸ h)
  | delete path => exact .inl (of_at?_delete h)
  | makeDirectory path => exact .inl (of_at?_makeDirectories h)

end Change

/-! ### Times and contents -/

theorem place_congr {fs fs' : FileSystem} (h : fs.working = fs'.working) (path : String) :
    fs.place path = fs'.place path := by
  rw [place, place, absolute, absolute, h]

/-- Among file systems with one working directory, files at one place with the same time of
modification have the same content. -/
structure Dated (past : List FileSystem) : Prop where
  /-- There is one working directory. -/
  working_eq : ∀ fs ∈ past, ∀ fs' ∈ past, fs.working = fs'.working
  /-- The time tells the content. -/
  content_eq_of_at? : ∀ fs ∈ past, ∀ fs' ∈ past, ∀ place content content' modified,
    fs.at? place = some (.file content modified) →
      fs'.at? place = some (.file content' modified) → content = content'

/-- A single file system is dated, for there is nothing earlier to compare it with. -/
theorem dated_singleton (fs : FileSystem) : Dated [fs] where
  working_eq := by
    intro a ha b hb
    rw [List.mem_singleton.1 ha, List.mem_singleton.1 hb]
  content_eq_of_at? := by
    intro a ha b hb place content content' modified h h'
    rw [List.mem_singleton.1 ha] at h
    rw [List.mem_singleton.1 hb, h] at h'
    cases h'
    rfl

/-- The time of modification tells the content of the file that a path leads to. -/
theorem Dated.content_eq {past : List FileSystem} (hdated : Dated past) {fs fs' : FileSystem}
    (hfs : fs ∈ past) (hfs' : fs' ∈ past) {path : String} {content content' : ByteArray}
    {modified : Int} (h : fs.stat path = .ok (.file content modified))
    (h' : fs'.stat path = .ok (.file content' modified)) : content = content' := by
  have hplace := at?_of_stat h
  rw [hdated.working_eq fs hfs fs' hfs'] at hplace
  exact hdated.content_eq_of_at? fs hfs fs' hfs' _ _ _ _ hplace (at?_of_stat h')

/-- A change that gives a file a time it never had keeps times telling contents. -/
theorem Dated.apply {past : List FileSystem} (hdated : Dated past) {fs : FileSystem}
    (hfs : fs ∈ past) {x : Change} (hfresh : x.Fresh past) : Dated (x.apply fs :: past) := by
  -- A file after the change is an old one, or has a time that no file had at its place.
  have hnew : ∀ old ∈ past, ∀ place content content' modified,
      (x.apply fs).at? place = some (.file content modified) →
        old.at? place = some (.file content' modified) → content = content' := by
    intro old hold place content content' modified h h'
    rcases Change.of_at?_apply h with h | ⟨path, hdates, hplace⟩
    · exact hdated.content_eq_of_at? fs hfs old hold _ _ _ _ h h'
    · refine absurd h' ?_
      rw [hplace, place_congr (hdated.working_eq fs hfs old hold)]
      exact hfresh path modified hdates old hold content'
  constructor
  · intro a ha b hb
    have hworking := Change.working_apply fs x
    rcases List.mem_cons.1 ha with rfl | ha <;> rcases List.mem_cons.1 hb with rfl | hb
    · rfl
    · exact hworking.trans (hdated.working_eq fs hfs b hb)
    · exact (hdated.working_eq a ha fs hfs).trans hworking.symm
    · exact hdated.working_eq a ha b hb
  · intro a ha b hb place content content' modified h h'
    rcases List.mem_cons.1 ha with rfl | ha <;> rcases List.mem_cons.1 hb with rfl | hb
    · rw [h] at h'
      cases h'
      rfl
    · exact hnew b hb place content content' modified h h'
    · exact (hnew a ha place content' content modified h' h).symm
    · exact hdated.content_eq_of_at? a ha b hb _ _ _ _ h h'

end TypeLens.FileSystem
