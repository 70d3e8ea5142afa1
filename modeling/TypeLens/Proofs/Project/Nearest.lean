import TypeLens.Project
import TypeLens.Proofs.Path.Normal

/-!
# The nearest snapshot

The snapshot of a directory is the nearest one, in the directory or above it (`nearest?`). A file
system answers about normalized paths by walking along their names (`FileSystem.stat_text`); what
exists lies in a directory, and what is found under `.`, `..` or no name at all is never a file.

A search for a file is a search from the file itself, in case it is a directory, and then from its
directory upwards (`find_eq`). What is remembered of it are the directories from there up to the
snapshot, and these are just the ones for which the snapshot is the nearest (`mem_sharing_iff`).
-/

namespace TypeLens

open Text TypeLens.Path

namespace FileSystem

variable {fs : FileSystem} {here : Place} {segments : List (List Char)} {s : List Char}
  {node : FileNode}

/-! ### Walks -/

/-- The place one segment leads to. -/
def enter (here : Place) (segment : List Char) : Place :=
  if segment = [] ∨ segment = ['.'] then here
  else if segment = ['.', '.'] then here.dropLast
  else here ++ [segment]

/-- All places above one are directories. -/
def Passed (fs : FileSystem) (here : Place) : Prop :=
  ∀ place, place <+: here → place ≠ here → fs.at? place = some .directory

/-- Segments are walked one by one, from directories only. -/
theorem walk_cons_eq_ok_iff :
    fs.walk here (s :: segments) = .ok node ↔
      fs.at? here = some .directory ∧ fs.walk (enter here s) segments = .ok node := by
  rw [walk, enter]
  split
  next hat => simp [hat]
  next hat => simp [hat]
  next hat =>
    simp only [hat, true_and]
    split
    · rfl
    · split <;> rfl

/-- What is walked into by one more segment is a directory. -/
theorem walk_of_concat (h : fs.walk here (segments ++ [s]) = .ok node) :
    fs.walk here segments = .ok .directory := by
  induction segments generalizing here with
  | nil =>
    obtain ⟨hat, -⟩ := walk_cons_eq_ok_iff.1 h
    rw [walk, hat]
  | cons t segments ih =>
    obtain ⟨hat, hrest⟩ := walk_cons_eq_ok_iff.1 h
    exact walk_cons_eq_ok_iff.2 ⟨hat, ih hrest⟩

/-- The places at and above the one before are directories; the root comes before itself. -/
theorem Passed.at?_of_prefix_dropLast (h : fs.Passed here) {place : Place}
    (hplace : place <+: here.dropLast) : fs.at? place = some .directory := by
  by_cases hnil : here = []
  · rw [hnil, List.dropLast_nil, List.prefix_nil] at hplace
    rw [hplace]
    rfl
  · refine h place (hplace.trans (List.dropLast_prefix here)) ?_
    rintro rfl
    have hlength := hplace.length_le
    rw [List.length_dropLast] at hlength
    have hpos : 0 < place.length := List.length_pos_iff.2 hnil
    omega

/-- A place below a directory is passed as the directory is. -/
theorem Passed.enter (h : fs.Passed here) (hat : fs.at? here = some .directory) (s : List Char) :
    fs.Passed (enter here s) := by
  rw [FileSystem.enter]
  split
  · exact h
  · split
    · exact fun place hplace _ ↦ h.at?_of_prefix_dropLast hplace
    · intro place hplace hne
      have hshort : place <+: here := (List.prefix_concat_iff.1 hplace).resolve_left hne
      by_cases heq : place = here
      · rw [heq, hat]
      · exact h place hshort heq

/-- A walk that ends with a segment that is no name ends in a directory. -/
theorem walk_concat_of_not_name (hhere : fs.Passed here) (hs : s = [] ∨ s = ['.'] ∨ s = ['.', '.'])
    (h : fs.walk here (segments ++ [s]) = .ok node) : node = .directory := by
  induction segments generalizing here with
  | nil =>
    obtain ⟨hat, hend⟩ := walk_cons_eq_ok_iff.1 h
    have hplace : fs.at? (FileSystem.enter here s) = some .directory := by
      rcases hs with rfl | rfl | rfl
      · exact hat
      · exact hat
      · exact hhere.at?_of_prefix_dropLast (List.prefix_refl _)
    rw [walk, hplace] at hend
    exact (Except.ok.inj hend).symm
  | cons t segments ih =>
    obtain ⟨hat, hrest⟩ := walk_cons_eq_ok_iff.1 h
    exact ih (hhere.enter hat t) hrest

/-- Empty segments at the start of an absolute path lead nowhere. -/
theorem walk_blanks {blanks : List (List Char)} (h : ∀ b ∈ blanks, b = []) (fs : FileSystem)
    (segments : List (List Char)) : fs.walk [] (blanks ++ segments) = fs.walk [] segments := by
  induction blanks with
  | nil => rfl
  | cons b blanks ih =>
    obtain rfl := h b List.mem_cons_self
    rw [List.cons_append, walk]
    exact ih fun c hc ↦ h c (List.mem_cons_of_mem _ hc)

/-! ### Normalized paths -/

theorem absolute_text (fs : FileSystem) (p : Normal) : fs.absolute p.text = p.text :=
  p.absolute_text fs.working

/-- What is at an absolute path is what a walk from the root comes to. -/
theorem stat_of_isAbsolute {path : String} (h : isAbsolute path = true) :
    fs.stat path =
      if path.toList.contains '\x00' then .error .malformed
      else fs.walk [] (splitAll '/' path.toList) := by
  have hne : path ≠ "" := by
    rintro rfl
    exact absurd h (by decide)
  rw [stat, if_neg hne, join, if_pos h]

/-- A normalized path is walked along its names. -/
theorem stat_text (fs : FileSystem) (p : Normal) :
    fs.stat p.text =
      if p.text.toList.contains '\x00' then .error .malformed else fs.walk [] p.segments := by
  obtain ⟨blanks, hblanks, hsplit⟩ := p.exists_splitAll_text
  rw [stat_of_isAbsolute p.isAbsolute_text, hsplit, walk_blanks hblanks]

/-- What exists lies in a directory. -/
theorem isDirectory_of_stat_child {p : Normal} {hs : IsName s}
    (h : fs.stat (p.child s hs).text = .ok node) : fs.isDirectory p.text = true := by
  rw [stat_text] at h
  split at h
  · cases h
  next hnull =>
    have hnull' : ¬p.text.toList.contains '\x00' = true := by
      rw [List.contains_iff_mem] at hnull ⊢
      exact fun hmem ↦ hnull ((p.prefix_text_child s hs).subset hmem)
    have hwalk : fs.walk [] p.segments = .ok .directory := walk_of_concat h
    rw [isDirectory, stat_text, if_neg hnull', hwalk]

/-- The root is a directory. -/
theorem isDirectory_of_root {p : Normal} (h : p.segments = []) : fs.isDirectory p.text = true := by
  have hnull : ¬p.text.toList.contains '\x00' = true := by
    rw [Normal.toList_text_of_root h]
    rcases p.root_eq with hroot | hroot <;> simp [hroot]
  rw [isDirectory, stat_text, if_neg hnull, h]
  rfl

theorem stat_of_isFile {path : String} (h : fs.isFile path = true) :
    ∃ content modified, fs.stat path = .ok (.file content modified) := by
  rw [isFile] at h
  split at h
  next content modified hstat => exact ⟨content, modified, hstat⟩
  next => cases h

theorem stat_of_isDirectory {path : String} (h : fs.isDirectory path = true) :
    fs.stat path = .ok .directory := by
  rw [isDirectory] at h
  split at h
  next hstat => exact hstat
  next => cases h

end FileSystem

namespace Path.Normal

/-- A word without a slash comes behind the last slash. -/
theorem exists_toList_join (p : Normal) {name : String} (hname : '/' ∉ name.toList) :
    ∃ front, (join p.text name).toList = front ++ '/' :: name.toList := by
  rw [join, if_neg (not_isAbsolute hname)]
  split
  next h =>
    have hlast := h.resolve_left p.text_ne_empty
    obtain ⟨front, hfront⟩ := List.getLast?_eq_some_iff.1 hlast
    exact ⟨front, by simp [hfront]⟩
  next => exact ⟨p.text.toList, by simp⟩

/-- What is found by a word without a slash is a file only if the word is a name. -/
theorem isName_of_isFile_join {fs : FileSystem} {p : Normal} {name : String}
    (hname : '/' ∉ name.toList) (h : fs.isFile (join p.text name) = true) :
    IsName name.toList := by
  obtain ⟨content, modified, hstat⟩ := FileSystem.stat_of_isFile h
  obtain ⟨front, hfront⟩ := p.exists_toList_join hname
  rw [FileSystem.stat_of_isAbsolute (isAbsolute_join p.isAbsolute_text name), hfront,
    splitAll_append_cons, splitAll_of_not_mem hname] at hstat
  split at hstat
  · cases hstat
  · -- A word that is no name would end the walk in a directory.
    refine ⟨fun hs ↦ ?_, hname, fun hs ↦ ?_, fun hs ↦ ?_⟩
    all_goals
      have hpassed : fs.Passed [] := fun place hplace hne ↦ absurd (List.prefix_nil.1 hplace) hne
      exact nomatch FileSystem.walk_concat_of_not_name hpassed (by simp [hs]) hstat

end Path.Normal

namespace Project

variable (fs : FileSystem) (name : String)

/-! ### The nearest snapshot -/

/-- The snapshot of a directory: the first one in the directory and those above it. -/
def nearest? (directory : String) : Option String :=
  ((ancestors directory).map (join · name)).find? fs.isFile

/-- The snapshot in a directory is the nearest; without one it is that of the directory above. -/
theorem nearest?_text (p : Normal) :
    nearest? fs name p.text =
      if fs.isFile (join p.text name) then some (join p.text name)
      else nearest? fs name p.up.text := by
  induction p using Normal.induction with
  | root p h =>
    rw [Normal.up_eq_self_iff.2 h, nearest?, Normal.ancestors_of_root h, List.map_singleton,
      List.find?_singleton]
    split <;> rfl
  | child p s hs ih =>
    rw [Normal.up_child, nearest?, Normal.ancestors_child, List.map_cons, List.find?_cons]
    split
    next h => rw [if_pos h]
    next h => rw [if_neg (by simp [h]), nearest?]

variable {fs name} {p q : Normal} {c d file : String}

theorem isFile_of_nearest? (h : nearest? fs name d = some c) : fs.isFile c = true :=
  List.find?_some h

/-- The nearest snapshot lies in a directory that is no longer than the one it is searched for. -/
theorem exists_of_nearest? (h : nearest? fs name p.text = some c) :
    ∃ home : Normal, c = join home.text name ∧
      home.segments.length ≤ p.segments.length ∧ home.text.toList <+: p.text.toList := by
  obtain ⟨d, hd, rfl⟩ := List.mem_map.1 (List.mem_of_find?_eq_some h)
  obtain ⟨home, rfl, hlength, hstart⟩ := Normal.exists_of_mem_ancestors hd
  exact ⟨home, rfl, hlength, hstart⟩

/-- A snapshot lies in one directory only. -/
theorem eq_of_join_eq (hname : IsName name.toList) (h : join p.text name = join q.text name) :
    p = q := by
  rw [p.join_text hname, q.join_text hname] at h
  rw [← p.up_child _ hname, Normal.text_injective h, Normal.up_child]

theorem parent_join (p : Normal) (hname : IsName name.toList) :
    parent (join p.text name) = p.text := by
  rw [p.join_text hname, Normal.parent_text, Normal.up_child]

/-- The directories on the way from a directory up to its snapshot are those above it that have the
same one. -/
theorem mem_sharing_iff {home : Normal} (hname : IsName name.toList)
    (h : nearest? fs name p.text = some (join home.text name)) :
    d ∈ sharing home.text (ancestors p.text) ↔
      d ∈ ancestors p.text ∧ nearest? fs name d = some (join home.text name) := by
  induction p using Normal.induction with
  | root p hroot =>
    rw [Normal.ancestors_of_root hroot, sharing, sharing, ite_self, List.mem_singleton]
    constructor
    · rintro rfl
      exact ⟨rfl, h⟩
    · exact And.left
  | child p s hs ih =>
    have hhere := h
    rw [nearest?_text, Normal.up_child] at hhere
    rw [Normal.ancestors_child, List.mem_cons, sharing]
    split at hhere
    · -- The snapshot is in the directory itself, so none of those above has it.
      obtain rfl := eq_of_join_eq hname (Option.some.inj hhere)
      rw [if_pos (.inl rfl), List.mem_singleton]
      constructor
      · rintro rfl
        exact ⟨.inl rfl, h⟩
      · rintro ⟨rfl | habove, hd⟩
        · rfl
        · obtain ⟨q, rfl, hqp, -⟩ := Normal.exists_of_mem_ancestors habove
          obtain ⟨home, hhome, hlength, -⟩ := exists_of_nearest? hd
          rw [← eq_of_join_eq hname hhome] at hlength
          rw [Normal.length_segments_child] at hlength
          omega
    · -- The snapshot is further up, so the way there leads through the directory.
      obtain ⟨home', hhome, hlength, hstart⟩ := exists_of_nearest? hhere
      obtain rfl := eq_of_join_eq hname hhome
      have hne : (p.child s hs).text ≠ home.text := by
        intro heq
        rw [← Normal.text_injective heq] at hlength
        rw [Normal.length_segments_child] at hlength
        omega
      have hprefix : home.text.toList.isPrefixOf (p.child s hs).text.toList = true :=
        List.isPrefixOf_iff_prefix.2 (hstart.trans (Normal.prefix_text_child p s hs))
      rw [if_neg (by simp [hne, hprefix]), List.mem_cons, ih hhere]
      constructor
      · rintro (rfl | ⟨habove, hd⟩)
        · exact ⟨.inl rfl, h⟩
        · exact ⟨.inr habove, hd⟩
      · rintro ⟨rfl | habove, hd⟩
        · exact .inl rfl
        · exact .inr ⟨habove, hd⟩

/-! ### The search for a file -/

/-- The directory a file lies in. -/
def directoryOf (fs : FileSystem) (file : String) : String :=
  parent (fs.absolute file)

/-- The snapshot of a file: the one in the file, if it is a directory with one, or else that of the
directory it lies in. -/
def found? (fs : FileSystem) (name file : String) : Option String :=
  if fs.isFile (join (fs.absolute file) name) then some (join (fs.absolute file) name)
  else nearest? fs name (directoryOf fs file)

/-- The path of a file and of the directory it lies in. -/
theorem exists_normal_file (hworking : isAbsolute fs.working = true) (file : String) :
    ∃ p : Normal, fs.absolute file = p.text ∧ directoryOf fs file = p.up.text := by
  obtain ⟨p, hp⟩ := exists_normal_absolute hworking file
  have hfile : fs.absolute file = p.text := hp
  exact ⟨p, hfile, by rw [directoryOf, hfile, Normal.parent_text]⟩

/-- A snapshot lies in a directory. -/
theorem isDirectory_of_isFile_join (hname : '/' ∉ name.toList)
    (h : fs.isFile (join p.text name) = true) : fs.isDirectory p.text = true := by
  have hisName := Normal.isName_of_isFile_join hname h
  obtain ⟨content, modified, hstat⟩ := FileSystem.stat_of_isFile h
  rw [p.join_text hisName] at hstat
  exact FileSystem.isDirectory_of_stat_child hstat

/-- What is found is a file that lies in some directory by the name that was asked for. -/
theorem exists_of_found? (hworking : isAbsolute fs.working = true)
    (h : found? fs name file = some c) :
    fs.isFile c = true ∧ ∃ home : Normal, c = join home.text name := by
  obtain ⟨p, hfile, hdirectory⟩ := exists_normal_file hworking file
  rw [found?, hfile, hdirectory] at h
  split at h
  next hown =>
    obtain rfl := Option.some.inj h
    exact ⟨hown, p, rfl⟩
  next =>
    obtain ⟨home, hhome, -⟩ := exists_of_nearest? h
    exact ⟨isFile_of_nearest? h, home, hhome⟩

/-- What a search for a file says. -/
def report (name file : String) : Option String → Except Missing String
  | some c => .ok c
  | none => .error (.notFound name file)

/-- **A search finds the snapshot of the file**, or says that there is none. -/
theorem find_eq (hworking : isAbsolute fs.working = true) (hname : '/' ∉ name.toList) :
    find fs name file = report name file (found? fs name file) := by
  obtain ⟨p, hfile, hdirectory⟩ := exists_normal_file hworking file
  have hfound : nearest? fs name (if fs.isDirectory p.text then p.text else p.up.text) =
      found? fs name file := by
    rw [found?, hfile, hdirectory]
    split
    · exact nearest?_text fs name p
    next hnot =>
      have hnone : ¬fs.isFile (join p.text name) = true := fun h ↦
        hnot (isDirectory_of_isFile_join hname h)
      rw [if_neg hnone]
  rw [find, if_neg (not_isAbsolute hname), directoriesAbove, hfile, Normal.parent_text, ← hfound,
    nearest?]
  generalize List.find? _ _ = snapshot
  cases snapshot <;> rfl

end Project

end TypeLens
