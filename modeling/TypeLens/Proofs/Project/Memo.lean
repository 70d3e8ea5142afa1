import Mathlib.Data.Set.Defs
import TypeLens.Proofs.Project.Nearest
import TypeLens.Proofs.Session.Change

/-!
# What a memo of searches may answer

Searches without a given snapshot share a memo (`answers`). A search that the memo does not answer
leaves its snapshot there for some directories (`Leaves`), and a later search for a file reads the
entry of the directory the file lies in. All entries of a memo were left there by some search
(`Earned`), so a memo answers as an empty one would unless a search leaves an entry that is wrong
for another one (`spoils_iff`).

A file that is no directory, or a directory without a snapshot of its own, leaves the nearest
snapshot of each directory, and no harm is done among such files. But a directory with a snapshot of
its own leaves it for the directory *above*, and takes what others left there. `Spoils` lists the
two ways in which this goes wrong, and `answers_eq_fresh_iff` says that there is no other.
-/

namespace TypeLens.Project

open TypeLens.Path

variable (fs : FileSystem) (name : String)

/-- What a memo answers to searches for files one after another. -/
def answers (memo : Memo) : List String → List (Except Missing String)
  | [] => []
  | file :: files =>
    let (answer, memo) := resolve fs name memo file none
    answer :: answers memo files

/-- What an empty memo answers. -/
def fresh (file : String) : Except Missing String :=
  (resolve fs name [] file none).1

/-- The file is a directory, other than the root, with a snapshot of its own. -/
def HasOwn (file : String) : Prop :=
  fs.isFile (join (fs.absolute file) name) = true ∧ directoryOf fs file ≠ fs.absolute file

instance (file : String) : Decidable (HasOwn fs name file) :=
  inferInstanceAs (Decidable (_ ∧ _))

/-- One search makes the memo answer wrongly to another. -/
inductive Spoils : (earlier later : String) → Prop
  /-- The snapshot of a directory is taken for that of everything beside it. -/
  | beside {earlier later : String} :
    HasOwn fs name earlier → directoryOf fs later = directoryOf fs earlier →
      fs.absolute later ≠ fs.absolute earlier → Spoils earlier later
  /-- A directory is taken to have the snapshot of the directory above, since something else in or
  beneath that one has it. -/
  | above {earlier later snapshot : String} :
    HasOwn fs name later → ¬HasOwn fs name earlier →
      directoryOf fs later ∈ ancestors (directoryOf fs earlier) →
      nearest? fs name (directoryOf fs earlier) = some snapshot →
      nearest? fs name (directoryOf fs later) = some snapshot → Spoils earlier later

/-- The directories for which a search remembers its snapshot. -/
def remembered (file snapshot : String) : List String :=
  sharing (parent snapshot) (directoriesAbove fs (directoryOf fs file))

/-- The entry that a search for a file makes for a directory. -/
def Leaves (file directory snapshot : String) : Prop :=
  found? fs name file = some snapshot ∧ directory ∈ remembered fs file snapshot

/-- All entries of a memo come from searches for given files. -/
def Earned (files : Set String) (memo : Memo) : Prop :=
  ∀ directory snapshot, memo.lookup directory = some snapshot →
    ∃ file ∈ files, Leaves fs name file directory snapshot

variable {fs name} {files : Set String} {memo : Memo} {file earlier later d c : String}

/-! ### Entries -/

/-- What is remembered for a directory is found for that directory only. -/
theorem lookup_remember (memo : Memo) (directory snapshot d : String) :
    (remember memo directory snapshot).lookup d =
      if d = directory then some snapshot else memo.lookup d := by
  split
  next h => rw [h, lookup_remember_self]
  next h =>
    have hkept := FileSystem.lookup_filter_key (fun e ↦ e != directory) d memo
    rw [remember, List.lookup_cons, beq_false_of_ne h]
    simpa [h] using hkept

/-- What is remembered for several directories is found for each of them. -/
theorem lookup_foldl_remember (directories : List String) (memo : Memo) (c d : String) :
    (directories.foldl (fun memo d ↦ remember memo d c) memo).lookup d =
      if d ∈ directories then some c else memo.lookup d := by
  induction directories generalizing memo with
  | nil => rfl
  | cons e directories ih =>
    rw [List.foldl_cons, ih, lookup_remember]
    by_cases hd : d ∈ directories <;> by_cases he : d = e <;> simp [hd, he]

theorem resolve_of_lookup_eq_none (h : memo.lookup (directoryOf fs file) = none) :
    resolve fs name memo file none = search fs name memo file := by
  rw [directoryOf] at h
  unfold resolve
  simp only [h]

theorem resolve_of_lookup_eq_some (h : memo.lookup (directoryOf fs file) = some c)
    (hc : fs.isFile c = true) : resolve fs name memo file none = (.ok c, memo) := by
  rw [directoryOf] at h
  unfold resolve
  simp only [h, hc, if_true]

theorem earned_nil : Earned fs name files [] :=
  nofun

theorem HasOwn.found?_eq (h : HasOwn fs name file) :
    found? fs name file = some (join (fs.absolute file) name) :=
  if_pos h.1

section

variable (hworking : isAbsolute fs.working = true)

include hworking

/-! ### What a search remembers -/

/-- A file without a snapshot of its own has the one of the directory it lies in. -/
theorem found?_of_not_hasOwn (h : ¬HasOwn fs name file) :
    found? fs name file = nearest? fs name (directoryOf fs file) := by
  obtain ⟨p, hfile, -⟩ := exists_normal_file hworking file
  rw [found?]
  split
  next hsnapshot =>
    have hroot : directoryOf fs file = fs.absolute file :=
      Classical.not_not.1 fun hne ↦ h ⟨hsnapshot, hne⟩
    rw [hfile] at hroot hsnapshot
    rw [hroot, hfile, nearest?_text, if_pos hsnapshot]
  next => rfl

variable (hname : '/' ∉ name.toList)

include hname

/-- A directory with a snapshot of its own is a name in a directory. -/
theorem HasOwn.exists_child (h : HasOwn fs name file) :
    ∃ (p : Normal) (s : List Char) (hs : IsName s), fs.absolute file = (p.child s hs).text ∧
      directoryOf fs file = p.text ∧ fs.isDirectory p.text = true := by
  obtain ⟨q, hfile, hdirectory⟩ := exists_normal_file hworking file
  obtain ⟨hsnapshot, hne⟩ := h
  rw [hfile] at hsnapshot hne
  rw [hdirectory] at hne
  cases q using Normal.induction with
  | root q hroot => exact absurd (by rw [Normal.up_eq_self_iff.2 hroot]) hne
  | child p s hs =>
    have hstat := FileSystem.stat_of_isDirectory (isDirectory_of_isFile_join hname hsnapshot)
    rw [Normal.up_child] at hdirectory
    exact ⟨p, s, hs, hfile, hdirectory, FileSystem.isDirectory_of_stat_child hstat⟩

/-- The snapshot of a directory is not the one of the directory above. -/
theorem HasOwn.nearest?_ne (h : HasOwn fs name file) :
    nearest? fs name (directoryOf fs file) ≠ some (join (fs.absolute file) name) := by
  obtain ⟨p, s, hs, hfile, hdirectory, -⟩ := h.exists_child hworking hname
  intro hnearest
  have hsnapshot := h.1
  rw [hfile] at hsnapshot hnearest
  rw [hdirectory] at hnearest
  obtain ⟨home, hhome, hlength, -⟩ := exists_of_nearest? hnearest
  rw [← eq_of_join_eq (Normal.isName_of_isFile_join hname hsnapshot) hhome] at hlength
  rw [Normal.length_segments_child] at hlength
  omega

/-- A directory with a snapshot of its own leaves it for the directory above, and no other. -/
theorem HasOwn.remembered_eq (h : HasOwn fs name file) :
    remembered fs file (join (fs.absolute file) name) = [directoryOf fs file] := by
  obtain ⟨p, s, hs, hfile, hdirectory, hisDirectory⟩ := h.exists_child hworking hname
  have hsnapshot := h.1
  rw [hfile] at hsnapshot
  rw [remembered, hfile, hdirectory, parent_join _ (Normal.isName_of_isFile_join hname hsnapshot),
    directoriesAbove, FileSystem.absolute_text, if_pos hisDirectory]
  obtain ⟨above, habove⟩ := p.exists_ancestors_eq_cons
  have hlonger : ¬(p.child s hs).text.toList.isPrefixOf p.text.toList = true := by
    intro hprefix
    have hlength := (List.isPrefixOf_iff_prefix.1 hprefix).length_le
    have hpos : 0 < s.length := List.length_pos_iff.2 hs.1
    rw [Normal.toList_text_child] at hlength
    split at hlength <;> simp only [List.length_append, List.length_cons] at hlength <;> omega
  rw [habove, sharing, if_pos (.inr hlonger)]

/-- Any other file leaves its snapshot for all directories above it that have the same one. Its
own directory is left out if it does not exist. -/
theorem mem_remembered_iff (h : ¬HasOwn fs name file) (hc : found? fs name file = some c) :
    d ∈ remembered fs file c ↔
      (d ∈ ancestors (directoryOf fs file) ∧ nearest? fs name d = some c) ∧
        (d = directoryOf fs file → fs.isDirectory d = true) := by
  obtain ⟨p, -, hdirectory⟩ := exists_normal_file hworking file
  generalize p.up = p at hdirectory
  rw [found?_of_not_hasOwn hworking h, hdirectory] at hc
  obtain ⟨home, rfl, -⟩ := exists_of_nearest? hc
  have hisName := Normal.isName_of_isFile_join hname (isFile_of_nearest? hc)
  rw [remembered, hdirectory, parent_join _ hisName, directoriesAbove, FileSystem.absolute_text,
    Normal.parent_text]
  by_cases hisDirectory : fs.isDirectory p.text = true
  · rw [if_pos hisDirectory, mem_sharing_iff hisName hc]
    exact ⟨fun hd ↦ ⟨hd, fun heq ↦ heq ▸ hisDirectory⟩, And.left⟩
  · -- What does not exist is not the root, and has no snapshot in it.
    rw [if_neg hisDirectory]
    cases p using Normal.induction with
    | root p hroot => exact absurd (FileSystem.isDirectory_of_root hroot) hisDirectory
    | child p s hs =>
      have hnone : ¬fs.isFile (join (p.child s hs).text name) = true := fun hsnapshot ↦
        hisDirectory (isDirectory_of_isFile_join hname hsnapshot)
      rw [nearest?_text, if_neg hnone, Normal.up_child] at hc
      rw [Normal.up_child, mem_sharing_iff hisName hc, Normal.ancestors_child, List.mem_cons]
      constructor
      · rintro ⟨habove, hd⟩
        refine ⟨⟨.inr habove, hd⟩, ?_⟩
        rintro rfl
        exact absurd habove (p.text_child_not_mem_ancestors s hs)
      · rintro ⟨⟨rfl | habove, hd⟩, hexists⟩
        · exact absurd (hexists rfl) hisDirectory
        · exact ⟨habove, hd⟩

/-! ### Entries that are wrong for another search -/

/-- What lies beside a directory with a snapshot of its own has another one. -/
theorem HasOwn.found?_ne (h : HasOwn fs name earlier)
    (hdirectory : directoryOf fs later = directoryOf fs earlier)
    (hne : fs.absolute later ≠ fs.absolute earlier) :
    found? fs name later ≠ some (join (fs.absolute earlier) name) := by
  intro hfound
  by_cases hlater : HasOwn fs name later
  · rw [hlater.found?_eq] at hfound
    obtain ⟨p, hp, -⟩ := exists_normal_file hworking later
    obtain ⟨q, hq, -⟩ := exists_normal_file hworking earlier
    have hsnapshot := h.1
    rw [hp, hq] at hfound hne
    rw [hq] at hsnapshot
    have hsame := eq_of_join_eq (Normal.isName_of_isFile_join hname hsnapshot)
      (Option.some.inj hfound)
    exact hne (by rw [hsame])
  · rw [found?_of_not_hasOwn hworking hlater, hdirectory] at hfound
    exact h.nearest?_ne hworking hname hfound

/-- **When one search spoils another**: it leaves an entry for the directory of the other that is
not the snapshot of the other. -/
theorem spoils_iff :
    Spoils fs name earlier later ↔
      ∃ c, Leaves fs name earlier (directoryOf fs later) c ∧ found? fs name later ≠ some c := by
  constructor
  · rintro (⟨hown, hdirectory, hne⟩ | ⟨hown, hnot, habove, hearlier, hlater⟩)
    · refine ⟨_, ⟨hown.found?_eq, ?_⟩, hown.found?_ne hworking hname hdirectory hne⟩
      rw [hown.remembered_eq hworking hname, hdirectory]
      exact List.mem_singleton_self _
    · obtain ⟨p, s, hs, -, hdirectory, hisDirectory⟩ := hown.exists_child hworking hname
      have hfound := found?_of_not_hasOwn hworking hnot
      rw [hearlier] at hfound
      refine ⟨_, ⟨hfound, ?_⟩, ?_⟩
      · rw [mem_remembered_iff hworking hname hnot hfound]
        exact ⟨⟨habove, hlater⟩, fun _ ↦ hdirectory ▸ hisDirectory⟩
      · rw [hown.found?_eq, ← hlater]
        exact (hown.nearest?_ne hworking hname).symm
  · rintro ⟨c, ⟨hc, hleft⟩, hne⟩
    by_cases hearlier : HasOwn fs name earlier
    · obtain rfl := Option.some.inj (hearlier.found?_eq.symm.trans hc)
      rw [hearlier.remembered_eq hworking hname, List.mem_singleton] at hleft
      refine .beside hearlier hleft fun hsame ↦ hne ?_
      rw [← hc, found?, found?, directoryOf, directoryOf, hsame]
    · obtain ⟨⟨habove, hnearest⟩, -⟩ := (mem_remembered_iff hworking hname hearlier hc).1 hleft
      rw [found?_of_not_hasOwn hworking hearlier] at hc
      -- Without a snapshot of its own the later file would have the one of its directory.
      have hlater : HasOwn fs name later := Classical.not_not.1 fun hnot ↦
        hne ((found?_of_not_hasOwn hworking hnot).trans hnearest)
      exact .above hlater hearlier habove hc hnearest

/-! ### Steps and runs -/

/-- A search that finds a snapshot answers it and remembers it on the way. -/
theorem search_of_found?_eq_some (h : found? fs name file = some c) :
    search fs name memo file =
      (.ok c, (remembered fs file c).foldl (fun memo d ↦ remember memo d c) memo) := by
  obtain ⟨hsnapshot, home, rfl⟩ := exists_of_found? hworking h
  have habsolute : fs.absolute (join home.text name) = join home.text name := by
    rw [home.join_text (Normal.isName_of_isFile_join hname hsnapshot), FileSystem.absolute_text]
  rw [search, find_eq hworking hname, h]
  simp only [report, habsolute]
  rfl

theorem search_of_found?_eq_none (h : found? fs name file = none) :
    search fs name memo file = (.error (.notFound name file), memo) := by
  rw [search, find_eq hworking hname, h]
  rfl

/-- What a search answers does not depend on the memo. -/
theorem fst_search :
    (search fs name memo file).1 = report name file (found? fs name file) := by
  cases h : found? fs name file with
  | none => rw [search_of_found?_eq_none hworking hname h, report]
  | some c => rw [search_of_found?_eq_some hworking hname h, report]

theorem fresh_eq : fresh fs name file = report name file (found? fs name file) := by
  rw [fresh, resolve_of_lookup_eq_none rfl, fst_search hworking hname]

/-- The entries of a memo after a search were there before, or the search leaves them. -/
theorem lookup_search (h : (search fs name memo file).2.lookup d = some c) :
    Leaves fs name file d c ∨ memo.lookup d = some c := by
  cases hfound : found? fs name file with
  | none =>
    rw [search_of_found?_eq_none hworking hname hfound] at h
    exact .inr h
  | some snapshot =>
    simp only [search_of_found?_eq_some hworking hname hfound, lookup_foldl_remember] at h
    split at h
    next hd =>
      obtain rfl := Option.some.inj h
      exact .inl ⟨hfound, hd⟩
    next => exact .inr h

/-- **One step**: an earned memo answers as an empty one, and stays earned. -/
theorem Earned.step (hmemo : Earned fs name files memo) (hfile : file ∈ files)
    (hspoils : ∀ earlier ∈ files, ¬Spoils fs name earlier file) :
    (resolve fs name memo file none).1 = fresh fs name file ∧
      Earned fs name files (resolve fs name memo file none).2 := by
  cases hlookup : memo.lookup (directoryOf fs file) with
  | none =>
    rw [resolve_of_lookup_eq_none hlookup, fst_search hworking hname, fresh_eq hworking hname]
    refine ⟨rfl, fun d c hd ↦ ?_⟩
    rcases lookup_search hworking hname hd with hleaves | hold
    · exact ⟨file, hfile, hleaves⟩
    · exact hmemo d c hold
  | some c =>
    obtain ⟨earlier, hearlier, hleaves⟩ := hmemo _ c hlookup
    have hc := (exists_of_found? hworking hleaves.1).1
    have hfound : found? fs name file = some c := Classical.not_not.1 fun hne ↦
      hspoils earlier hearlier ((spoils_iff hworking hname).2 ⟨c, hleaves, hne⟩)
    rw [resolve_of_lookup_eq_some hlookup hc, fresh_eq hworking hname, hfound]
    exact ⟨rfl, hmemo⟩

/-- **A run**: an earned memo answers all searches as empty ones. -/
theorem Earned.answers_eq
    (hspoils : ∀ earlier ∈ files, ∀ later ∈ files, ¬Spoils fs name earlier later)
    {run : List String} (hrun : ∀ file ∈ run, file ∈ files) (hmemo : Earned fs name files memo) :
    answers fs name memo run = run.map (fresh fs name) := by
  induction run generalizing memo with
  | nil => rfl
  | cons file run ih =>
    have hfile := hrun file List.mem_cons_self
    obtain ⟨hanswer, hnext⟩ :=
      hmemo.step hworking hname hfile fun earlier hearlier ↦ hspoils earlier hearlier file hfile
    rw [List.map_cons, ← hanswer, ← ih (fun f hf ↦ hrun f (List.mem_cons_of_mem file hf)) hnext]
    rfl

/-- A search that spoils another one does so at once. -/
theorem Spoils.answers_ne (h : Spoils fs name earlier later) :
    answers fs name [] [earlier, later] ≠ [earlier, later].map (fresh fs name) := by
  obtain ⟨c, ⟨hfound, hleft⟩, hne⟩ := (spoils_iff hworking hname).1 h
  have hlookup : (resolve fs name [] earlier none).2.lookup (directoryOf fs later) = some c := by
    rw [resolve_of_lookup_eq_none rfl, search_of_found?_eq_some hworking hname hfound,
      lookup_foldl_remember, if_pos hleft]
  have hc := (exists_of_found? hworking hfound).1
  intro heq
  simp only [answers, resolve_of_lookup_eq_some hlookup hc, List.map_cons, List.cons.injEq,
    fresh_eq hworking hname] at heq
  cases hlater : found? fs name later with
  | none => simp [hlater, report] at heq
  | some c' =>
    simp only [hlater, report, Except.ok.injEq] at heq
    exact hne (by rw [hlater, heq.2.1])

end

/-- **A memo answers all runs of searches for some files as empty memos would if and only if none
of these searches spoils another one.** -/
theorem answers_eq_fresh_iff (hworking : isAbsolute fs.working = true)
    (hname : '/' ∉ name.toList) (files : Set String) :
    (∀ run : List String, (∀ file ∈ run, file ∈ files) →
        answers fs name [] run = run.map (fresh fs name)) ↔
      ∀ earlier ∈ files, ∀ later ∈ files, ¬Spoils fs name earlier later := by
  constructor
  · intro hruns earlier hearlier later hlater hspoils
    refine hspoils.answers_ne hworking hname (hruns [earlier, later] ?_)
    simp [hearlier, hlater]
  · exact fun hspoils run hrun ↦ earned_nil.answers_eq hworking hname hspoils hrun

/-- A file system with a snapshot at the root and one in a directory further down. -/
def nested : FileSystem where
  working := "/src"
  nodes :=
    [(["type-graph.json".toList], .file .empty 0), (["src".toList], .directory),
      (["src".toList, "pkg".toList], .directory),
      (["src".toList, "pkg".toList, "type-graph.json".toList], .file .empty 0)]

/-- No harm is done among files, missing ones and a directory without a snapshot. -/
theorem answers_eq_fresh_nested :
    isAbsolute nested.working = true ∧ '/' ∉ "type-graph.json".toList ∧
      ∀ run : List String,
        (∀ file ∈ run, file ∈ {file | file ∈ ["pkg/a.ts", "b.ts", "/src", "/no/such/c.ts"]}) →
          answers nested "type-graph.json" [] run =
            run.map (fresh nested "type-graph.json") := by
  have hnone : ∀ file ∈ ["pkg/a.ts", "b.ts", "/src", "/no/such/c.ts"],
      ¬HasOwn nested "type-graph.json" file := by
    decide +kernel
  refine ⟨by decide, by decide, (answers_eq_fresh_iff (by decide) (by decide) _).2 ?_⟩
  rintro earlier hearlier later hlater (⟨hown, -, -⟩ | ⟨hown, -⟩)
  · exact hnone earlier hearlier hown
  · exact hnone later hlater hown

instance decidableEqAnswer : DecidableEq (Except Missing String)
  | .ok a, .ok b => decidable_of_iff (a = b) (by simp)
  | .error a, .error b => decidable_of_iff (a = b) (by simp)
  | .ok _, .error _ => isFalse nofun
  | .error _, .ok _ => isFalse nofun

/-- A directory with a snapshot of its own spoils the search for a file beside it, and is spoiled by
it. -/
theorem answers_ne_fresh_nested :
    isAbsolute nested.working = true ∧ '/' ∉ "type-graph.json".toList ∧
      ["/src/pkg", "/src/a.ts"].map (fresh nested "type-graph.json") =
        [.ok "/src/pkg/type-graph.json", .ok "/type-graph.json"] ∧
      answers nested "type-graph.json" [] ["/src/pkg", "/src/a.ts"] =
        [.ok "/src/pkg/type-graph.json", .ok "/src/pkg/type-graph.json"] ∧
      answers nested "type-graph.json" [] ["/src/a.ts", "/src/pkg"] =
        [.ok "/type-graph.json", .ok "/type-graph.json"] := by
  decide +kernel

end TypeLens.Project
