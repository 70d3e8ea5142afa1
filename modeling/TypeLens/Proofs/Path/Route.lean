import TypeLens.Proofs.Project.Nearest
import TypeLens.Proofs.Session.Change

/-!
# Paths and their normal form

Normalizing resolves `..` by the text alone, and walking resolves it by going up. Without links the
two agree: **a path that leads somewhere leads there by its normal form too** (`stat_normalize`).
The converse fails. A walk has to enter what a later `..` leaves again, and normalizing forgets that
place, whether it exists or not.
-/

namespace TypeLens

open Text TypeLens.Path

namespace Path

/-- A step brings in no segment but the one it takes. -/
theorem resolveStep_subset (absolute : Bool) (resolved : List (List Char)) (segment : List Char) :
    resolveStep absolute resolved segment ⊆ segment :: resolved := by
  unfold resolveStep
  split
  · exact List.subset_cons_self _ _
  · split
    · split
      · split <;> simp
      · split
        · simp
        · exact fun s hs ↦ List.mem_cons_of_mem _ (List.mem_cons_of_mem _ hs)
    · simp

/-- Resolving brings in no segment that was not there. -/
theorem foldl_resolveStep_subset (absolute : Bool) (segments resolved : List (List Char)) :
    segments.foldl (resolveStep absolute) resolved ⊆ segments ++ resolved := by
  induction segments generalizing resolved with
  | nil => exact List.Subset.refl _
  | cons t segments ih =>
    intro s hs
    have hstep := resolveStep_subset absolute resolved t
    rcases List.mem_append.1 (ih _ hs) with h | h
    · simp [h]
    · rcases List.mem_cons.1 (hstep h) with h | h <;> simp [h]

/-- Every character of a joined path is a slash or belongs to a segment. -/
theorem mem_of_mem_joinAll {segments : List (List Char)} {c : Char}
    (h : c ∈ joinAll ['/'] segments) : c = '/' ∨ ∃ s ∈ segments, c ∈ s := by
  induction segments with
  | nil => cases h
  | cons s segments ih =>
    by_cases hrest : segments = []
    · subst hrest
      exact .inr ⟨s, List.mem_singleton_self s, h⟩
    · rw [joinAll_cons s hrest, List.mem_append, List.mem_append, List.mem_singleton] at h
      rcases h with (h | h) | h
      · exact .inr ⟨s, List.mem_cons_self, h⟩
      · exact .inl h
      · exact (ih h).imp id fun ⟨t, ht, hc⟩ ↦ ⟨t, List.mem_cons_of_mem s ht, hc⟩

/-- A normalized path has no characters but slashes and those of the path. -/
theorem mem_of_mem_normalize {path : String} (h : isAbsolute path = true) {c : Char}
    (hc : c ∈ (normalize path).toList) : c = '/' ∨ c ∈ path.toList := by
  obtain ⟨p, hp, hsegments⟩ := exists_normal_resolvedSegments h
  rw [hp, Normal.toList_text, List.mem_append] at hc
  rcases hc with hc | hc
  · rcases p.root_eq with hroot | hroot <;> simp [hroot] at hc <;> exact .inl hc
  · refine (mem_of_mem_joinAll hc).imp id ?_
    rintro ⟨s, hs, hcs⟩
    rw [hsegments, resolvedSegments, List.mem_reverse] at hs
    have hpiece := foldl_resolveStep_subset _ _ _ hs
    rw [List.append_nil] at hpiece
    exact mem_of_mem_splitAll hpiece hcs

end Path

namespace FileSystem

variable {fs : FileSystem} {here : Place} {segments names : List (List Char)} {node : FileNode}

/-- A route goes on from where its first segment leads. -/
theorem route_cons (here : Place) (s : List Char) (segments : List (List Char)) :
    route here (s :: segments) = route (enter here s) segments := by
  rw [route, enter]
  split
  · rfl
  · split <;> rfl

/-- A walk passes through directories. -/
theorem passed_route (hhere : fs.Passed here) (h : fs.walk here segments = .ok node) :
    fs.Passed (route here segments) := by
  induction segments generalizing here with
  | nil => exact hhere
  | cons s segments ih =>
    obtain ⟨hat, hrest⟩ := walk_cons_eq_ok_iff.1 h
    rw [route_cons]
    exact ih (hhere.enter hat s) hrest

/-- Names are walked one below the other. -/
theorem walk_names (hnames : ∀ s ∈ names, IsName s) (hpassed : fs.Passed (here ++ names))
    (hat : fs.at? (here ++ names) = some node) : fs.walk here names = .ok node := by
  induction names generalizing here with
  | nil =>
    rw [List.append_nil] at hat
    rw [walk, hat]
  | cons s names ih =>
    obtain ⟨hne, -, hdot, hdots⟩ := hnames s List.mem_cons_self
    have henter : enter here s = here ++ [s] := by
      simp [enter, hne, hdot, hdots]
    have happend : here ++ s :: names = (here ++ [s]) ++ names := by
      rw [List.append_assoc, List.singleton_append]
    refine walk_cons_eq_ok_iff.2 ⟨hpassed here (List.prefix_append here _) (by simp), ?_⟩
    rw [happend] at hpassed hat
    rw [henter]
    exact ih (fun t ht ↦ hnames t (List.mem_cons_of_mem s ht)) hpassed hat

/-- Below the root, a segment is resolved to the place it leads to. -/
theorem resolveStep_reverse (hhere : ['.', '.'] ∉ here) (s : List Char) :
    resolveStep true here.reverse s = (enter here s).reverse := by
  unfold resolveStep enter
  split
  · rfl
  · split
    · split
      next hnil => simp [List.reverse_eq_nil_iff.1 hnil]
      next last earlier hcons =>
        have hhere' : here = earlier.reverse ++ [last] := by
          rw [← List.reverse_reverse here, hcons, List.reverse_cons]
        have hlast : last ≠ ['.', '.'] := by
          rintro rfl
          simp [hhere'] at hhere
        rw [if_neg hlast, hhere', List.dropLast_concat, List.reverse_reverse]
    · rw [List.reverse_append, List.reverse_singleton, List.singleton_append]

/-- Resolving and walking take the same way. -/
theorem foldl_resolveStep_reverse (hhere : ['.', '.'] ∉ here) (segments : List (List Char)) :
    segments.foldl (resolveStep true) here.reverse = (route here segments).reverse := by
  induction segments generalizing here with
  | nil => rfl
  | cons s segments ih =>
    rw [List.foldl_cons, resolveStep_reverse hhere, route_cons]
    refine ih ?_
    unfold enter
    split
    · exact hhere
    next hblank =>
      split
      · exact fun hmem ↦ hhere ((List.dropLast_sublist here).subset hmem)
      next hdots =>
        rw [List.mem_append, List.mem_singleton, not_or]
        exact ⟨hhere, Ne.symm hdots⟩

/-- **A path that leads somewhere leads there by its normal form too.** -/
theorem stat_normalize {path : String} (h : isAbsolute path = true)
    (hstat : fs.stat path = .ok node) : fs.stat (normalize path) = .ok node := by
  obtain ⟨p, hp, hsegments⟩ := exists_normal_resolvedSegments h
  rw [stat_of_isAbsolute h] at hstat
  split at hstat
  · cases hstat
  next hnull =>
    have hnull' : ¬p.text.toList.contains '\x00' = true := by
      rw [List.contains_iff_mem] at hnull ⊢
      intro hmem
      rw [← hp] at hmem
      exact (mem_of_mem_normalize h hmem).elim (by decide) hnull
    have hroute : p.segments = route [] (splitAll '/' path.toList) := by
      have hroot : ['.', '.'] ∉ ([] : Place) := List.not_mem_nil
      have hresolved := foldl_resolveStep_reverse hroot (splitAll '/' path.toList)
      rw [List.reverse_nil] at hresolved
      rw [hsegments, resolvedSegments_of_isAbsolute h, hresolved, List.reverse_reverse]
    rw [hp, stat_text, if_neg hnull']
    refine walk_names p.isName ?_ ?_
    · rw [hroute]
      refine passed_route ?_ hstat
      intro place hplace hne
      exact absurd (List.prefix_nil.1 hplace) hne
    · rw [hroute]
      exact at?_of_walk hstat

/-- A file that is found at a path is found at its absolute path too. -/
theorem isFile_absolute {path : String} (h : isAbsolute path = true)
    (hfile : fs.isFile path = true) : fs.isFile (fs.absolute path) = true := by
  obtain ⟨content, modified, hstat⟩ := stat_of_isFile hfile
  have hjoin : fs.absolute path = normalize path := by
    rw [absolute, Path.absolute, join, if_pos h]
  rw [isFile, hjoin, stat_normalize h hstat]

end FileSystem

end TypeLens
