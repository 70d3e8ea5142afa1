import TypeLens.Proofs.Path.Normal

/-!
# Joining and normalizing

A path is joined to a directory by its text, and normalized by its segments. The two go together:
joining is associative (`join_assoc`), and the path of a directory may be normalized before another
path is joined to it (`normalize_join_normalize`), because what a path of segments leads to depends
only on where one was before them (`resolvedSegments_join`).

So a path seen from a directory, which is itself seen from the working directory, is the same
absolute path whether the directory is made absolute first or not (`absolute_absolute`).
-/

namespace TypeLens.Path

open Text

/-! ### Joined texts -/

/-- What comes between a directory and a path in it. -/
def separator (directory : String) : String :=
  if directory = "" ∨ directory.toList.getLast? = some '/' then "" else "/"

section

variable {directory path : String}

theorem join_of_isAbsolute (h : isAbsolute path = true) : join directory path = path := by
  rw [join, if_pos h]

theorem join_of_not_isAbsolute (h : ¬isAbsolute path = true) :
    join directory path = directory ++ separator directory ++ path := by
  rw [join, if_neg h, separator]
  split <;> simp

/-- A directory that is followed by its separator needs none any more. -/
theorem separator_append_separator (directory : String) :
    separator (directory ++ separator directory) = "" := by
  rw [separator, if_pos]
  unfold separator
  split
  next h => simpa using h
  next => exact .inr (by simp)

/-- Only the end of a directory decides about its separator. -/
theorem separator_append (h : path ≠ "") : separator (directory ++ path) = separator path := by
  obtain ⟨c, hc⟩ : ∃ c, path.toList.getLast? = some c :=
    Option.isSome_iff_exists.1 (List.getLast?_isSome.2 (by simpa using h))
  have hlast : (directory ++ path).toList.getLast? = path.toList.getLast? := by
    rw [String.toList_append, List.getLast?_append, hc, Option.some_or]
  have hne : directory ++ path ≠ "" := fun hempty ↦ h (String.append_eq_empty_iff.1 hempty).2
  simp only [separator, hlast, hne, h]

end

/-- **Joining paths is associative.** -/
theorem join_assoc (a b c : String) : join (join a b) c = join a (join b c) := by
  by_cases hc : isAbsolute c = true
  · rw [join_of_isAbsolute hc, join_of_isAbsolute hc, join_of_isAbsolute hc]
  by_cases hb : isAbsolute b = true
  · rw [join_of_isAbsolute hb, join_of_isAbsolute (isAbsolute_join hb c)]
  by_cases hempty : b = ""
  · subst hempty
    have hnone : join "" c = c := by simp [join_of_not_isAbsolute hc, separator]
    rw [hnone, join_of_not_isAbsolute hb, join_of_not_isAbsolute hc, join_of_not_isAbsolute hc,
      String.append_empty, separator_append_separator, String.append_empty]
  · have hjoin : ¬isAbsolute (join b c) = true := by
      obtain ⟨d, ds, hd⟩ := List.exists_cons_of_ne_nil (show b.toList ≠ [] by simpa using hempty)
      rw [join_of_not_isAbsolute hc]
      simpa [isAbsolute, hd] using hb
    rw [join_of_not_isAbsolute hjoin, join_of_not_isAbsolute hb, join_of_not_isAbsolute hc,
      join_of_not_isAbsolute hc, separator_append hempty]
    simp only [String.append_assoc]

/-! ### Normalized directories -/

/-- What follows a text that starts with a slash changes nothing about the slashes at its start,
unless there would be more of them. -/
theorem rootOf_append {front back : List Char} (hfront : front.head? = some '/')
    (hback : front.getLast? = some '/' → back.head? ≠ some '/') :
    rootOf (front ++ back) = rootOf front := by
  obtain ⟨rest, rfl⟩ := List.head?_eq_some_iff.1 hfront
  rcases rest with - | ⟨b, rest⟩
  · rcases back with - | ⟨c, back⟩
    · rfl
    · have hc : c ≠ '/' := by simpa using hback rfl
      simp [rootOf, hc]
  · by_cases hb : b = '/'
    · subst hb
      rcases rest with - | ⟨c, rest⟩
      · rcases back with - | ⟨c, back⟩
        · rfl
        · have hc : c ≠ '/' := by simpa using hback rfl
          simp [rootOf, hc]
      · by_cases hc : c = '/' <;> simp [rootOf, hc]
    · simp [rootOf, hb]

section

variable {directory path : String}

/-- A relative path takes the root of its directory. -/
theorem rootOf_join (hdirectory : isAbsolute directory = true) (hpath : ¬isAbsolute path = true) :
    rootOf (join directory path).toList = rootOf directory.toList := by
  have hhead : directory.toList.head? = some '/' := by simpa [isAbsolute] using hdirectory
  have hne : directory ≠ "" := by
    rintro rfl
    cases hhead
  rw [join_of_not_isAbsolute hpath, String.append_assoc, String.toList_append]
  refine rootOf_append hhead fun hlast ↦ ?_
  simpa [separator, hne, hlast, isAbsolute] using hpath

/-- **The segments of a path are resolved where those of the directory have led to.** -/
theorem resolvedSegments_join (hdirectory : isAbsolute directory = true)
    (hpath : ¬isAbsolute path = true) :
    resolvedSegments (join directory path).toList =
      ((splitAll '/' path.toList).foldl (resolveStep true)
        (resolvedSegments directory.toList).reverse).reverse := by
  have hne : directory ≠ "" := by
    rintro rfl
    cases hdirectory
  rw [resolvedSegments_of_isAbsolute (isAbsolute_join hdirectory path),
    resolvedSegments_of_isAbsolute hdirectory, List.reverse_reverse, ← List.foldl_append,
    join_of_not_isAbsolute hpath]
  by_cases hlast : directory.toList.getLast? = some '/'
  · obtain ⟨front, hfront⟩ := List.getLast?_eq_some_iff.1 hlast
    have hblank : (splitAll '/' [] : List (List Char)) = [[]] := rfl
    simp [separator, hne, hfront, splitAll_append_cons, hblank, resolveStep]
  · simp [separator, hne, hlast, splitAll_append_cons]

/-- An absolute path is normalized to its root and its resolved segments. -/
theorem normalize_of_isAbsolute (h : isAbsolute path = true) :
    normalize path = ofSegments (rootOf path.toList) (resolvedSegments path.toList) := by
  rw [normalize]
  split
  next hempty =>
    have hroot : rootOf path.toList = [] := by
      have htext := congrArg String.toList hempty
      rw [ofSegments, String.toList_ofList] at htext
      exact (List.append_eq_nil_iff.1 htext).1
    rcases rootOf_of_isAbsolute h with h | h <;> simp [h] at hroot
  next => rfl

/-- Normalizing resolves nothing further. -/
theorem resolvedSegments_normalize (h : isAbsolute path = true) :
    resolvedSegments (normalize path).toList = resolvedSegments path.toList := by
  obtain ⟨p, hp, hsegments⟩ := exists_normal_resolvedSegments h
  rw [hp, p.resolvedSegments_text, hsegments]

/-- Normalizing keeps the root. -/
theorem rootOf_normalize (h : isAbsolute path = true) :
    rootOf (normalize path).toList = rootOf path.toList := by
  obtain ⟨p, hp, hsegments⟩ := exists_normal_resolvedSegments h
  have htext := congrArg String.toList (hp.symm.trans (normalize_of_isAbsolute h))
  rw [p.toList_text, ofSegments, String.toList_ofList, hsegments] at htext
  rw [hp, p.rootOf_text, List.append_cancel_right htext]

theorem isAbsolute_normalize (h : isAbsolute path = true) : isAbsolute (normalize path) = true := by
  obtain ⟨p, hp⟩ := exists_normal_of_isAbsolute h
  rw [hp, p.isAbsolute_text]

/-- **A directory may be normalized before a path is joined to it.** -/
theorem normalize_join_normalize (h : isAbsolute directory = true) (path : String) :
    normalize (join (normalize directory) path) = normalize (join directory path) := by
  by_cases hpath : isAbsolute path = true
  · rw [join_of_isAbsolute hpath, join_of_isAbsolute hpath]
  · have hnormal := isAbsolute_normalize h
    rw [normalize_of_isAbsolute (isAbsolute_join hnormal path),
      normalize_of_isAbsolute (isAbsolute_join h path), rootOf_join hnormal hpath,
      rootOf_join h hpath, resolvedSegments_join hnormal hpath, resolvedSegments_join h hpath,
      rootOf_normalize h, resolvedSegments_normalize h]

end

/-- **What is seen from a directory may be seen from the working directory.** -/
theorem absolute_absolute {working : String} (h : isAbsolute working = true)
    (directory path : String) :
    absolute (absolute working directory) path = absolute working (join directory path) := by
  rw [absolute, absolute, absolute, normalize_join_normalize (isAbsolute_join h directory),
    join_assoc]

/-- A path that is absolute and normalized already stays as it is. -/
theorem absolute_idempotent {working : String} (h : isAbsolute working = true) (path : String) :
    absolute working (absolute working path) = absolute working path := by
  obtain ⟨p, hp⟩ := exists_normal_absolute h path
  rw [hp, p.absolute_text]

end TypeLens.Path
