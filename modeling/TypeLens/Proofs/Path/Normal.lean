import TypeLens.Path
import TypeLens.Proofs.Text.Scan

/-!
# Normalized paths

A normalized absolute path is one or two slashes and a list of names: segments that are not empty
and not `.` or `..`, and that hold no slash. `Path.Normal` is such a path by its parts. What an
absolute path is normalized to is one (`exists_normal_of_isAbsolute`), and it is normalized to
itself (`Normal.normalize_text`); two of them have the same text only if they are the same
(`Normal.text_injective`). No path becomes longer (`length_normalize_le`).

A normalized path is a root or the child of another one. So what is said of its text can be read off
its last name: the directory it lies in (`Normal.parent_text`), the paths above it
(`Normal.ancestors_child`), and what a name in it adds (`Normal.join_text`).
-/

namespace TypeLens.Path

open Text

/-- What may stand between two slashes of a normalized path. -/
def IsName (s : List Char) : Prop :=
  s ≠ [] ∧ '/' ∉ s ∧ s ≠ ['.'] ∧ s ≠ ['.', '.']

/-- A normalized absolute path. -/
@[ext]
structure Normal where
  /-- The slashes at the start. -/
  root : List Char
  /-- The names, the outermost first. -/
  segments : List (List Char)
  /-- There is one slash at the start, or two. -/
  root_eq : root = ['/'] ∨ root = ['/', '/']
  /-- The segments are names. -/
  isName : ∀ s ∈ segments, IsName s

namespace Normal

/-- The text of a normalized path. -/
def text (p : Normal) : String :=
  ofSegments p.root p.segments

/-- The path of a name in a directory. -/
def child (p : Normal) (s : List Char) (hs : IsName s) : Normal where
  root := p.root
  segments := p.segments ++ [s]
  root_eq := p.root_eq
  isName t ht := (List.mem_append.1 ht).elim (p.isName t) fun h ↦ List.mem_singleton.1 h ▸ hs

/-- The directory a path lies in; a root lies in itself. -/
def up (p : Normal) : Normal where
  root := p.root
  segments := p.segments.dropLast
  root_eq := p.root_eq
  isName t ht := p.isName t ((List.dropLast_sublist _).subset ht)

variable {p q : Normal} {s : List Char} {hs : IsName s}

@[simp]
theorem up_child (p : Normal) (s : List Char) (hs : IsName s) : (p.child s hs).up = p := by
  ext1
  · rfl
  · exact List.dropLast_concat

theorem length_segments_child (p : Normal) (s : List Char) (hs : IsName s) :
    (p.child s hs).segments.length = p.segments.length + 1 :=
  List.length_append

/-- Only the root is its own parent. -/
theorem up_eq_self_iff : p.up = p ↔ p.segments = [] := by
  constructor
  · intro h
    have hlength := congrArg (fun q ↦ q.segments.length) h
    simp only [up, List.length_dropLast] at hlength
    exact List.eq_nil_of_length_eq_zero (by omega)
  · intro h
    ext1
    · rfl
    · simp [up, h]

/-- **Induction along a path**, from the root to its last name. -/
theorem induction {motive : Normal → Prop} (root : ∀ p : Normal, p.segments = [] → motive p)
    (child : ∀ p s hs, motive p → motive (child p s hs)) (p : Normal) : motive p := by
  obtain ⟨n, hn⟩ : ∃ n, p.segments.length = n := ⟨_, rfl⟩
  induction n generalizing p with
  | zero => exact root p (List.eq_nil_of_length_eq_zero hn)
  | succ n ih =>
    have hne : p.segments ≠ [] := by
      intro hnil
      simp [hnil] at hn
    have hname := p.isName _ (List.getLast_mem hne)
    have hp : p = p.up.child _ hname := by
      ext1
      · rfl
      · exact (List.dropLast_concat_getLast hne).symm
    rw [hp]
    exact child _ _ hname (ih p.up (by simp [up, hn]))

/-! ### Texts -/

theorem toList_text (p : Normal) : p.text.toList = p.root ++ joinAll ['/'] p.segments :=
  String.toList_ofList

theorem toList_text_of_root (h : p.segments = []) : p.text.toList = p.root := by
  rw [toList_text, h, joinAll, List.append_nil]

/-- A name comes behind the directory, and behind a slash unless the directory ends with one. -/
theorem toList_text_child (p : Normal) (s : List Char) (hs : IsName s) :
    (p.child s hs).text.toList =
      if p.segments = [] then p.text.toList ++ s else p.text.toList ++ '/' :: s := by
  rw [toList_text, toList_text, child]
  split
  next h => simp [h, joinAll]
  next h =>
    rw [joinAll_append h (by simp)]
    simp [joinAll]

theorem prefix_text_child (p : Normal) (s : List Char) (hs : IsName s) :
    p.text.toList <+: (p.child s hs).text.toList := by
  rw [toList_text_child]
  split <;> exact List.prefix_append _ _

theorem root_ne_nil (p : Normal) : p.root ≠ [] := by
  rcases p.root_eq with h | h <;> simp [h]

theorem getLast?_root (p : Normal) : p.root.getLast? = some '/' := by
  rcases p.root_eq with h | h <;> simp [h]

/-- The text of a path ends with a slash only if it is a root. -/
theorem getLast?_text_of_ne_root (h : p.segments ≠ []) :
    ∃ c, p.text.toList.getLast? = some c ∧ c ≠ '/' := by
  induction p using Normal.induction with
  | root p hroot => exact absurd hroot h
  | child p s hs ih =>
    obtain ⟨c, hc⟩ : ∃ c, s.getLast? = some c := ⟨_, List.getLast?_eq_some_getLast hs.1⟩
    refine ⟨c, ?_, fun hslash ↦ hs.2.1 (hslash ▸ List.mem_of_getLast? hc)⟩
    rw [toList_text_child]
    split
    · rw [List.getLast?_append, hc, Option.some_or]
    · rw [List.getLast?_append, List.getLast?_cons, hc]
      rfl

theorem isAbsolute_text (p : Normal) : isAbsolute p.text = true := by
  rw [isAbsolute, toList_text]
  rcases p.root_eq with h | h <;> simp [h]

/-- No name starts with a slash. -/
theorem head?_joinAll_ne {segments : List (List Char)} (h : ∀ s ∈ segments, IsName s) :
    (joinAll ['/'] segments).head? ≠ some '/' := by
  cases segments with
  | nil => simp [joinAll]
  | cons s segments =>
    obtain ⟨hne, hslash, -⟩ := h s List.mem_cons_self
    obtain ⟨c, cs, rfl⟩ := List.exists_cons_of_ne_nil hne
    have hc : c ≠ '/' := fun hc ↦ hslash (hc ▸ List.mem_cons_self)
    cases segments with
    | nil => simpa [joinAll] using hc
    | cons => simpa [joinAll] using hc

/-- The root of a normal path is read off its text. -/
theorem rootOf_text (p : Normal) : rootOf p.text.toList = p.root := by
  have hhead := head?_joinAll_ne p.isName
  rw [toList_text]
  generalize joinAll ['/'] p.segments = cs at hhead
  rcases p.root_eq with h | h
  · rw [h]
    match cs, hhead with
    | [], _ => rfl
    | c :: cs, hhead =>
      have hc : c ≠ '/' := by simpa using hhead
      simp [rootOf, hc]
  · rw [h]
    match cs, hhead with
    | [], _ => rfl
    | c :: cs, hhead =>
      have hc : c ≠ '/' := by simpa using hhead
      simp [rootOf, hc]

/-- The text of a path is cut at its slashes into its names, and empty pieces before them. -/
theorem exists_splitAll_text (p : Normal) :
    ∃ blanks, (∀ b ∈ blanks, b = []) ∧ splitAll '/' p.text.toList = blanks ++ p.segments := by
  have hnames : ∃ blanks, (∀ b ∈ blanks, b = []) ∧
      splitAll '/' (joinAll ['/'] p.segments) = blanks ++ p.segments := by
    by_cases h : p.segments = []
    · exact ⟨[[]], by simp, by rw [h]; rfl⟩
    · exact ⟨[], by simp, splitAll_joinAll h fun s hs ↦ (p.isName s hs).2.1⟩
  obtain ⟨blanks, hblanks, hsplit⟩ := hnames
  rw [toList_text]
  rcases p.root_eq with h | h
  · exact ⟨[] :: blanks, by simpa using hblanks, by simp [h, splitAll_cons_self, hsplit]⟩
  · exact ⟨[] :: [] :: blanks, by simpa using hblanks, by simp [h, splitAll_cons_self, hsplit]⟩

/-- The segments of a normal path are read off its text. -/
theorem segments_text (p : Normal) : Path.segments p.text = p.segments := by
  obtain ⟨blanks, hblanks, hsplit⟩ := p.exists_splitAll_text
  have hnone : blanks.filter (fun s ↦ !s.isEmpty) = [] :=
    List.filter_eq_nil_iff.2 fun b hb ↦ by simp [hblanks b hb]
  have hall : p.segments.filter (fun s ↦ !s.isEmpty) = p.segments :=
    List.filter_eq_self.2 fun s hs ↦ by simpa using (p.isName s hs).1
  rw [Path.segments, hsplit, List.filter_append, hnone, hall, List.nil_append]

/-- Paths with the same text are the same. -/
theorem text_injective (h : p.text = q.text) : p = q := by
  ext1
  · rw [← p.rootOf_text, h, q.rootOf_text]
  · rw [← p.segments_text, h, q.segments_text]

/-! ### Normalization -/

theorem text_ne_empty (p : Normal) : p.text ≠ "" := by
  intro h
  have hlist := p.toList_text
  rw [h] at hlist
  exact p.root_ne_nil (List.append_eq_nil_iff.1 hlist.symm).1

/-- Empty segments resolve to nothing. -/
theorem foldl_resolveStep_blanks {blanks : List (List Char)} (h : ∀ b ∈ blanks, b = [])
    (absolute : Bool) (resolved : List (List Char)) :
    blanks.foldl (resolveStep absolute) resolved = resolved := by
  induction blanks with
  | nil => rfl
  | cons b blanks ih =>
    rw [List.foldl_cons, h b List.mem_cons_self]
    exact ih fun c hc ↦ h c (List.mem_cons_of_mem b hc)

/-- Names resolve to themselves. -/
theorem foldl_resolveStep_names {segments : List (List Char)} (h : ∀ s ∈ segments, IsName s)
    (absolute : Bool) (resolved : List (List Char)) :
    segments.foldl (resolveStep absolute) resolved = segments.reverse ++ resolved := by
  induction segments generalizing resolved with
  | nil => rfl
  | cons s segments ih =>
    obtain ⟨hne, -, hdot, hdots⟩ := h s List.mem_cons_self
    have hstep : resolveStep absolute resolved s = s :: resolved := by
      simp [resolveStep, hne, hdot, hdots]
    rw [List.foldl_cons, hstep, ih fun t ht ↦ h t (List.mem_cons_of_mem s ht), List.reverse_cons,
      List.append_assoc, List.singleton_append]

theorem resolvedSegments_text (p : Normal) : resolvedSegments p.text.toList = p.segments := by
  obtain ⟨blanks, hblanks, hsplit⟩ := p.exists_splitAll_text
  rw [resolvedSegments, hsplit, List.foldl_append, foldl_resolveStep_blanks hblanks,
    foldl_resolveStep_names p.isName, List.append_nil, List.reverse_reverse]

/-- A normalized path is normalized to itself. -/
theorem normalize_text (p : Normal) : normalize p.text = p.text := by
  rw [normalize, resolvedSegments_text, rootOf_text]
  split
  next h => exact absurd h p.text_ne_empty
  next => rfl

theorem absolute_text (working : String) (p : Normal) : absolute working p.text = p.text := by
  rw [absolute, join, if_pos p.isAbsolute_text, normalize_text]

end Normal

/-- In an absolute path, what is resolved are names. -/
theorem isName_of_mem_resolveStep {resolved : List (List Char)} {segment : List Char}
    (hresolved : ∀ s ∈ resolved, IsName s) (hslash : '/' ∉ segment) :
    ∀ s ∈ resolveStep true resolved segment, IsName s := by
  unfold resolveStep
  split
  · exact hresolved
  next hblank =>
    obtain ⟨hne, hdot⟩ := not_or.1 hblank
    split
    · cases resolved with
      | nil => simp
      | cons last earlier =>
        have hlast : last ≠ ['.', '.'] := (hresolved last List.mem_cons_self).2.2.2
        simp only [hlast, if_false]
        exact fun s hs ↦ hresolved s (List.mem_cons_of_mem last hs)
    next hdots =>
      rintro s (- | ⟨-, hs⟩)
      · exact ⟨hne, hslash, hdot, hdots⟩
      · exact hresolved s hs

/-- An absolute path starts with one slash or two. -/
theorem rootOf_of_isAbsolute {path : String} (h : isAbsolute path = true) :
    rootOf path.toList = ['/'] ∨ rootOf path.toList = ['/', '/'] := by
  rw [isAbsolute] at h
  rw [rootOf.eq_def]
  split
  · exact .inl rfl
  · exact .inr rfl
  · exact .inl rfl
  · next hslash =>
    cases hpath : path.toList with
    | nil => simp [hpath] at h
    | cons c cs =>
      obtain rfl : c = '/' := by simpa [hpath] using h
      exact absurd hpath (hslash cs)

/-- The segments of an absolute path are resolved one after the other. -/
theorem resolvedSegments_of_isAbsolute {path : String} (h : isAbsolute path = true) :
    resolvedSegments path.toList =
      ((splitAll '/' path.toList).foldl (resolveStep true) []).reverse := by
  have habsolute : (!(rootOf path.toList).isEmpty) = true := by
    rcases rootOf_of_isAbsolute h with h | h <;> rw [h] <;> rfl
  rw [resolvedSegments, habsolute]

/-- An absolute path is normalized to the path of its segments. -/
theorem exists_normal_resolvedSegments {path : String} (h : isAbsolute path = true) :
    ∃ p : Normal, normalize path = p.text ∧ p.segments = resolvedSegments path.toList := by
  have hnames : ∀ s ∈ resolvedSegments path.toList, IsName s := by
    intro s hs
    rw [resolvedSegments_of_isAbsolute h, List.mem_reverse] at hs
    have hslash : ∀ t ∈ splitAll '/' path.toList, '/' ∉ t := fun t ↦ not_mem_of_mem_splitAll
    revert s
    generalize splitAll '/' path.toList = segments at hslash
    suffices ∀ resolved : List (List Char), (∀ s ∈ resolved, IsName s) →
        ∀ s ∈ segments.foldl (resolveStep true) resolved, IsName s from
      fun s hs ↦ this [] (by simp) s hs
    induction segments with
    | nil => exact fun _ h ↦ h
    | cons t segments ih =>
      intro resolved hresolved
      exact ih (fun u hu ↦ hslash u (List.mem_cons_of_mem t hu)) _
        (isName_of_mem_resolveStep hresolved (hslash t List.mem_cons_self))
  let p : Normal :=
    ⟨rootOf path.toList, resolvedSegments path.toList, rootOf_of_isAbsolute h, hnames⟩
  refine ⟨p, ?_, rfl⟩
  rw [normalize]
  split
  next hempty => exact absurd hempty p.text_ne_empty
  next => rfl

/-- An absolute path is normalized to a normalized path. -/
theorem exists_normal_of_isAbsolute {path : String} (h : isAbsolute path = true) :
    ∃ p : Normal, normalize path = p.text :=
  (exists_normal_resolvedSegments h).imp fun _ ↦ And.left

theorem not_isAbsolute {path : String} (h : '/' ∉ path.toList) : ¬isAbsolute path = true := by
  intro habsolute
  have hhead : path.toList.head? = some '/' := by simpa [isAbsolute] using habsolute
  exact h (List.mem_of_head? hhead)

/-- What is seen from an absolute path is absolute. -/
theorem isAbsolute_join {directory : String} (h : isAbsolute directory = true) (path : String) :
    isAbsolute (join directory path) = true := by
  rw [join]
  split
  · assumption
  · have hhead : directory.toList.head? = some '/' := by simpa [isAbsolute] using h
    obtain ⟨rest, hrest⟩ := List.head?_eq_some_iff.1 hhead
    split <;> simp [isAbsolute, hrest]

/-- The absolute path of any path is normalized. -/
theorem exists_normal_absolute {working : String} (h : isAbsolute working = true) (path : String) :
    ∃ p : Normal, absolute working path = p.text :=
  exists_normal_of_isAbsolute (isAbsolute_join h path)

/-! ### Lengths -/

/-- The number of characters of segments with a slash behind each of them. -/
def extent : List (List Char) → Nat
  | [] => 0
  | s :: segments => s.length + 1 + extent segments

theorem extent_append (xs ys : List (List Char)) : extent (xs ++ ys) = extent xs + extent ys := by
  induction xs with
  | nil => exact (Nat.zero_add _).symm
  | cons s xs ih =>
    rw [List.cons_append, extent, extent, ih]
    omega

/-- The extent of segments does not depend on their order. -/
@[simp]
theorem extent_reverse (segments : List (List Char)) :
    extent segments.reverse = extent segments := by
  induction segments with
  | nil => rfl
  | cons s segments ih =>
    rw [List.reverse_cons, extent_append, ih]
    simp only [extent]
    omega

/-- Joined segments are as long as their extent, but for the slash before the first one. -/
theorem length_joinAll {segments : List (List Char)} (h : segments ≠ []) :
    (joinAll ['/'] segments).length + 1 = extent segments := by
  induction segments with
  | nil => exact absurd rfl h
  | cons s segments ih =>
    by_cases hnil : segments = []
    · simp [hnil, joinAll, extent]
    · rw [joinAll_cons s hnil, List.length_append, List.length_append, List.length_singleton,
        extent, ← ih hnil]
      omega

theorem extent_splitAll (cs : List Char) : extent (splitAll '/' cs) = cs.length + 1 := by
  rw [← length_joinAll (splitAll_ne_nil '/' cs), joinAll_splitAll]

/-- A step adds at most the segment and its slash, and may take some away. -/
theorem extent_resolveStep_le (resolved : List (List Char)) (segment : List Char) :
    extent (resolveStep true resolved segment) ≤ extent resolved + (segment.length + 1) := by
  unfold resolveStep
  split
  · exact Nat.le_add_right _ _
  · split
    · cases resolved with
      | nil => simp [extent]
      | cons last earlier =>
        dsimp only
        split <;> simp only [extent] <;> omega
    · rw [extent]
      omega

/-- Resolving segments makes them no longer. -/
theorem extent_foldl_resolveStep_le (segments resolved : List (List Char)) :
    extent (segments.foldl (resolveStep true) resolved) ≤ extent resolved + extent segments := by
  induction segments generalizing resolved with
  | nil => exact Nat.le_add_right _ _
  | cons s segments ih =>
    have hstep := extent_resolveStep_le resolved s
    have hrest := ih (resolveStep true resolved s)
    rw [List.foldl_cons, extent]
    omega

theorem isPrefix_rootOf (cs : List Char) : rootOf cs <+: cs := by
  rw [rootOf.eq_def]
  split <;> simp

/-- Normalizing an absolute path does not make it longer. -/
theorem length_normalize_le {path : String} (h : isAbsolute path = true) :
    (normalize path).toList.length ≤ path.toList.length := by
  obtain ⟨cs, hcs⟩ := isPrefix_rootOf path.toList
  have hroot := rootOf_of_isAbsolute h
  have hsegments : resolvedSegments path.toList =
      ((splitAll '/' cs).foldl (resolveStep true) []).reverse := by
    rw [resolvedSegments_of_isAbsolute h, ← hcs]
    rcases hroot with h | h <;> simp [h, splitAll_cons_self, resolveStep]
  -- The extent counts a slash for each segment, so no step makes it larger.
  have hextent : extent (resolvedSegments path.toList) ≤ cs.length + 1 := by
    have hle := extent_foldl_resolveStep_le (splitAll '/' cs) []
    rw [extent_splitAll] at hle
    simpa [hsegments, extent] using hle
  have hjoin : (joinAll ['/'] (resolvedSegments path.toList)).length ≤ cs.length := by
    by_cases hnil : resolvedSegments path.toList = []
    · simp [hnil, joinAll]
    · have := length_joinAll hnil
      omega
  have hlength := congrArg List.length hcs
  rw [List.length_append] at hlength
  rw [normalize]
  split
  · next hempty =>
    have hne : 0 < (rootOf path.toList).length := by
      rcases hroot with h | h <;> simp [h]
    show 1 ≤ _
    omega
  · rw [ofSegments, String.toList_ofList, List.length_append]
    omega

namespace Normal

variable {p q : Normal} {s : List Char} {hs : IsName s}

/-! ### Names in directories -/

/-- A name in a directory is joined to its path. -/
theorem join_text (p : Normal) {name : String} (hname : IsName name.toList) :
    join p.text name = (p.child name.toList hname).text := by
  rw [join, if_neg (not_isAbsolute hname.2.1), ← String.toList_inj, toList_text_child]
  by_cases h : p.segments = []
  · have hlast : p.text.toList.getLast? = some '/' := by
      rw [toList_text_of_root h, getLast?_root]
    simp [h, hlast]
  · obtain ⟨c, hlast, hc⟩ := getLast?_text_of_ne_root h
    simp [h, hlast, hc, p.text_ne_empty]

/-- What comes before the last slash of a path, without slashes at its end unless there is nothing
else. -/
theorem parent_append_slash {front : List Char} (hs : '/' ∉ s) :
    parent (String.ofList (front ++ '/' :: s)) =
      if front.all (· == '/') then String.ofList (front ++ ['/'])
      else String.ofList (front.reverse.dropWhile (· == '/')).reverse := by
  have hname : ∀ c ∈ s.reverse, (c != '/') = true := fun c hc ↦ by
    simpa using fun h : c = '/' ↦ hs (h ▸ List.mem_reverse.1 hc)
  have hhead : ((front ++ '/' :: s).reverse.dropWhile (· != '/')).reverse = front ++ ['/'] := by
    rw [List.reverse_append, List.reverse_cons, List.append_assoc, List.singleton_append,
      List.dropWhile_append_of_pos hname]
    simp
  rw [parent, String.toList_ofList]
  simp only [hhead]
  simp

/-- The directory of a path. -/
theorem parent_text (p : Normal) : parent p.text = p.up.text := by
  induction p using Normal.induction with
  | root p h =>
    have htext : p.text = String.ofList p.root := by
      rw [← p.toList_text_of_root h, String.ofList_toList]
    rw [up_eq_self_iff.2 h, htext]
    rcases p.root_eq with h | h <;> rw [h] <;> decide
  | child p s hs ih =>
    rw [up_child, ← (child p s hs).text.ofList_toList, toList_text_child]
    by_cases h : p.segments = []
    · have hroot : ∃ front, p.text.toList = front ++ ['/'] ∧ front.all (· == '/') = true := by
        rw [toList_text_of_root h]
        rcases p.root_eq with h | h
        · exact ⟨[], by simp [h], rfl⟩
        · exact ⟨['/'], by simp [h], rfl⟩
      obtain ⟨front, hfront, hall⟩ := hroot
      rw [if_pos h, hfront, List.append_assoc, List.singleton_append, parent_append_slash hs.2.1,
        if_pos hall, ← hfront, String.ofList_toList]
    · obtain ⟨c, hlast, hc⟩ := getLast?_text_of_ne_root h
      obtain ⟨front, hfront⟩ := List.getLast?_eq_some_iff.1 hlast
      have hkept : (p.text.toList.reverse.dropWhile (· == '/')).reverse = p.text.toList := by
        simp [hfront, hc]
      rw [if_neg h, parent_append_slash hs.2.1, if_neg (by simp [hfront, hc]), hkept,
        String.ofList_toList]

/-! ### The paths above -/

theorem ancestors_eq (p : Normal) :
    ancestors p.text =
      (waysUp p.segments.reverse).map fun way ↦ ofSegments p.root way.reverse := by
  rw [ancestors, segments_text, rootOf_text]

theorem ancestors_of_root (h : p.segments = []) : ancestors p.text = [p.text] := by
  rw [ancestors_eq, h]
  simp [waysUp, text, h]

/-- Above a name in a directory are the directory and what is above it. -/
theorem ancestors_child (p : Normal) (s : List Char) (hs : IsName s) :
    ancestors (p.child s hs).text = (p.child s hs).text :: ancestors p.text := by
  rw [ancestors_eq, ancestors_eq, child, List.reverse_append, List.reverse_singleton,
    List.singleton_append, waysUp, List.map_cons, List.reverse_cons, List.reverse_reverse]
  rfl

theorem exists_ancestors_eq_cons (p : Normal) :
    ∃ above, ancestors p.text = p.text :: above := by
  cases p using Normal.induction with
  | root p h => exact ⟨[], ancestors_of_root h⟩
  | child p s hs => exact ⟨_, ancestors_child p s hs⟩

/-- What is above a path is a normalized path that begins like it and is no longer. -/
theorem exists_of_mem_ancestors {d : String} (h : d ∈ ancestors p.text) :
    ∃ q : Normal, d = q.text ∧ q.segments.length ≤ p.segments.length ∧
      q.text.toList <+: p.text.toList := by
  induction p using Normal.induction with
  | root p hroot =>
    rw [ancestors_of_root hroot, List.mem_singleton] at h
    exact ⟨p, h, Nat.le_refl _, List.prefix_refl _⟩
  | child p s hs ih =>
    rw [ancestors_child, List.mem_cons] at h
    rcases h with rfl | h
    · exact ⟨_, rfl, Nat.le_refl _, List.prefix_refl _⟩
    · obtain ⟨q, rfl, hlength, hstart⟩ := ih h
      refine ⟨q, rfl, ?_, hstart.trans (prefix_text_child p s hs)⟩
      rw [length_segments_child]
      omega

/-- A name in a directory is not above the directory. -/
theorem text_child_not_mem_ancestors (p : Normal) (s : List Char) (hs : IsName s) :
    (p.child s hs).text ∉ ancestors p.text := by
  intro h
  obtain ⟨q, hq, hlength, -⟩ := exists_of_mem_ancestors h
  rw [← text_injective hq] at hlength
  rw [length_segments_child] at hlength
  omega

end Normal

end TypeLens.Path
