import Lox.Command.Run
import Mathlib.Data.List.DropRight

/-!
# The gate for paths, read from the end

The gate goes by the components of a path. The same is said without components: take slashes, and
single points behind a slash, off the end of the text for as long as there are any; then what stands
behind the last slash must be a stem and the extension (`isSourcePath_eq`). Only the last component
has a say, so what is added to a path in front of it or behind it, without adding a component there,
changes nothing. A path that is refused is never read (`paths_gated`).
-/

set_option autoImplicit false

namespace Lox

/-! ## Paths as texts -/

/-- Takes slashes, and points in front of a slash, off the beginning of a text for as long as there
are any. -/
def dropIdle : List Char → List Char
  | '/' :: s => dropIdle s
  | '.' :: '/' :: s => dropIdle s
  | s => s

/-- What is left of a path without the slashes, and the single points behind a slash, at its end. -/
def trimmedPath (path : List Char) : List Char :=
  (dropIdle path.reverse).reverse

/-- What stands behind the last slash of a text; without a slash it is the whole text. -/
def behindLastSlash (s : List Char) : List Char :=
  s.rtakeWhile (· ≠ '/')

theorem slash_notMem_behindLastSlash (s : List Char) : '/' ∉ behindLastSlash s := by
  intro hslash
  have hne := List.mem_rtakeWhile_imp hslash
  contradiction

/-- In front of what stands behind the last slash there is that slash, or nothing. -/
theorem eq_behindLastSlash_or (s : List Char) :
    s = behindLastSlash s ∨ ∃ front, s = front ++ '/' :: behindLastSlash s := by
  have hparts : s.rdropWhile (· ≠ '/') ++ behindLastSlash s = s :=
    List.rdropWhile_append_rtakeWhile
  have hstop := List.rdropWhile_last_not (· ≠ '/') s
  rcases List.eq_nil_or_concat' (s.rdropWhile (· ≠ '/')) with hnil | ⟨front, c, hfront⟩
  · rw [hnil, List.nil_append] at hparts
    exact .inl hparts.symm
  · simp only [hfront, List.getLast_concat] at hstop
    have hc : c = '/' := by simpa using hstop (by simp)
    rw [hfront, hc, List.append_assoc] at hparts
    exact .inr ⟨front, hparts.symm⟩

/-- Nothing is left to be taken off. -/
theorem dropIdle_ne (s : List Char) :
    (∀ t, dropIdle s ≠ '/' :: t) ∧ ∀ t, dropIdle s ≠ '.' :: '/' :: t := by
  induction s using dropIdle.induct with
  | case1 s ih => exact ih
  | case2 s ih => exact ih
  | case3 s hslash hpoint =>
    rw [dropIdle.eq_3 s hslash hpoint]
    exact ⟨hslash, hpoint⟩

theorem trimmedPath_ne (path front : List Char) :
    trimmedPath path ≠ front ++ ['/'] ∧ trimmedPath path ≠ front ++ ['/', '.'] := by
  obtain ⟨hslash, hpoint⟩ := dropIdle_ne path.reverse
  constructor
  · intro heq
    refine hslash front.reverse ?_
    simpa [trimmedPath] using congrArg List.reverse heq
  · intro heq
    refine hpoint front.reverse ?_
    simpa [trimmedPath] using congrArg List.reverse heq

/-! ## Components -/

theorem pathComponents_slash (front back : List Char) :
    pathComponents (front ++ '/' :: back) = pathComponents front ++ pathComponents back := by
  unfold pathComponents List.splitOn
  rw [List.splitOnP_append_cons front back rfl, List.filter_append]

theorem pathComponents_nil : pathComponents [] = [] := rfl

theorem pathComponents_point : pathComponents ['.'] = [] := rfl

/-- A text without a slash is one component, unless it is empty or a single point. -/
theorem pathComponents_name {name : List Char} (hslash : '/' ∉ name) (hne : name ≠ [])
    (hpoint : name ≠ ['.']) : pathComponents name = [name] := by
  rw [pathComponents, List.splitOn_eq_singleton hslash]
  simp [isComponent, hne, hpoint]

/-- What is taken off the end of a path is no component. -/
theorem pathComponents_trimmedPath (path : List Char) :
    pathComponents (trimmedPath path) = pathComponents path := by
  have hreverse : ∀ s, pathComponents (dropIdle s).reverse = pathComponents s.reverse := by
    intro s
    induction s using dropIdle.induct with
    | case1 s ih =>
      rw [dropIdle, ih, List.reverse_cons, pathComponents_slash, pathComponents_nil,
        List.append_nil]
    | case2 s ih =>
      have hpoint : ('.' :: '/' :: s).reverse = s.reverse ++ '/' :: ['.'] := by simp
      rw [dropIdle, ih, hpoint, pathComponents_slash, pathComponents_point, List.append_nil]
    | case3 s hslash hpoint => rw [dropIdle.eq_3 s hslash hpoint]
  rw [trimmedPath, hreverse, List.reverse_reverse]

/-! ## The gate -/

theorem isSourceName_iff {name : List Char} :
    isSourceName name = true ↔ ∃ stem, stem ≠ [] ∧ name = stem ++ ".lox".toList := by
  rw [isSourceName, Bool.and_eq_true, List.isSuffixOf_iff_suffix, decide_eq_true_eq]
  constructor
  · rintro ⟨⟨stem, rfl⟩, hlen⟩
    refine ⟨stem, ?_, rfl⟩
    rintro rfl
    exact absurd hlen (Nat.lt_irrefl _)
  · rintro ⟨stem, hne, rfl⟩
    refine ⟨List.suffix_append _ _, ?_⟩
    have hpos := List.length_pos_of_ne_nil hne
    rw [List.length_append]
    exact Nat.lt_add_of_pos_left hpos

/-- Of the components of a path, only the last one has a say. -/
theorem isSourcePath_congr {path path' : String}
    (h : (pathComponents path.toList).getLast? = (pathComponents path'.toList).getLast?) :
    isSourcePath path = isSourcePath path' := by
  unfold isSourcePath
  rw [h]

theorem isSourcePath_of_getLast? {path : String} {name : List Char}
    (h : (pathComponents path.toList).getLast? = some name) :
    isSourcePath path = isSourceName name := by
  unfold isSourcePath
  rw [h]

theorem isSourcePath_of_eq_nil {path : String} (h : pathComponents path.toList = []) :
    isSourcePath path = false := by
  unfold isSourcePath
  rw [h]
  rfl

/-- **The gate, read from the end of a path.** -/
theorem isSourcePath_eq (path : String) :
    isSourcePath path = isSourceName (behindLastSlash (trimmedPath path.toList)) := by
  have htrimmed := pathComponents_trimmedPath path.toList
  obtain ⟨hslash, hpoint⟩ := forall_and.1 (trimmedPath_ne path.toList)
  generalize trimmedPath path.toList = rest at htrimmed hslash hpoint ⊢
  have hname := slash_notMem_behindLastSlash rest
  rcases eq_behindLastSlash_or rest with hwhole | ⟨front, hfront⟩
  · -- a text without a slash can be empty, or a single point, and then it is refused
    generalize behindLastSlash rest = name at hname hwhole ⊢
    subst hwhole
    by_cases hnil : rest = []
    · rw [isSourcePath_of_eq_nil (by rw [← htrimmed, hnil, pathComponents_nil]), hnil]
      rfl
    by_cases hsingle : rest = ['.']
    · rw [isSourcePath_of_eq_nil (by rw [← htrimmed, hsingle, pathComponents_point]), hsingle]
      rfl
    · refine isSourcePath_of_getLast? ?_
      rw [← htrimmed, pathComponents_name hname hnil hsingle, List.getLast?_singleton]
  · generalize behindLastSlash rest = name at hname hfront ⊢
    subst hfront
    have hnil : name ≠ [] := by
      rintro rfl
      exact hslash front rfl
    have hsingle : name ≠ ['.'] := by
      rintro rfl
      exact hpoint front rfl
    refine isSourcePath_of_getLast? ?_
    rw [← htrimmed, pathComponents_slash, pathComponents_name hname hnil hsingle,
      List.getLast?_concat]

/-! ### What changes nothing -/

theorem isSourcePath_append_slash (path : String) :
    isSourcePath (path ++ "/") = isSourcePath path := by
  have htext : (path ++ "/").toList = path.toList ++ '/' :: [] := by simp
  refine isSourcePath_congr ?_
  rw [htext, pathComponents_slash, pathComponents_nil, List.append_nil]

theorem isSourcePath_append_point (path : String) :
    isSourcePath (path ++ "/.") = isSourcePath path := by
  have htext : (path ++ "/.").toList = path.toList ++ '/' :: ['.'] := by simp
  refine isSourcePath_congr ?_
  rw [htext, pathComponents_slash, pathComponents_point, List.append_nil]

theorem isSourcePath_slash_slash (front back : String) :
    isSourcePath (front ++ "//" ++ back) = isSourcePath (front ++ "/" ++ back) := by
  have htwo : (front ++ "//" ++ back).toList
      = front.toList ++ '/' :: ([] ++ '/' :: back.toList) := by simp
  have hone : (front ++ "/" ++ back).toList = front.toList ++ '/' :: back.toList := by simp
  refine isSourcePath_congr ?_
  rw [htwo, hone, pathComponents_slash, pathComponents_slash, pathComponents_slash,
    pathComponents_nil, List.nil_append]

/-- What stands in front of a path does not take its last component away. -/
theorem isSourcePath_behind_directory {path : String} (h : isSourcePath path = true)
    (directory : String) : isSourcePath (directory ++ "/" ++ path) = true := by
  have htext : (directory ++ "/" ++ path).toList = directory.toList ++ '/' :: path.toList := by
    simp
  have hne : pathComponents path.toList ≠ [] := by
    intro hnil
    rw [isSourcePath_of_eq_nil hnil] at h
    contradiction
  rw [← h]
  refine isSourcePath_congr ?_
  rw [htext, pathComponents_slash, List.getLast?_append_of_ne_nil _ hne]

/-! ### What is refused -/

/-- A name that is the extension and nothing else has no stem. -/
theorem isSourcePath_extension (directory : String) :
    isSourcePath ".lox" = false ∧ isSourcePath (directory ++ "/.lox") = false := by
  have htext : (directory ++ "/.lox").toList = directory.toList ++ '/' :: ".lox".toList := by simp
  have hname : pathComponents ".lox".toList = [".lox".toList] :=
    pathComponents_name (by decide) (by decide) (by decide)
  constructor
  · rw [isSourcePath_of_getLast? (by rw [hname, List.getLast?_singleton])]
    decide
  · rw [isSourcePath_of_getLast? (by
      rw [htext, pathComponents_slash, hname, List.getLast?_concat])]
    decide

/-- What is left of an accepted path ends as the extension does. -/
theorem getLast?_trimmedPath {path : String} (h : isSourcePath path = true) :
    (trimmedPath path.toList).getLast? = some 'x' := by
  rw [isSourcePath_eq, isSourceName_iff] at h
  obtain ⟨stem, -, hname⟩ := h
  have hname : ".lox".toList <:+ behindLastSlash (trimmedPath path.toList) :=
    hname ▸ List.suffix_append stem _
  obtain ⟨front, hfront⟩ := hname.trans (List.rtakeWhile_suffix _ _)
  rw [← hfront]
  simp

theorem isSourcePath_append_parent (path : String) : isSourcePath (path ++ "..") = false := by
  have htext : (path ++ "..").toList.reverse = '.' :: '.' :: path.toList.reverse := by simp
  have hkept : trimmedPath (path ++ "..").toList = path.toList ++ ['.', '.'] := by
    rw [trimmedPath, htext, dropIdle.eq_3 _ (by simp) (by simp)]
    simp
  rw [Bool.eq_false_iff]
  intro h
  have hlast := getLast?_trimmedPath h
  rw [hkept] at hlast
  simp at hlast

/-! ## Reading -/

theorem fileSource_eq_usage_iff (storage : Storage) (path : String) :
    fileSource storage path = .error .usage ↔ isSourcePath path = false := by
  unfold fileSource
  cases isSourcePath path with
  | false => simp
  | true =>
    rw [if_pos rfl]
    constructor
    · -- whatever comes of reading, it is not said to be misuse
      intro h
      split at h
      · cases h
      · split at h <;> cases h
    · intro h
      cases h

/-- A run with a path that is refused looks at no storage, and at nothing that is typed. -/
theorem run_of_not_isSourcePath {path : String} (h : isSourcePath path = false)
    (around : Surroundings) (verbose : Nat) (action : Action) :
    run (around.seen .nothing) ⟨verbose, action, [path]⟩
      = run around ⟨verbose, action, [path]⟩ := by
  have hneed : needOf [path] = .nothing := by simp [needOf_singleton, h]
  rw [← run_seen around, hneed]

/-- **Which paths are paths of sources.** Without the slashes and the single points at its end, such
a path has a stem, which is not empty, and the extension behind its last slash. More slashes, and
points behind them, change nothing, and neither does a directory in front of a path that is
accepted; a name without a stem and what ends in two points are refused. A path is refused with the
usage, whatever the storage holds, and then nothing is read: no storage is asked for a path that is
refused, no run needs a file at such a path, and a run that is given one does the same in
surroundings where nothing can be looked at. -/
theorem paths_gated (path : String) :
    (isSourcePath path = true ↔ ∃ stem, stem ≠ [] ∧
        behindLastSlash (trimmedPath path.toList) = stem ++ ".lox".toList) ∧
      isSourcePath (path ++ "/") = isSourcePath path ∧
      isSourcePath (path ++ "/.") = isSourcePath path ∧
      (∀ rest, isSourcePath (path ++ "//" ++ rest) = isSourcePath (path ++ "/" ++ rest)) ∧
      (isSourcePath path = true →
        ∀ directory, isSourcePath (directory ++ "/" ++ path) = true) ∧
      isSourcePath ".lox" = false ∧ isSourcePath (path ++ "/.lox") = false ∧
      isSourcePath (path ++ "..") = false ∧
      (∀ storage, fileSource storage path = .error .usage ↔ isSourcePath path = false) ∧
      (∀ storage storage' : Storage,
        (∀ other, isSourcePath other = true → storage other = storage' other) →
          fileSource storage path = fileSource storage' path) ∧
      (∀ paths, needOf paths = .file path ↔ paths = [path] ∧ isSourcePath path = true) ∧
      (isSourcePath path = false → ∀ around verbose action,
        run (around.seen .nothing) ⟨verbose, action, [path]⟩
          = run around ⟨verbose, action, [path]⟩) := by
  obtain ⟨hextension, hdirectory⟩ := isSourcePath_extension path
  refine ⟨?_, isSourcePath_append_slash path, isSourcePath_append_point path,
    isSourcePath_slash_slash path, isSourcePath_behind_directory, hextension, hdirectory,
    isSourcePath_append_parent path, fun storage => fileSource_eq_usage_iff storage path,
    fun _ _ hagree => fileSource_congr (hagree path), fun _ => needOf_eq_file_iff,
    run_of_not_isSourcePath⟩
  rw [isSourcePath_eq, isSourceName_iff]

/-- A storage that has something for each path that is refused, and nothing else. -/
def Storage.refusedOnly : Storage :=
  fun path => if isSourcePath path then .error .notFound else .ok []

/-- A hidden file whose stem is the extension, below a directory that is called like a source, from
another directory too, and the way back up from it. -/
theorem paths_gated_below_directory :
    isSourcePath "a.lox/./.lox.lox//./" = true ∧
      isSourcePath "/b/.//a.lox/./.lox.lox//./" = true ∧
      isSourcePath "a.lox/./.lox.lox//./.." = false ∧
      fileSource .refusedOnly "a.lox/./.lox.lox//./.." = .error .usage ∧
      fileSource .refusedOnly "a.lox/./.lox.lox//./.."
        = fileSource .empty "a.lox/./.lox.lox//./.." := by
  have haccepted : isSourcePath "a.lox/./.lox.lox//./" = true :=
    (paths_gated "a.lox/./.lox.lox//./").1.2 ⟨".lox".toList, by decide, by decide +kernel⟩
  obtain ⟨-, -, -, -, hdirectory, -, -, hparent, -⟩ := paths_gated "a.lox/./.lox.lox//./"
  obtain ⟨-, -, -, -, -, -, -, -, husage, hagree, -⟩ := paths_gated "a.lox/./.lox.lox//./.."
  have hsame : ∀ other, isSourcePath other = true →
      Storage.refusedOnly other = Storage.empty other := by
    intro other hother
    simp [Storage.refusedOnly, Storage.empty, hother]
  exact ⟨haccepted, hdirectory haccepted "/b/./", hparent, (husage _).2 hparent,
    hagree _ _ hsame⟩

end Lox
