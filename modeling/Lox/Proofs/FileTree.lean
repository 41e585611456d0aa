import Lox.Proofs.Ending
import Lox.Proofs.SourcePath
import Lox.Storage.Tree

/-!
# Reading from a tree

A file that was put into a tree is read back by the path it was put at, and by every other path that
goes down to the same place (`read_insert`). All other files are read as before
(`read_insert_of_ne`), and below a file nothing is found (`GoesDown.read_below`). So a tree that is
made of files none of which lies below another gives each of them back (`read_ofFiles`), and a run
on the path of one works on its text (`isSource_ofFiles`).
-/

set_option autoImplicit false

namespace Lox

namespace FileTree

variable {t : FileTree} {path other : String} {place : List FileName} {entry : FileEntry}
  {content : List UInt8}

/-! ## Entries -/

/-- A new entry is found at its place, and makes directories of the places that lead to it. -/
theorem entryAt?_insert (t : FileTree) (path : String) (entry : FileEntry)
    (place : List FileName) :
    (t.insert path entry).entryAt? place =
      if placeOf path = place then some entry
      else (t.entryAt? place).or (if place <:+ placeOf path then some .directory else none) := by
  by_cases hplace : placeOf path = place
  · simp [entryAt?, insert, hplace]
  · rw [if_neg hplace]
    simp only [entryAt?, insert, List.find?_cons, beq_eq_false_iff_ne.2 hplace, List.any_cons]
    cases t.entries.find? fun e => e.1 == place with
    | some e => rfl
    | none =>
      by_cases hsuffix : place <:+ placeOf path
      · have hflag := List.isSuffixOf_iff_suffix.2 hsuffix
        simp only [hflag, Bool.true_or, Bool.or_true, if_true, if_pos hsuffix]
        split <;> rfl
      · have hflag := Bool.eq_false_iff.2 (mt List.isSuffixOf_iff_suffix.1 hsuffix)
        simp only [hflag, Bool.false_or, if_neg hsuffix, Option.or_none]

/-- What is at a place stays there, unless the new entry takes its place. -/
theorem entryAt?_insert_of_ne (hne : placeOf path ≠ place) {old : FileEntry}
    (h : t.entryAt? place = some old) : (t.insert path entry).entryAt? place = some old := by
  rw [entryAt?_insert, if_neg hne, h]
  rfl

/-- A file stands at a place, and directories at the places that lead to it. -/
structure HasFile (t : FileTree) (place : List FileName) (content : List UInt8) : Prop where
  file : t.entryAt? place = some (.file content)
  directories : ∀ above, above <:+ place → above ≠ place → t.entryAt? above = some .directory

/-- No file stands where a path goes on. -/
def HasRoom (t : FileTree) (path : String) : Prop :=
  ∀ above, above <:+ placeOf path → above ≠ placeOf path →
    ∀ content, t.entryAt? above ≠ some (.file content)

theorem HasRoom.hasFile_insert (room : t.HasRoom path) (content : List UInt8) :
    (t.insert path (.file content)).HasFile (placeOf path) content where
  file := by rw [entryAt?_insert, if_pos rfl]
  directories above hsuffix hne := by
    rw [entryAt?_insert, if_neg hne.symm, if_pos hsuffix]
    cases hold : t.entryAt? above with
    | none => rfl
    | some old =>
      cases old with
      | file content => exact absurd hold (room above hsuffix hne content)
      | directory => rfl

theorem HasFile.insert (h : t.HasFile place content) (hbeside : ¬ placeOf path <:+ place) :
    (t.insert path entry).HasFile place content where
  file := by
    refine entryAt?_insert_of_ne ?_ h.file
    rintro rfl
    exact hbeside (List.suffix_refl _)
  directories above hsuffix hne := by
    refine entryAt?_insert_of_ne ?_ (h.directories above hsuffix hne)
    rintro rfl
    exact hbeside hsuffix

/-! ## Steps -/

/-- What a step inside a tree can do: stay, go up, or go down to what is there. -/
theorem step_inside_eq_ok_iff {name : FileName} {there : Arrival} :
    t.step (.inside place) name = .ok there ↔
      t.entryAt? place = some .directory ∧
        (isComponent name = false ∧ there = .inside place ∨
          name = ['.', '.'] ∧ there = (if place.isEmpty then .outside else .inside place.tail) ∨
          isComponent name = true ∧ name ≠ ['.', '.'] ∧ utf8Length name ≤ maxNameLength ∧
            (t.entryAt? (name :: place)).isSome ∧ there = .inside (name :: place)) := by
  constructor
  · intro h
    rw [step] at h
    split at h
    next => contradiction
    next hhere =>
      refine ⟨Decidable.not_not.1 hhere, ?_⟩
      split at h
      next hidle => exact .inl ⟨by simpa using hidle, (Except.ok.inj h).symm⟩
      next hcounts =>
        split at h
        next hup => exact .inr (.inl ⟨by simpa using hup, (Except.ok.inj h).symm⟩)
        next hup =>
          split at h
          next => contradiction
          next hshort =>
            split at h
            next hthere =>
              exact .inr (.inr ⟨by simpa using hcounts, by simpa using hup, Nat.le_of_not_lt hshort,
                hthere, (Except.ok.inj h).symm⟩)
            next => contradiction
  · rintro ⟨hhere, ⟨hidle, rfl⟩ | ⟨rfl, rfl⟩ | ⟨hcounts, hup, hshort, hthere, rfl⟩⟩
    · simp [step, hhere, hidle]
    · have hcounts : isComponent ['.', '.'] = true := by decide
      simp [step, hhere, hcounts]
    · simp [step, hhere, hcounts, hup, Nat.not_lt.2 hshort, hthere]

theorem step_of_file (hhere : t.entryAt? place = some (.file content)) (name : FileName) :
    t.step (.inside place) name = .error .notADirectory := by
  simp [step, hhere]

/-- A step that can be made can be made in a tree with one more entry, unless that stands where a
directory was. -/
theorem step_insert {here there : Arrival} {name : FileName}
    (hold : t.entryAt? (placeOf path) ≠ some .directory) (entry : FileEntry)
    (h : t.step here name = .ok there) : (t.insert path entry).step here name = .ok there := by
  cases here with
  | outside => exact h
  | inside place =>
    rw [step_inside_eq_ok_iff] at h ⊢
    obtain ⟨hhere, h⟩ := h
    have hne : placeOf path ≠ place := by
      rintro rfl
      exact hold hhere
    refine ⟨entryAt?_insert_of_ne hne hhere, ?_⟩
    rcases h with hidle | hup | ⟨hcounts, hup, hshort, hthere, heq⟩
    · exact .inl hidle
    · exact .inr (.inl hup)
    · refine .inr (.inr ⟨hcounts, hup, hshort, ?_, heq⟩)
      rw [entryAt?_insert]
      split
      · rfl
      · simp [hthere]

/-! ## Following names -/

theorem follow_append {here there : Arrival} {names : List FileName}
    (h : t.follow here names = .ok there) (later : List FileName) :
    t.follow here (names ++ later) = t.follow there later := by
  induction names generalizing here with
  | nil =>
    cases h
    rfl
  | cons name names ih =>
    rw [follow] at h
    rw [List.cons_append, follow]
    split at h
    next hstep => exact ih h
    next => contradiction

theorem follow_insert {here there : Arrival} {names : List FileName}
    (hold : t.entryAt? (placeOf path) ≠ some .directory) (entry : FileEntry)
    (h : t.follow here names = .ok there) :
    (t.insert path entry).follow here names = .ok there := by
  induction names generalizing here with
  | nil => exact h
  | cons name names ih =>
    rw [follow] at h ⊢
    split at h
    next hstep =>
      rw [step_insert hold entry hstep]
      exact ih h
    next => contradiction

/-- Names none of which leads up can be followed through directories. -/
theorem follow_directories {names : List FileName}
    (hnames : ∀ name ∈ names, name ≠ ['.', '.'] ∧ utf8Length name ≤ maxNameLength)
    (hdirectories : ∀ front, front <+: names →
      t.entryAt? ((front.filter isComponent).reverse ++ place) = some .directory) :
    t.follow (.inside place) names
      = .ok (.inside ((names.filter isComponent).reverse ++ place)) := by
  induction names generalizing place with
  | nil => rfl
  | cons name names ih =>
    obtain ⟨⟨hup, hshort⟩, hnames⟩ := List.forall_mem_cons.1 hnames
    have hhere : t.entryAt? place = some .directory := hdirectories [] List.nil_prefix
    have hlater : ∀ front, front <+: names →
        t.entryAt? (((name :: front).filter isComponent).reverse ++ place) = some .directory :=
      fun front hfront => hdirectories (name :: front) ((List.prefix_cons_inj name).2 hfront)
    cases hcounts : isComponent name with
    | false =>
      have hskip : ∀ names, (name :: names).filter isComponent = names.filter isComponent :=
        fun _ => List.filter_cons_of_neg (by simp [hcounts])
      have hstep : t.step (.inside place) name = .ok (.inside place) :=
        step_inside_eq_ok_iff.2 ⟨hhere, .inl ⟨hcounts, rfl⟩⟩
      simp only [hskip] at hlater ⊢
      rw [follow, hstep]
      exact ih hnames hlater
    | true =>
      have hkeep : ∀ names, ((name :: names).filter isComponent).reverse ++ place
          = (names.filter isComponent).reverse ++ name :: place := by
        simp [hcounts]
      simp only [hkeep] at hlater ⊢
      have hthere : (t.entryAt? (name :: place)).isSome :=
        Option.isSome_of_eq_some (hlater [] List.nil_prefix)
      have hstep : t.step (.inside place) name = .ok (.inside (name :: place)) :=
        step_inside_eq_ok_iff.2 ⟨hhere, .inr (.inr ⟨hcounts, hup, hshort, hthere, rfl⟩)⟩
      rw [follow, hstep]
      exact ih hnames hlater

/-! ## Paths -/

/-- A path that goes down from the root of a tree, to a name at its end. -/
structure GoesDown (path : String) : Prop where
  noNul : '\x00' ∉ path.toList
  relative : path.toList.head? ≠ some '/'
  short : utf8Length path.toList ≤ maxPathLength
  names : ∀ name ∈ path.toList.splitOn '/', name ≠ ['.', '.'] ∧ utf8Length name ≤ maxNameLength
  named : ∃ name ∈ (path.toList.splitOn '/').getLast?, isComponent name = true

instance (path : String) : Decidable (GoesDown path) :=
  decidable_of_iff
    ('\x00' ∉ path.toList ∧ path.toList.head? ≠ some '/' ∧
      utf8Length path.toList ≤ maxPathLength ∧
      (∀ name ∈ path.toList.splitOn '/', name ≠ ['.', '.'] ∧ utf8Length name ≤ maxNameLength) ∧
      ∃ name ∈ (path.toList.splitOn '/').getLast?, isComponent name = true)
    ⟨fun ⟨noNul, relative, short, names, named⟩ => ⟨noNul, relative, short, names, named⟩,
      fun down => ⟨down.noNul, down.relative, down.short, down.names, down.named⟩⟩

example : GoesDown "./a.lox//b.lox" ∧ ¬ GoesDown "/a.lox" ∧ ¬ GoesDown "a/../b.lox" ∧
    ¬ GoesDown "a.lox/." := by decide +kernel

theorem GoesDown.toList_ne_nil (down : GoesDown path) : path.toList ≠ [] := by
  obtain ⟨name, hlast, hcounts⟩ := down.named
  intro hnil
  rw [hnil, List.splitOn_nil] at hlast
  obtain rfl := Option.some.inj hlast
  exact absurd hcounts (by decide)

/-- A path that goes down to a file leads to it. -/
theorem GoesDown.follow_eq (down : GoesDown path) (h : t.HasFile (placeOf path) content) :
    t.follow (.inside []) (path.toList.splitOn '/') = .ok (.inside (placeOf path)) := by
  obtain ⟨name, hlast, hcounts⟩ := down.named
  obtain ⟨front, hsplit⟩ := List.getLast?_eq_some_iff.1 hlast
  have hplace : placeOf path = name :: (front.filter isComponent).reverse := by
    rw [placeOf, pathComponents, hsplit, List.filter_append]
    simp [hcounts]
  have hnames := down.names
  rw [hsplit] at hnames ⊢
  obtain ⟨hfront, hname⟩ := List.forall_mem_append.1 hnames
  obtain ⟨hup, hshort⟩ := hname name (List.mem_singleton_self name)
  -- the names before the last one lead through the directories above the file
  have hdirectories : ∀ names, names <+: front →
      t.entryAt? ((names.filter isComponent).reverse ++ []) = some .directory := by
    intro names hstart
    have hsuffix : (names.filter isComponent).reverse <:+ (front.filter isComponent).reverse :=
      List.reverse_suffix.2 (hstart.filter isComponent)
    rw [List.append_nil]
    refine h.directories _ ?_ ?_
    · rw [hplace]
      exact hsuffix.trans (List.suffix_cons name _)
    · intro heq
      have hlength := hsuffix.length_le
      rw [heq, hplace, List.length_cons] at hlength
      omega
  have hfollow := follow_directories hfront hdirectories
  have hhere := hdirectories front (List.prefix_refl front)
  rw [List.append_nil] at hfollow hhere
  have hthere := Option.isSome_of_eq_some h.file
  rw [hplace] at hthere ⊢
  have hstep : t.step (.inside (front.filter isComponent).reverse) name
      = .ok (.inside (name :: (front.filter isComponent).reverse)) :=
    step_inside_eq_ok_iff.2 ⟨hhere, .inr (.inr ⟨hcounts, hup, hshort, hthere, rfl⟩)⟩
  rw [follow_append hfollow, follow, hstep]
  rfl

theorem locate_eq_follow (noNul : '\x00' ∉ path.toList) (nonempty : path.toList ≠ [])
    (short : utf8Length path.toList ≤ maxPathLength) (relative : path.toList.head? ≠ some '/') :
    t.locate path = t.follow (.inside []) (path.toList.splitOn '/') := by
  simp [locate, noNul, nonempty, Nat.not_lt.2 short, relative]

/-- Where a path leads, it leads in a tree with one more entry. -/
theorem locate_insert {there : Arrival} (hold : t.entryAt? (placeOf path) ≠ some .directory)
    (entry : FileEntry) (h : t.locate other = .ok there) :
    (t.insert path entry).locate other = .ok there := by
  simp only [locate] at h ⊢
  split at h
  next => contradiction
  next hnul =>
    rw [if_neg hnul]
    split at h
    next => contradiction
    next hempty =>
      rw [if_neg hempty]
      split at h
      next => contradiction
      next hshort =>
        rw [if_neg hshort]
        exact follow_insert hold entry h

/-! ## Reading -/

theorem read_eq_ok_iff : t.read path = .ok content ↔
    ∃ place, t.locate path = .ok (.inside place) ∧ t.entryAt? place = some (.file content) := by
  unfold read
  constructor
  · intro h
    split at h
    next => contradiction
    next => contradiction
    next place hlocate =>
      refine ⟨place, hlocate, ?_⟩
      split at h
      next hentry =>
        cases h
        exact hentry
      next => contradiction
      next => contradiction
  · rintro ⟨place, hlocate, hentry⟩
    simp only [hlocate, hentry]

theorem GoesDown.read_eq (down : GoesDown path) (h : t.HasFile (placeOf path) content) :
    t.read path = .ok content := by
  rw [read_eq_ok_iff]
  refine ⟨placeOf path, ?_, h.file⟩
  rw [locate_eq_follow down.noNul down.toList_ne_nil down.short down.relative]
  exact down.follow_eq h

/-- Below a file nothing is found, whatever is asked for there. -/
theorem GoesDown.read_below (down : GoesDown path) (h : t.HasFile (placeOf path) content)
    {rest : String} (noNul : '\x00' ∉ rest.toList)
    (short : utf8Length (path ++ "/" ++ rest).toList ≤ maxPathLength) :
    t.read (path ++ "/" ++ rest) = .error .notADirectory := by
  have htext : (path ++ "/" ++ rest).toList = path.toList ++ '/' :: rest.toList := by simp
  have hsplit : (path ++ "/" ++ rest).toList.splitOn '/'
      = path.toList.splitOn '/' ++ rest.toList.splitOn '/' := by
    rw [htext]
    exact List.splitOnP_append_cons path.toList rest.toList rfl
  have hnul : '\x00' ∉ (path ++ "/" ++ rest).toList := by
    rw [htext]
    simp [down.noNul, noNul]
  have hrelative : (path ++ "/" ++ rest).toList.head? ≠ some '/' := by
    rw [htext, List.head?_append_of_ne_nil _ down.toList_ne_nil]
    exact down.relative
  have hlocate : t.locate (path ++ "/" ++ rest) = .error .notADirectory := by
    rw [locate_eq_follow hnul (by simp [htext]) short hrelative, hsplit,
      follow_append (down.follow_eq h)]
    cases hrest : rest.toList.splitOn '/' with
    | nil => exact absurd hrest (List.splitOn_ne_nil _ _)
    | cons name names => rw [follow, step_of_file h.file]
  unfold read
  rw [hlocate]

/-- **What is inserted can be read**, by every path that goes down to its place. -/
theorem read_insert (down : GoesDown other) (same : placeOf other = placeOf path)
    (room : t.HasRoom path) : (t.insert path (.file content)).read other = .ok content := by
  refine down.read_eq ?_
  rw [same]
  exact room.hasFile_insert content

/-- What could be read before can be read afterwards, unless it lay where the new entry is, or below
a directory that the new entry took the place of. -/
theorem read_insert_of_ne (hold : t.entryAt? (placeOf path) ≠ some .directory)
    (elsewhere : t.locate other ≠ .ok (.inside (placeOf path)))
    (h : t.read other = .ok content) : (t.insert path entry).read other = .ok content := by
  obtain ⟨place, hlocate, hentry⟩ := read_eq_ok_iff.1 h
  have hne : placeOf path ≠ place := by
    rintro rfl
    exact elsewhere hlocate
  exact read_eq_ok_iff.2
    ⟨place, locate_insert hold entry hlocate, entryAt?_insert_of_ne hne hentry⟩

/-! ## Trees of files -/

/-- The tree of some files, each given with its path. -/
def ofFiles (files : List (String × List UInt8)) : FileTree :=
  files.foldl (fun t f => t.insert f.1 (.file f.2)) .empty

/-- Neither of two paths lies below the other. -/
def Apart (path other : String) : Prop :=
  ¬ placeOf path <:+ placeOf other ∧ ¬ placeOf other <:+ placeOf path

instance (path other : String) : Decidable (Apart path other) :=
  inferInstanceAs (Decidable (_ ∧ _))

example : Apart "a.lox/b.lox" "a.lox/c" ∧ ¬ Apart "a.lox" "./a.lox/b" := by decide +kernel

section

variable {files : List (String × List UInt8)}

theorem ofFiles_concat (files : List (String × List UInt8)) (f : String × List UInt8) :
    ofFiles (files ++ [f]) = (ofFiles files).insert f.1 (.file f.2) := by
  simp [ofFiles]

theorem exists_of_entryAt?_ofFiles (h : (ofFiles files).entryAt? place = some (.file content)) :
    ∃ f ∈ files, placeOf f.1 = place := by
  induction files using List.reverseRecOn with
  | nil => simp [ofFiles, entryAt?, empty] at h
  | append_singleton files g ih =>
    rw [ofFiles_concat, entryAt?_insert] at h
    split at h
    next hplace => exact ⟨g, by simp, hplace⟩
    next =>
      have hold : (ofFiles files).entryAt? place = some (.file content) := by
        rcases Option.or_eq_some_iff.1 h with hold | ⟨-, hnew⟩
        · exact hold
        · split at hnew <;> cases hnew
      obtain ⟨f, hf, hplace⟩ := ih hold
      exact ⟨f, List.mem_append_left _ hf, hplace⟩

/-- Files of which none lies below another all are in their tree. -/
theorem hasFile_ofFiles (apart : files.Pairwise fun f g => Apart f.1 g.1)
    {f : String × List UInt8} (hf : f ∈ files) : (ofFiles files).HasFile (placeOf f.1) f.2 := by
  induction files using List.reverseRecOn with
  | nil => exact absurd hf List.not_mem_nil
  | append_singleton files g ih =>
    obtain ⟨hfiles, -, hlast⟩ := List.pairwise_append.1 apart
    have hapart : ∀ f ∈ files, Apart f.1 g.1 := fun f hf => hlast f hf g (List.mem_singleton_self g)
    rw [ofFiles_concat]
    rcases List.mem_append.1 hf with hf | hf
    · exact (ih hfiles hf).insert (hapart f hf).2
    · obtain rfl := List.mem_singleton.1 hf
      -- a file above the last one would be one of the files before it
      have room : (ofFiles files).HasRoom f.1 := by
        intro above hsuffix _ content habove
        obtain ⟨g, hg, rfl⟩ := exists_of_entryAt?_ofFiles habove
        exact (hapart g hg).1 hsuffix
      exact room.hasFile_insert f.2

/-- **A tree gives its files back.** -/
theorem read_ofFiles (apart : files.Pairwise fun f g => Apart f.1 g.1)
    (hfile : (path, content) ∈ files) (down : GoesDown other)
    (same : placeOf other = placeOf path) : (ofFiles files).read other = .ok content := by
  refine down.read_eq ?_
  rw [same]
  exact hasFile_ofFiles apart hfile

end

end FileTree

/-! ## Runs -/

section

variable {files : List (String × List UInt8)} {input : Prompt.Input} {action : Action}
  {path other source : String}

/-- A run on the path of a source in a tree, however it is written, works on that source. -/
theorem isSource_ofFiles (apart : files.Pairwise fun f g => FileTree.Apart f.1 g.1)
    (hfile : (path, encodeUtf8 source) ∈ files) (gate : isSourcePath path = true)
    (down : FileTree.GoesDown other) (same : FileTree.placeOf other = FileTree.placeOf path) :
    IsSource (FileTree.ofFiles files).read input [other] source := by
  have hcomponents : pathComponents other.toList = pathComponents path.toList :=
    List.reverse_injective same
  have hgate : isSourcePath other = true := by
    rw [isSourcePath_congr (congrArg List.getLast? hcomponents), gate]
  have hread := FileTree.read_ofFiles apart hfile down same
  exact .file hgate hread (decodeUtf8?_eq_some_iff.2 rfl)

/-- A slash behind the path of a source passes the gate, but nothing is found behind it. -/
theorem run_ofFiles_slash {content : List UInt8}
    (apart : files.Pairwise fun f g => FileTree.Apart f.1 g.1) (hfile : (path, content) ∈ files)
    (gate : isSourcePath path = true) (down : FileTree.GoesDown path)
    (short : utf8Length (path ++ "/").toList ≤ FileTree.maxPathLength) :
    quietRun (FileTree.ofFiles files).read input action [path ++ "/"]
      = ⟨66, "", "", "Error reading " ++ (path ++ "/") ++ ": " ++ "Not a directory (os error 20)"
          ++ "\n"⟩ := by
  have hgate : isSourcePath (path ++ "/") = true := by rw [isSourcePath_append_slash, gate]
  have hread : (FileTree.ofFiles files).read (path ++ "/") = .error .notADirectory := by
    have htext : path ++ "/" ++ "" = path ++ "/" := String.append_empty
    rw [← htext] at short ⊢
    exact down.read_below (FileTree.hasFile_ofFiles apart hfile) (by simp) short
  exact run_eq_of_unreadable hgate (.noBytes hread)

/-- Two files in a directory that is called like a source, one of them by another of its paths. -/
example :
    quietRun (FileTree.ofFiles [("a.lox/b.lox", encodeUtf8 "1"), ("a.lox/c", [])]).read .empty
      .check ["./a.lox//b.lox"] = ⟨0, "", "", "OK: ./a.lox//b.lox\n"⟩ := by
  decide +kernel

end

end Lox
