import ServantGen.Proofs.Output.Writing

/-!
# Ways to files below a directory

The way to a directory that is there has nothing missing, so whatever is made for a file below it
stands between the directory and the file. Following a path asks for directories only, so what a
path leads to stays the same as long as no directory is gone. Main statement:
`FileSystem.LeadsTo.writesAt_write` says what writing below a directory does to every file and to
every directory.
-/

namespace ServantGen

/-! ## Directories on a way -/

namespace FileTree

variable {tree before middle after : FileTree} {start place next : TreePath}
variable {names : List String} {content : String}

/-- No directory is gone, and at most directories that lead from a place to the file with these
names below it were made. -/
structure OpensWay (place names : TreePath) (before after : FileTree) : Prop where
  kept : ∀ other, before.hasDirectory other = true → after.hasDirectory other = true
  made : ∀ other, after.hasDirectory other = true → before.hasDirectory other = true ∨
    ∃ way, way ≠ [] ∧ way <+: names.dropLast ∧ other = place ++ way

theorem OpensWay.refl (place names : TreePath) (tree : FileTree) : OpensWay place names tree tree :=
  ⟨fun _ h => h, fun _ h => .inl h⟩

theorem walk_append_eq_ok_iff {parts more : List String} :
    tree.walk start (parts ++ more) = .ok place ↔
      ∃ middle, tree.walk start parts = .ok middle ∧ tree.walk middle more = .ok place := by
  simp only [walk, List.foldlM_append]
  cases parts.foldlM tree.step start <;> simp [bind, Except.bind]

theorem walk_cons_eq_ok_iff {part : String} {rest : List String} :
    tree.walk start (part :: rest) = .ok place ↔
      ∃ next, tree.step start part = .ok next ∧ tree.walk next rest = .ok place := by
  simp only [walk, List.foldlM_cons]
  cases tree.step start part <;> simp [bind, Except.bind]

theorem hasDirectory_of_step {part : String} (h : tree.step place part = .ok next) :
    tree.hasDirectory place = true := by
  unfold step at h
  split at h
  · simp at h
  · simp at h
  · rename_i entries hplace
    exact hasDirectory_iff.2 ⟨entries, hplace⟩

/-- A walk to a directory starts from one. -/
theorem hasDirectory_of_walk {parts : List String} (h : tree.walk start parts = .ok place)
    (hplace : tree.hasDirectory place = true) : tree.hasDirectory start = true := by
  cases parts with
  | nil =>
    obtain rfl := Except.ok.inj h
    exact hplace
  | cons part rest =>
    obtain ⟨next, hstep, -⟩ := walk_cons_eq_ok_iff.1 h
    exact hasDirectory_of_step hstep

/-- A step goes on in a tree that has the directory, too. -/
theorem step_mono {part : String}
    (hkept : ∀ other, before.hasDirectory other = true → after.hasDirectory other = true)
    (h : before.step place part = .ok next) : after.step place part = .ok next := by
  have hplace := hasDirectory_of_step h
  obtain ⟨entries, hbefore⟩ := hasDirectory_iff.1 hplace
  obtain ⟨entries', hafter⟩ := hasDirectory_iff.1 (hkept place hplace)
  simpa only [step, hbefore, hafter] using h

/-- A walk goes on in a tree that has the directories, too. -/
theorem walk_mono {parts : List String}
    (hkept : ∀ other, before.hasDirectory other = true → after.hasDirectory other = true)
    (h : before.walk start parts = .ok place) : after.walk start parts = .ok place := by
  induction parts generalizing start with
  | nil => exact h
  | cons part rest ih =>
    obtain ⟨next, hstep, hrest⟩ := walk_cons_eq_ok_iff.1 h
    exact walk_cons_eq_ok_iff.2 ⟨next, step_mono hkept hstep, ih hrest⟩

/-- Nothing is made on the way to a directory. -/
theorem makeWay_append_of_walk {parts : List String} (h : tree.walk start parts = .ok place)
    (hplace : tree.hasDirectory place = true) (more : List String) :
    tree.makeWay start (parts ++ more) = tree.makeWay place more := by
  induction parts generalizing start with
  | nil =>
    obtain rfl := Except.ok.inj h
    rfl
  | cons part rest ih =>
    obtain ⟨next, hstep, hrest⟩ := walk_cons_eq_ok_iff.1 h
    obtain ⟨entries, hnext⟩ := hasDirectory_iff.1 (hasDirectory_of_walk hrest hplace)
    simp only [List.cons_append, makeWay, hstep, hnext]
    exact ih hrest

/-- What is put at a place that has nothing is one more directory. -/
theorem hasDirectory_put_empty (h : tree.hasDirectory place.dropLast = true)
    (hnone : tree.get? place = none) (other : TreePath) :
    (tree.put place empty).hasDirectory other = true ↔
      other = place ∨ tree.hasDirectory other = true := by
  rw [hasDirectory_put h]
  split
  · rename_i hbelow
    obtain ⟨more, rfl⟩ : place <+: other := by simpa using hbelow
    have hbefore : tree.get? (place ++ more) = none := by
      rw [get?_append, hnone, Option.bind_none]
    cases more <;> simp [hasDirectory, hbefore, empty, get?, isDirectory, Entries.get?]
  · rename_i hbelow
    have hne : other ≠ place := fun heq => hbelow (by simp [heq])
    simp [hne]

/-- A file that is put at a place that is no directory leaves the directories as they are. -/
theorem hasDirectory_put_file (h : tree.hasDirectory place.dropLast = true)
    (hfree : tree.hasDirectory place = false) (content : String) (other : TreePath) :
    (tree.put place (.file content)).hasDirectory other = tree.hasDirectory other := by
  rw [hasDirectory_put h]
  split
  · rename_i hbelow
    obtain ⟨more, rfl⟩ : place <+: other := by simpa using hbelow
    cases more with
    | nil => simpa [hasDirectory, isDirectory] using hfree
    | cons name more =>
      simp [hasDirectory, get?, get?_append_of_not_hasDirectory hfree]
  · rfl

/-- What leads to a file is a directory. -/
theorem hasDirectory_of_read?_append {more : TreePath} (hmore : more ≠ [])
    (h : tree.read? (place ++ more) = some content) : tree.hasDirectory place = true := by
  obtain ⟨name, rest, rfl⟩ := List.exists_cons_of_ne_nil hmore
  cases hplace : tree.hasDirectory place with
  | true => rfl
  | false => simp [read?_append_of_not_hasDirectory hplace] at h

/-- The way to a file that is there has nothing missing. -/
theorem OpensWay.hasDirectory_of_read? (h : OpensWay place names before after)
    (hold : before.read? (place ++ names) = some content) (other : TreePath)
    (hother : after.hasDirectory other = true) : before.hasDirectory other = true := by
  rcases h.made other hother with hbefore | ⟨way, hne, ⟨rest, hrest⟩, rfl⟩
  · exact hbefore
  · have hnames : names ≠ [] := by
      rintro rfl
      simp_all
    obtain ⟨lead, name, rfl⟩ := (List.eq_nil_or_concat names).resolve_left hnames
    obtain rfl : lead = way ++ rest := by simpa using hrest.symm
    have hbehind : place ++ (way ++ rest).concat name = (place ++ way) ++ (rest ++ [name]) := by
      simp
    exact hasDirectory_of_read?_append (by simp) (hbehind ▸ hold)

/-- Making a way behind a place makes directories of this way only. -/
theorem opensWay_makeWay {way : List String} (hway : ∀ name ∈ way, IsEntryName name)
    (hlead : way <+: names.dropLast) : OpensWay place names tree (tree.makeWay place way).2 := by
  -- The way that is made so far is kept as `done`, since every step starts from its end.
  suffices h : ∀ (tree : FileTree) (done way : List String), (∀ name ∈ way, IsEntryName name) →
      done ++ way <+: names.dropLast →
      OpensWay place names tree (tree.makeWay (place ++ done) way).2 by
    simpa using h tree [] way hway hlead
  intro tree done way
  induction way generalizing tree done with
  | nil => exact fun _ _ => .refl place names tree
  | cons name rest ih =>
    intro hway hlead
    obtain ⟨hname, hrest⟩ := List.forall_mem_cons.1 hway
    rw [makeWay]
    split
    · exact .refl place names tree
    · rename_i next hstep
      have hnext : next = place ++ (done ++ [name]) := by
        rw [eq_lead_of_step hstep]
        simp [lead, hname.1, hname.2]
      subst hnext
      have hlead' : (done ++ [name]) ++ rest <+: names.dropLast := by simpa using hlead
      split
      · exact ih tree _ hrest hlead'
      · exact .refl place names tree
      · rename_i hnone
        have hput := hasDirectory_put_empty (hasDirectory_dropLast_of_step hstep) hnone
        obtain ⟨hkept, hmade⟩ := ih (tree.put _ empty) _ hrest hlead'
        constructor
        · exact fun other h => hkept other ((hput other).2 (.inr h))
        · intro other h
          rcases hmade other h with h | h
          · rcases (hput other).1 h with rfl | h
            · exact .inr ⟨done ++ [name], by simp, (List.prefix_append _ rest).trans hlead', rfl⟩
            · exact .inl h
          · exact .inr h

end FileTree

/-! ## The way to a file below a directory -/

theorem tail_suffix_tail {α : Type} {part more : List α} (h : part <:+ more) :
    part.tail <:+ more.tail := by
  obtain ⟨lead, rfl⟩ := h
  cases lead with
  | nil => exact List.suffix_rfl
  | cons first lead => exact (List.tail_suffix part).trans (List.suffix_append lead part)

namespace WrittenPath

theorem trimmed_suffix (isAbsolute : Bool) (parts : List String) :
    trimmed isAbsolute parts <:+ parts := by
  fun_induction trimmed isAbsolute parts with
  | case1 => exact List.suffix_rfl
  | case2 => exact List.nil_suffix
  | case3 => exact List.suffix_rfl
  | case4 part rest _ _ ih => exact ih.trans (List.suffix_cons part rest)
  | case5 => exact List.suffix_rfl

/-- The parent is written with first parts of a path, at most all but the last one. -/
theorem parts_parent_prefix (path : WrittenPath) : path.parent.parts <+: path.parts.dropLast := by
  have htail := tail_suffix_tail (trimmed_suffix path.isAbsolute path.parts.reverse)
  have h := List.reverse_prefix.2 ((trimmed_suffix path.isAbsolute _).trans htail)
  rwa [List.tail_reverse, List.reverse_reverse] at h

end WrittenPath

namespace FileSystem

variable {system after : FileSystem} {base path : WrittenPath} {place : TreePath}
variable {names : List String} {content old : String}

/-- A path leads to a place, and a directory is there. -/
structure LeadsTo (system : FileSystem) (path : WrittenPath) (place : TreePath) : Prop where
  located : system.locate path = .ok place
  directory : system.root.hasDirectory place = true

theorem locate_eq_ok_iff : system.locate path = .ok place ↔
    path.fault? = none ∧ system.root.walk (system.start path) path.parts = .ok place := by
  unfold locate
  cases path.fault? <;> simp

/-- A path leads to the same place as long as the directories stay. -/
theorem locate_mono (hworking : after.working = system.working)
    (hkept : ∀ other, system.root.hasDirectory other = true → after.root.hasDirectory other = true)
    (h : system.locate path = .ok place) : after.locate path = .ok place := by
  obtain ⟨hfault, hwalk⟩ := locate_eq_ok_iff.1 h
  have hstart : after.start path = system.start path := by rw [start, start, hworking]
  exact locate_eq_ok_iff.2 ⟨hfault, hstart ▸ FileTree.walk_mono hkept hwalk⟩

/-- A joined path goes to the place of the first one and on from there. -/
theorem LeadsTo.exists_parts_join (h : system.LeadsTo base place) (names : List String) :
    ∃ trunk, (base.join names).parts = trunk ++ names ∧
      system.root.walk (system.start base) trunk = .ok place := by
  obtain ⟨-, hwalk⟩ := locate_eq_ok_iff.1 h.located
  unfold WrittenPath.join
  split
  · rename_i hnames
    exact ⟨base.parts, by simp_all, hwalk⟩
  · split
    · rename_i hlast
      obtain ⟨before, hbefore⟩ := List.getLast?_eq_some_iff.1 hlast
      rw [hbefore] at hwalk ⊢
      -- The empty part behind the last slash stays at the place.
      obtain ⟨middle, hmiddle, hidle⟩ := FileTree.walk_append_eq_ok_iff.1 hwalk
      obtain rfl : place = middle := by
        simpa [FileTree.lead, WrittenPath.isIdle] using FileTree.eq_foldl_lead_of_walk hidle
      exact ⟨before, by simp, hmiddle⟩
    · exact ⟨base.parts, rfl, hwalk⟩

/-- The directories that are made for a path are those on a way of first parts. -/
theorem exists_makeDirectory_eq (system : FileSystem) (path : WrittenPath) :
    ∃ way, way <+: path.parts ∧ (system.makeDirectory path).2 =
      { system with root := (system.root.makeWay (system.start path) way).2 } := by
  unfold makeDirectory
  split
  · exact ⟨[], List.nil_prefix, rfl⟩
  · split
    · exact ⟨[], List.nil_prefix, rfl⟩
    · split
      · refine ⟨path.parent.parts, path.parts_parent_prefix.trans path.parts.dropLast_prefix, ?_⟩
        split <;> rename_i hmade <;> exact congrArg Prod.snd hmade.symm
      · exact ⟨path.parts, List.prefix_rfl, rfl⟩

/-- For a file below a directory at most directories between the two are made. -/
theorem LeadsTo.opensWay_makeDirectory (h : system.LeadsTo base place)
    (hnames : ∀ name ∈ names, IsEntryName name) :
    (system.makeDirectory (base.join names).parent).2.working = system.working ∧
      FileTree.OpensWay place names system.root
        (system.makeDirectory (base.join names).parent).2.root := by
  obtain ⟨trunk, hparts, hwalk⟩ := h.exists_parts_join names
  obtain ⟨way, hway, hmade⟩ := system.exists_makeDirectory_eq (base.join names).parent
  have hstart : system.start (base.join names).parent = system.start base := by
    simp [start, WrittenPath.parent]
  rw [hmade, hstart]
  refine ⟨rfl, ?_⟩
  have hbelow : way <+: trunk ++ names.dropLast := by
    have hdropLast := hway.trans (WrittenPath.parts_parent_prefix _)
    rw [hparts, List.dropLast_append] at hdropLast
    split at hdropLast
    · exact (hdropLast.trans trunk.dropLast_prefix).trans (List.prefix_append trunk _)
    · exact hdropLast
  rcases List.prefix_or_prefix_of_prefix hbelow (List.prefix_append trunk _) with
    ⟨rest, rfl⟩ | ⟨more, rfl⟩
  · -- The way ends before the directory does.
    obtain ⟨middle, hmiddle, hrest⟩ := FileTree.walk_append_eq_ok_iff.1 hwalk
    have hdirectory := FileTree.hasDirectory_of_walk hrest h.directory
    have hnone := FileTree.makeWay_append_of_walk hmiddle hdirectory []
    rw [List.append_nil] at hnone
    rw [hnone]
    exact .refl place names system.root
  · have hmore := (List.prefix_append_right_inj trunk).1 hbelow
    rw [FileTree.makeWay_append_of_walk hwalk h.directory]
    refine FileTree.opensWay_makeWay (fun name hname => ?_) hmore
    exact hnames name ((hmore.trans names.dropLast_prefix).subset hname)

/-- Where a directory is, a file below it is written where its path leads, or nothing happens. -/
theorem LeadsTo.writeHere_join (h : system.LeadsTo base place)
    (hnames : ∀ name ∈ names, IsEntryName name) (content : String) :
    (∃ error, system.writeHere (base.join names) content = (some error, system)) ∨
    system.locate (base.join names) = .ok (place ++ names) ∧
      system.root.hasDirectory (place ++ names).dropLast = true ∧
      system.root.hasDirectory (place ++ names) = false ∧
      system.writeHere (base.join names) content =
        (none, { system with root := system.root.put (place ++ names) (.file content) }) := by
  unfold writeHere
  split
  · exact .inl ⟨_, rfl⟩
  · rename_i full hfull
    obtain rfl := eq_append_of_locate_join hnames rfl h.located hfull
    split
    · exact .inl ⟨_, rfl⟩
    · rename_i hfree
      refine .inr ⟨hfull, ?_, by simpa using hfree, rfl⟩
      have hne : names ≠ [] := by
        rintro rfl
        exact hfree (by simpa using h.directory)
      obtain ⟨trunk, hparts, -⟩ := h.exists_parts_join names
      exact FileTree.hasDirectory_dropLast_of_walk (by simp [hparts, hne])
        (locate_eq_ok_iff.1 hfull).2

/-- What writing a file below a directory does: the way to the file is opened, and unless an error
comes up, exactly this file gets the content. -/
structure WritesAt (place names : TreePath) (full : WrittenPath) (content : String)
    (system : FileSystem) (error : Option FileError) (after : FileSystem) : Prop where
  working : after.working = system.working
  directories : FileTree.OpensWay place names system.root after.root
  files : ∀ other, after.root.read? other =
    if error = none ∧ other = place ++ names then some content else system.root.read? other
  located : error = none → after.locate full = .ok (place ++ names)

theorem LeadsTo.writesAt_write (h : system.LeadsTo base place)
    (hnames : ∀ name ∈ names, IsEntryName name) (content : String) :
    WritesAt place names (base.join names) content system
      (system.write (base.join names) content).1 (system.write (base.join names) content).2 := by
  obtain ⟨hworking, hdirectories⟩ := h.opensWay_makeDirectory hnames
  have hfiles := system.read?_makeDirectory (base.join names).parent
  unfold write
  cases hmade : system.makeDirectory (base.join names).parent with
  | mk error middle =>
    rw [hmade] at hworking hdirectories hfiles
    cases error with
    | some error => exact ⟨hworking, hdirectories, by simpa using hfiles, by simp⟩
    | none =>
      have hmiddle : middle.LeadsTo base place :=
        ⟨locate_mono hworking hdirectories.kept h.located, hdirectories.kept place h.directory⟩
      obtain ⟨error, herror⟩ | ⟨hfull, hdirectory, hfree, hwritten⟩ :=
        hmiddle.writeHere_join hnames content
      · simp only [herror]
        exact ⟨hworking, hdirectories, by simpa using hfiles, by simp⟩
      · simp only [hwritten]
        have hput := FileTree.hasDirectory_put_file hdirectory hfree content
        refine ⟨hworking, ⟨fun other hother => ?_, fun other hother => ?_⟩, fun other => ?_,
          fun _ => locate_mono (by rfl) (fun other hother => (hput other).trans hother) hfull⟩
        · exact (hput other).trans (hdirectories.kept other hother)
        · exact hdirectories.made other ((hput other).symm.trans hother)
        · rw [FileTree.read?_put_file hdirectory hfree, hfiles other]
          simp

/-- A file that was there before it was written is one that its path led to. -/
theorem WritesAt.holds_of_read? {error : Option FileError}
    (h : WritesAt place names path content system error after) (herror : error = none)
    (hold : system.root.read? (place ++ names) = some old) : system.holds path = true := by
  have hkept := h.directories.hasDirectory_of_read? hold
  have hlocated := locate_mono h.working.symm hkept (h.located herror)
  obtain ⟨found, hfound, -⟩ := Option.bind_eq_some_iff.1 hold
  simp [holds, find, hlocated, hfound, bind, Except.bind, Except.toOption]

end FileSystem

end ServantGen
