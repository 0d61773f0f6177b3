import ServantGen.Output.Sink

/-!
# What writing below a directory does to the files

Where a path leads is read off the path alone, as soon as it leads anywhere: the files on the way
only decide whether it does. So a path below a directory leads below the place of that directory,
whatever was written in between. Main statements: `FileSystem.read?_write_join` says what every
file holds after one was written below a directory, and `read?_afterAll` what it holds after a
whole list of files went to the sink of a directory.
-/

namespace ServantGen

/-! ## Where parts lead -/

namespace FileTree

/-- Where a part of a path leads from a place if nothing is in the way. -/
def lead (place : TreePath) (part : String) : TreePath :=
  if WrittenPath.isIdle part then place
  else if part = ".." then place.dropLast
  else place ++ [part]

variable {tree : FileTree} {place next : TreePath}

theorem eq_lead_of_step {part : String} (h : tree.step place part = .ok next) :
    next = lead place part := by
  unfold step at h
  unfold lead
  split at h
  · simp at h
  · simp at h
  · split at h
    · simp_all
    · split at h
      · simp_all
      · split at h <;> simp_all

/-- A walk through a tree ends where its parts lead. -/
theorem eq_foldl_lead_of_walk {parts : List String} (h : tree.walk place parts = .ok next) :
    next = parts.foldl lead place := by
  induction parts generalizing place with
  | nil => exact (Except.ok.inj h).symm
  | cons part rest ih =>
    rw [walk, List.foldlM_cons] at h
    cases hstep : tree.step place part with
    | error error => simp [hstep, bind, Except.bind] at h
    | ok middle =>
      rw [hstep] at h
      rw [List.foldl_cons, ← eq_lead_of_step hstep]
      exact ih h

end FileTree

/-- A name leads to what has this name in a directory. -/
def IsEntryName (name : String) : Prop :=
  WrittenPath.isIdle name = false ∧ name ≠ ".."

/-- Names that lead downwards are put behind a place. -/
theorem foldl_lead_names {names : List String} (hnames : ∀ name ∈ names, IsEntryName name)
    (place : TreePath) : names.foldl FileTree.lead place = place ++ names := by
  induction names generalizing place with
  | nil => simp
  | cons name rest ih =>
    obtain ⟨⟨hidle, hupwards⟩, hrest⟩ := List.forall_mem_cons.1 hnames
    have hlead : FileTree.lead place name = place ++ [name] := by
      simp [FileTree.lead, hidle, hupwards]
    rw [List.foldl_cons, hlead, ih hrest, List.append_assoc, List.singleton_append]

/-- What a directory takes as a path are names that lead downwards. -/
theorem isEntryName_of_insideNames? {text : String} {names : List String}
    (h : insideNames? text = some names) : ∀ name ∈ names, IsEntryName name := by
  unfold insideNames? at h
  simp only at h
  split at h
  · simp at h
  · rename_i hupwards
    obtain rfl := Option.some.inj h
    intro name hname
    obtain ⟨hpart, hidle⟩ := List.mem_filter.1 hname
    exact ⟨by simpa using hidle, fun heq => hupwards (by simpa [heq] using hpart)⟩

namespace WrittenPath

theorem parts_ofText_ne_nil (text : String) : (ofText text).parts ≠ [] := by
  unfold ofText
  split
  · simp
  · simpa [Text.splitOn] using Text.splitBy_ne_nil (· == '/') text.toList

theorem parts_join_ne_nil {path : WrittenPath} (h : path.parts ≠ []) (names : List String) :
    (path.join names).parts ≠ [] := by
  unfold join
  split
  · exact h
  · split <;> simp_all

/-- A joined path leads below the place of the first one. -/
theorem foldl_lead_join (path : WrittenPath) {names : List String}
    (hnames : ∀ name ∈ names, IsEntryName name) (place : TreePath) :
    (path.join names).parts.foldl FileTree.lead place =
      path.parts.foldl FileTree.lead place ++ names := by
  rw [← foldl_lead_names hnames]
  unfold join
  split
  · simp_all
  · split
    · rename_i hlast
      obtain ⟨before, hbefore⟩ := List.getLast?_eq_some_iff.1 hlast
      have hidle : ∀ place, FileTree.lead place "" = place := fun _ => rfl
      simp [hbefore, hidle]
    · simp

end WrittenPath

/-! ## Writing one file -/

namespace FileSystem

variable {system origin after : FileSystem} {base path : WrittenPath} {place full : TreePath}
variable {names : List String} {content : String}

/-- Where a path leads if nothing is in the way. -/
def lead (system : FileSystem) (path : WrittenPath) : TreePath :=
  path.parts.foldl FileTree.lead (system.start path)

theorem eq_lead_of_locate (h : system.locate path = .ok place) : place = system.lead path := by
  unfold locate at h
  split at h
  · simp at h
  · exact FileTree.eq_foldl_lead_of_walk h

theorem lead_join (system : FileSystem) (hnames : ∀ name ∈ names, IsEntryName name) :
    system.lead (base.join names) = system.lead base ++ names := by
  have hstart : system.start (base.join names) = system.start base := by simp [start]
  rw [lead, hstart, base.foldl_lead_join hnames, lead]

/-- Nothing but the working directory decides where a path leads. -/
theorem lead_congr (hworking : system.working = origin.working) (path : WrittenPath) :
    system.lead path = origin.lead path := by
  simp [lead, start, hworking]

theorem eq_append_of_locate_join (hnames : ∀ name ∈ names, IsEntryName name)
    (hworking : system.working = origin.working) (hbase : origin.locate base = .ok place)
    (hfull : system.locate (base.join names) = .ok full) : full = place ++ names := by
  rw [eq_lead_of_locate hfull, lead_join system hnames, lead_congr hworking,
    ← eq_lead_of_locate hbase]

@[simp] theorem working_makeWay (system : FileSystem) (path : WrittenPath) :
    (system.makeWay path).2.working = system.working := rfl

@[simp] theorem working_makeDirectory (system : FileSystem) (path : WrittenPath) :
    (system.makeDirectory path).2.working = system.working := by
  have h := system.working_makeWay path.parent
  unfold makeDirectory
  repeat' split
  all_goals simp_all

/-- A file that the system writes has a place, which was no directory. -/
theorem exists_of_writeHere (h : system.writeHere path content = (none, after)) :
    ∃ place, system.locate path = .ok place ∧ system.root.hasDirectory place = false ∧
      after.working = system.working := by
  unfold writeHere at h
  split at h
  · simp at h
  · rename_i place hplace
    split at h
    · simp at h
    · rename_i hfree
      obtain ⟨-, rfl⟩ := Prod.mk.inj h
      exact ⟨place, hplace, by simpa using hfree, rfl⟩

/-- A file that the system writes below a directory holds the content, and every other file is as
before. -/
theorem read?_write_join (hparts : base.parts ≠ []) (hnames : ∀ name ∈ names, IsEntryName name)
    (hworking : system.working = origin.working) (hbase : origin.locate base = .ok place)
    (h : system.write (base.join names) content = (none, after)) :
    after.working = origin.working ∧
      ∀ other, after.root.read? other =
        if other = place ++ names then some content else system.root.read? other := by
  unfold write at h
  split at h
  · simp at h
  · rename_i middle hmade
    have hmiddle : middle.working = origin.working := by
      rw [← hworking, ← system.working_makeDirectory, hmade]
    obtain ⟨full, hfull, hfree, hafter⟩ := exists_of_writeHere h
    obtain rfl := eq_append_of_locate_join hnames hmiddle hbase hfull
    refine ⟨hafter.trans hmiddle, fun other => ?_⟩
    have hwritten := read?_writeHere (WrittenPath.parts_join_ne_nil hparts names) hfull hfree
      content other
    have hkept := system.read?_makeDirectory (base.join names).parent other
    rw [h] at hwritten
    rw [hmade] at hkept
    rw [hwritten, hkept]

/-- Writing to a path changes no file but the one that it leads to. -/
theorem read?_writeHere_of_ne (system : FileSystem) (hparts : path.parts ≠ []) (content : String)
    {other : TreePath} (hother : other ≠ system.lead path) :
    (system.writeHere path content).2.working = system.working ∧
      (system.writeHere path content).2.root.read? other = system.root.read? other := by
  cases hlocate : system.locate path with
  | error error => simp [writeHere, hlocate]
  | ok place =>
    cases hfree : system.root.hasDirectory place with
    | true => simp [writeHere, hlocate, hfree]
    | false =>
      refine ⟨by simp [writeHere, hlocate, hfree], ?_⟩
      rw [read?_writeHere hparts hlocate hfree, if_neg (eq_lead_of_locate hlocate ▸ hother)]

/-- Writing into a directory changes no file but the one of the name. -/
theorem read?_writeInto_of_ne (system : FileSystem) (hparts : base.parts ≠ []) {name : String}
    (hname : WrittenPath.ofText name = ⟨false, [name]⟩) (hentry : IsEntryName name)
    (content : String) {other : TreePath} (hother : other ≠ system.lead base ++ [name]) :
    (system.writeInto base name content).2.working = system.working ∧
      (system.writeInto base name content).2.root.read? other = system.root.read? other := by
  have hworking := system.working_makeDirectory base
  have hread := system.read?_makeDirectory base other
  unfold writeInto
  split <;> rename_i middle hmade <;> rw [hmade] at hworking hread
  · exact ⟨hworking, hread⟩
  · have hpath : base.append (.ofText name) = base.join [name] := by
      rw [WrittenPath.append, hname]
      rfl
    have hlead : middle.lead (base.join [name]) = system.lead base ++ [name] := by
      rw [lead_join middle (by simpa using hentry), lead_congr hworking]
    have hwritten := middle.read?_writeHere_of_ne (WrittenPath.parts_join_ne_nil hparts [name])
      content (hlead ▸ hother)
    rw [hpath]
    exact ⟨hwritten.1.trans hworking, hwritten.2.trans hread⟩

end FileSystem

/-! ## Writing a list of files -/

section Sinks

variable {σ : Type} (sink : Sink σ)

/-- Whether a sink gives only answers that are accepted, when files go to it one after the
other. -/
def answersAll (accepts : WriteAnswer → Bool) : List (String × String) → σ → Bool
  | [], _ => true
  | (path, content) :: files, own =>
    let (answer, own) := sink path content own
    accepts answer && answersAll accepts files own

theorem answersAll_cons (accepts : WriteAnswer → Bool) (path content : String)
    (files : List (String × String)) (own : σ) :
    answersAll sink accepts ((path, content) :: files) own =
      (accepts (sink path content own).1 &&
        answersAll sink accepts files (sink path content own).2) := rfl

/-- The state of a sink after files went to it one after the other. -/
def afterAll (files : List (String × String)) (own : σ) : σ :=
  files.foldl (fun own file => (sink file.1 file.2 own).2) own

end Sinks

/-- Whether the operating system refused to write a file. -/
def WriteAnswer.isRefusal : WriteAnswer → Bool
  | .failed (.system _) => true
  | _ => false

/-- Whether the operating system makes every directory and writes every file that a list of files
asks for below a directory. -/
def systemPerforms (base : WrittenPath) (files : List (String × String)) (system : FileSystem) :
    Bool :=
  answersAll (directorySink base .always) (!·.isRefusal) files system

/-- One of the files goes below a place, to another one, with this content. -/
def GoesTo (place : TreePath) (files : List (String × String)) (other : TreePath)
    (content : String) : Prop :=
  ∃ path names, (path, content) ∈ files ∧ insideNames? path = some names ∧ other = place ++ names

section Directory

variable {base : WrittenPath} {origin system : FileSystem} {place : TreePath}
variable {path content : String} {names : List String} {files : List (String × String)}

/-- A path that does not lead out of the directory is written, unless the system refuses. -/
theorem directorySink_of_not_isRefusal (hnames : insideNames? path = some names)
    (h : (directorySink base .always path content system).1.isRefusal = false) :
    ∃ after, system.write (base.join names) content = (none, after) ∧
      directorySink base .always path content system = (.written, after) := by
  simp only [directorySink, hnames, reduceCtorEq, decide_false, Bool.false_and,
    Bool.false_eq_true, if_false] at h ⊢
  split at h
  · rename_i after hwrite
    exact ⟨after, hwrite, rfl⟩
  · simp [WriteAnswer.isRefusal] at h

/-- The first file is written, and the system performs the others behind it. -/
theorem exists_of_systemPerforms_cons (hnames : insideNames? path = some names)
    (h : systemPerforms base ((path, content) :: files) system = true) :
    ∃ after, system.write (base.join names) content = (none, after) ∧
      directorySink base .always path content system = (.written, after) ∧
      systemPerforms base files after = true := by
  rw [systemPerforms, answersAll_cons, Bool.and_eq_true, Bool.not_eq_true'] at h
  obtain ⟨haccepted, hothers⟩ := h
  obtain ⟨after, hwrite, hsink⟩ := directorySink_of_not_isRefusal hnames haccepted
  refine ⟨after, hwrite, hsink, ?_⟩
  rw [hsink] at hothers
  exact hothers

/-- Files whose paths do not lead out of the directory are written, unless the system refuses one
of them. -/
theorem answersAll_written_of_systemPerforms
    (hinside : ∀ file ∈ files, (insideNames? file.1).isSome = true)
    (h : systemPerforms base files system = true) :
    answersAll (directorySink base .always) (· == .written) files system = true := by
  induction files generalizing system with
  | nil => rfl
  | cons file rest ih =>
    obtain ⟨hfile, hrest⟩ := List.forall_mem_cons.1 hinside
    obtain ⟨names, hnames⟩ := Option.isSome_iff_exists.1 hfile
    obtain ⟨after, -, hsink, hothers⟩ := exists_of_systemPerforms_cons hnames h
    rw [answersAll, hsink]
    exact ih hrest hothers

/-- After files with different names were written below a directory, each of them holds its
content, and every other file is as before. -/
theorem read?_afterAll (hparts : base.parts ≠ []) (hbase : origin.locate base = .ok place)
    (hworking : system.working = origin.working)
    (hinside : ∀ file ∈ files, (insideNames? file.1).isSome = true)
    (hnodup : (files.map fun file => insideNames? file.1).Nodup)
    (h : systemPerforms base files system = true) (other : TreePath) (content : String) :
    (afterAll (directorySink base .always) files system).root.read? other = some content ↔
      GoesTo place files other content ∨
      (∀ content, ¬ GoesTo place files other content) ∧
        system.root.read? other = some content := by
  induction files generalizing system with
  | nil => simp [afterAll, GoesTo]
  | cons file rest ih =>
    obtain ⟨path, text⟩ := file
    obtain ⟨hfile, hrest⟩ := List.forall_mem_cons.1 hinside
    obtain ⟨names, hnames⟩ := Option.isSome_iff_exists.1 hfile
    obtain ⟨hfresh, hdistinct⟩ := List.nodup_cons.1 hnodup
    obtain ⟨after, hwrite, hsink, hothers⟩ := exists_of_systemPerforms_cons hnames h
    obtain ⟨hafter, hread⟩ := FileSystem.read?_write_join hparts
      (isEntryName_of_insideNames? hnames) hworking hbase hwrite
    have hcons : ∀ content, GoesTo place ((path, text) :: rest) other content ↔
        (other = place ++ names ∧ content = text) ∨ GoesTo place rest other content := by
      intro content
      simp only [GoesTo, List.mem_cons, Prod.mk.injEq]
      constructor
      · rintro ⟨path', names', ⟨rfl, rfl⟩ | hmem, hnames', rfl⟩
        · obtain rfl := Option.some.inj (hnames.symm.trans hnames')
          exact .inl ⟨rfl, rfl⟩
        · exact .inr ⟨path', names', hmem, hnames', rfl⟩
      · rintro (⟨rfl, rfl⟩ | ⟨path', names', hmem, hnames', rfl⟩)
        · exact ⟨path, names, .inl ⟨rfl, rfl⟩, hnames, rfl⟩
        · exact ⟨path', names', .inr hmem, hnames', rfl⟩
    -- The names of the first file are none of those behind it, so nothing is written over it.
    have hlast : other = place ++ names → ∀ content, ¬ GoesTo place rest other content := by
      rintro rfl content ⟨path', names', hmem, hnames', heq⟩
      obtain rfl := List.append_cancel_left heq
      exact hfresh (List.mem_map.2 ⟨_, hmem, hnames'.trans hnames.symm⟩)
    rw [afterAll, List.foldl_cons, hsink]
    refine (ih hafter hrest hdistinct hothers).trans ?_
    rw [hread]
    by_cases hother : other = place ++ names
    · have hnone := hlast hother
      simp [hcons, hnone, hother.symm, eq_comm]
    · simp [hcons, hother]

end Directory

end ServantGen
