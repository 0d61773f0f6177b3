import ServantGen.Proofs.Output.Ways

/-!
# What the sink of a directory leaves alone

A call of the sink of a directory concerns one file below this directory and the directories that
lead to it. That the directory is still there afterwards carries this over to any list of calls: the
files are what the calls that were answered as written made of them, and nothing happens outside of
the directory. Main statement: `directorySink_confined`.
-/

namespace ServantGen

/-! ## Calls of a sink -/

/-- The components of a path that lead somewhere. -/
def insideNames (path : String) : List String :=
  (Text.splitOn '/' path).filter (!WrittenPath.isIdle ·)

/-- A path has a component that leads upwards. -/
def LeadsUpwards (path : String) : Prop :=
  ".." ∈ Text.splitOn '/' path

theorem insideNames?_of_leadsUpwards {path : String} (h : LeadsUpwards path) :
    insideNames? path = none := by
  simpa [insideNames?, LeadsUpwards] using h

theorem insideNames?_of_not_leadsUpwards {path : String} (h : ¬ LeadsUpwards path) :
    insideNames? path = some (insideNames path) := by
  simpa [insideNames?, insideNames, LeadsUpwards] using h

/-- What a sink below a place may do with a call. It refuses exactly a path that leads upwards, and
then the files are as before. Otherwise at most directories between the place and the file that the
path names are made, and this file gets the content if the answer says so. Nothing else happens to
files or directories. -/
structure IsConfined (place : TreePath) (path content : String) (system : FileSystem)
    (outcome : WriteAnswer × FileSystem) : Prop where
  refused : (∃ text, outcome.1 = .failed (.outside text)) ↔ LeadsUpwards path
  untouched : LeadsUpwards path → outcome.2 = system
  working : outcome.2.working = system.working
  directories : FileTree.OpensWay place (insideNames path) system.root outcome.2.root
  files : ∀ other, outcome.2.root.read? other =
    if outcome.1 = .written ∧ other = place ++ insideNames path then some content
    else system.root.read? other

/-- The files that a sink answers as written, when files go to it one after the other. -/
def writtenAmong {σ : Type} (sink : Sink σ) :
    List (String × String) → σ → List (String × String)
  | [], _ => []
  | (path, content) :: files, own =>
    let (answer, next) := sink path content own
    let others := writtenAmong sink files next
    if answer = .written then (path, content) :: others else others

section Directory

variable {system origin : FileSystem} {base : WrittenPath} {place other : TreePath}
variable {overwrite : Overwrite} {path content old : String} {files : List (String × String)}

/-- The system as it was is confined, whatever the answer says but that the file was written. -/
theorem isConfined_unchanged {answer : WriteAnswer} (hanswer : answer ≠ .written)
    (hrefused : (∃ text, answer = .failed (.outside text)) ↔ LeadsUpwards path) :
    IsConfined place path content system (answer, system) where
  refused := hrefused
  untouched _ := rfl
  working := rfl
  directories := .refl ..
  files := by simp [hanswer]

/-- Every call of the sink of a directory that is there stays below it. -/
theorem isConfined_directorySink (h : system.LeadsTo base place) (overwrite : Overwrite)
    (path content : String) :
    IsConfined place path content system (directorySink base overwrite path content system) := by
  by_cases hupwards : LeadsUpwards path
  · simp only [directorySink, insideNames?_of_leadsUpwards hupwards]
    exact isConfined_unchanged (by simp) (by simp [hupwards])
  · have hnames := insideNames?_of_not_leadsUpwards hupwards
    have hwrite := h.writesAt_write (isEntryName_of_insideNames? hnames) content
    simp only [directorySink, hnames]
    split
    · exact isConfined_unchanged (by simp) (by simp [hupwards])
    · split <;> rename_i hresult <;> rw [hresult] at hwrite
      · exact ⟨by simp [hupwards], fun hpath => absurd hpath hupwards, hwrite.working,
          hwrite.directories, by simpa using hwrite.files⟩
      · exact ⟨by simp [hupwards], fun hpath => absurd hpath hupwards, hwrite.working,
          hwrite.directories, by simpa using hwrite.files⟩

/-- Where only missing files are written, the file of a call that writes was not there. -/
theorem read?_eq_none_of_written (h : system.LeadsTo base place)
    (hwritten : (directorySink base .ifMissing path content system).1 = .written) :
    system.root.read? (place ++ insideNames path) = none := by
  by_cases hupwards : LeadsUpwards path
  · simp [directorySink, insideNames?_of_leadsUpwards hupwards] at hwritten
  · have hnames := insideNames?_of_not_leadsUpwards hupwards
    have hwrite := h.writesAt_write (isEntryName_of_insideNames? hnames) content
    simp only [directorySink, hnames] at hwritten
    split at hwritten
    · simp at hwritten
    · rename_i hholds
      split at hwritten
      · rename_i after hresult
        rw [Option.eq_none_iff_forall_ne_some]
        intro old hold
        have hthere := hwrite.holds_of_read? (by rw [hresult]) hold
        simp [hthere] at hholds
      · simp at hwritten

/-- Where only missing files are written, every file that is there stays as it is. -/
theorem read?_directorySink_ifMissing (h : system.LeadsTo base place) (path content : String)
    (hold : system.root.read? other = some old) :
    (directorySink base .ifMissing path content system).2.root.read? other = some old := by
  rw [(isConfined_directorySink h .ifMissing path content).files, hold, ite_eq_right_iff]
  rintro ⟨hwritten, rfl⟩
  rw [read?_eq_none_of_written h hwritten] at hold
  exact absurd hold (by simp)

/-- The directory of a sink is still there after a call. -/
theorem IsConfined.leadsTo {outcome : WriteAnswer × FileSystem}
    (hcall : IsConfined place path content system outcome) (h : system.LeadsTo base place) :
    outcome.2.LeadsTo base place where
  located := FileSystem.locate_mono hcall.working hcall.directories.kept h.located
  directory := hcall.directories.kept place h.directory

/-! ## Calls one after the other -/

theorem leadsTo_afterAll (h : origin.LeadsTo base place) (files : List (String × String)) :
    (afterAll (directorySink base overwrite) files origin).LeadsTo base place := by
  induction files generalizing origin with
  | nil => exact h
  | cons file rest ih => exact ih ((isConfined_directorySink h overwrite _ _).leadsTo h)

/-- Nothing happens outside of the place. -/
theorem afterAll_outside (h : origin.LeadsTo base place) (hother : ¬ place <+: other)
    (files : List (String × String)) :
    let after := afterAll (directorySink base overwrite) files origin
    after.root.read? other = origin.root.read? other ∧
      after.root.hasDirectory other = origin.root.hasDirectory other := by
  induction files generalizing origin with
  | nil => exact ⟨rfl, rfl⟩
  | cons file rest ih =>
    have hcall := isConfined_directorySink h overwrite file.1 file.2
    obtain ⟨hread, hdirectory⟩ := ih (hcall.leadsTo h)
    refine ⟨hread.trans ?_, hdirectory.trans ?_⟩
    · rw [hcall.files, if_neg]
      rintro ⟨-, rfl⟩
      exact hother (List.prefix_append place _)
    · rw [Bool.eq_iff_iff]
      refine ⟨fun hafter => ?_, hcall.directories.kept other⟩
      rcases hcall.directories.made other hafter with hbefore | ⟨way, -, -, rfl⟩
      · exact hbefore
      · exact absurd (List.prefix_append place way) hother

/-- A file that no call has written is as it was. -/
theorem read?_afterAll_of_not_written (h : origin.LeadsTo base place)
    (hother : ∀ file ∈ writtenAmong (directorySink base overwrite) files origin,
      place ++ insideNames file.1 ≠ other) :
    (afterAll (directorySink base overwrite) files origin).root.read? other =
      origin.root.read? other := by
  induction files generalizing origin with
  | nil => rfl
  | cons file rest ih =>
    obtain ⟨path, content⟩ := file
    have hcall := isConfined_directorySink h overwrite path content
    simp only [writtenAmong] at hother
    split at hother
    · rename_i hwritten
      obtain ⟨hfirst, hrest⟩ := List.forall_mem_cons.1 hother
      refine (ih (hcall.leadsTo h) hrest).trans ?_
      rw [hcall.files, if_neg fun hthis => hfirst hthis.2.symm]
    · rename_i hwritten
      refine (ih (hcall.leadsTo h) hother).trans ?_
      rw [hcall.files, if_neg fun hthis => hwritten hthis.1]

/-- A file holds the content of the last call that has written it. -/
theorem read?_afterAll_of_written (h : origin.LeadsTo base place)
    {earlier later : List (String × String)}
    (hsplit : writtenAmong (directorySink base overwrite) files origin =
      earlier ++ (path, content) :: later)
    (hlast : ∀ file ∈ later, insideNames file.1 ≠ insideNames path) :
    (afterAll (directorySink base overwrite) files origin).root.read? (place ++ insideNames path) =
      some content := by
  induction files generalizing origin earlier with
  | nil => simp [writtenAmong] at hsplit
  | cons file rest ih =>
    obtain ⟨first, text⟩ := file
    have hcall := isConfined_directorySink h overwrite first text
    simp only [writtenAmong] at hsplit
    split at hsplit
    · rename_i hwritten
      cases earlier with
      | nil =>
        obtain ⟨⟨rfl, rfl⟩, rfl⟩ : (first = path ∧ text = content) ∧ _ = later := by
          simpa using hsplit
        have hnone := read?_afterAll_of_not_written (hcall.leadsTo h)
          fun file hfile heq => hlast file hfile (List.append_cancel_left heq)
        refine hnone.trans ?_
        rw [hcall.files, if_pos ⟨hwritten, rfl⟩]
      | cons before earlier => exact ih (hcall.leadsTo h) (List.cons.inj hsplit).2
    · exact ih (hcall.leadsTo h) hsplit

/-- Whatever files go to the sink of a directory that is there, nothing happens outside of it, a
file holds the content of the last call that was answered as written for it, and a file without
such a call holds what it held. The call behind them is confined: it is refused exactly for a path
that leads upwards, and else it concerns the one file that the path names below the directory, and
the directories that lead to this file. Where only missing files are written, it changes no file
that is there. -/
theorem directorySink_confined {base : WrittenPath} {place : TreePath} {origin : FileSystem}
    (h : origin.LeadsTo base place) (overwrite : Overwrite) (files : List (String × String)) :
    let sink := directorySink base overwrite
    let after := afterAll sink files origin
    (∀ path content, IsConfined place path content after (sink path content after)) ∧
    (overwrite = .ifMissing → ∀ path content other old, after.root.read? other = some old →
      (sink path content after).2.root.read? other = some old) ∧
    (∀ other, ¬ place <+: other → after.root.read? other = origin.root.read? other ∧
      after.root.hasDirectory other = origin.root.hasDirectory other) ∧
    (∀ other, (∀ file ∈ writtenAmong sink files origin, place ++ insideNames file.1 ≠ other) →
      after.root.read? other = origin.root.read? other) ∧
    ∀ earlier path content later,
      writtenAmong sink files origin = earlier ++ (path, content) :: later →
      (∀ file ∈ later, insideNames file.1 ≠ insideNames path) →
      after.root.read? (place ++ insideNames path) = some content := by
  have hafter : (afterAll (directorySink base overwrite) files origin).LeadsTo base place :=
    leadsTo_afterAll h files
  refine ⟨fun path content => isConfined_directorySink hafter overwrite path content, ?_,
    fun other hother => afterAll_outside h hother files,
    fun other hother => read?_afterAll_of_not_written h hother,
    fun earlier path content later hsplit hlast => read?_afterAll_of_written h hsplit hlast⟩
  rintro rfl path content other old hold
  exact read?_directorySink_ifMissing hafter path content hold

/-- A path that leads upwards, two paths to one file, a directory below a file, a file where a
directory is, and the directory itself. -/
theorem directorySink_confined_conflicts :
    let origin : FileSystem :=
      ⟨.directory [("out", .directory [("a.txt", .file "1")]), ("kept.txt", .file "2")], []⟩
    let files := [("../kept.txt", "3"), ("a.txt", "4"), ("./a.txt/", "5"), ("a.txt/b.txt", "6"),
      ("c//d.txt", "7"), ("c", "8"), ("", "9")]
    let after := afterAll (directorySink (.ofText "/out") .always) files origin
    origin.LeadsTo (.ofText "/out") ["out"] ∧
      after.root.read? ["out", "a.txt"] = some "5" ∧
      after.root.read? ["out", "c", "d.txt"] = some "7" ∧
      after.root.read? ["out", "c"] = none ∧
      after.root.read? ["kept.txt"] = some "2" ∧
      (directorySink (.ofText "/out") .ifMissing "a.txt" "4" origin).2.root.read?
        ["out", "a.txt"] = some "1" := by
  intro origin files after
  have h : origin.LeadsTo (.ofText "/out") ["out"] := ⟨rfl, rfl⟩
  obtain ⟨-, -, houtside, hunwritten, hlast⟩ := directorySink_confined h .always files
  obtain ⟨-, hmissing, -⟩ := directorySink_confined h .ifMissing []
  refine ⟨h, ?_, ?_, ?_, ?_, ?_⟩
  · exact hlast [("a.txt", "4")] "./a.txt/" "5" [("c//d.txt", "7")] (by decide +kernel)
      (by decide +kernel)
  · exact hlast [("a.txt", "4"), ("./a.txt/", "5")] "c//d.txt" "7" [] (by decide +kernel)
      (by decide +kernel)
  · exact hunwritten ["out", "c"] (by decide +kernel)
  · exact (houtside ["kept.txt"] (by decide +kernel)).1
  · exact hmissing rfl "a.txt" "4" ["out", "a.txt"] "1" rfl

end Directory

end ServantGen
