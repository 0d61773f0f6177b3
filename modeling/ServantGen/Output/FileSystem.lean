import ServantGen.Output.FileTree
import ServantGen.Output.WrittenPath

/-!
# Files and paths

A system of files is a tree and a working directory in it. A path is followed part by part
through the tree; everything on the way must be a directory. Writing a file makes the
directories that lead to it. It fails, without changing any file, when a file stands in the way
of a directory, when a directory has the file's name, or when the path cannot be one. The
directories that were made before a failure stay. Main statements: `read?_makeDirectory` says
that making directories touches no file, and `read?_writeHere` what every file holds after one
was written.
-/

namespace ServantGen

/-- Why the system refuses an operation on files. -/
inductive FileError where
  | notFound
  | taken
  | notDirectory
  | isDirectory
  | nameTooLong
  | invalidName
  deriving DecidableEq, Repr

def FileError.message : FileError → String
  | .notFound => "No such file or directory (os error 2)"
  | .taken => "File exists (os error 17)"
  | .notDirectory => "Not a directory (os error 20)"
  | .isDirectory => "Is a directory (os error 21)"
  | .nameTooLong => "File name too long (os error 36)"
  | .invalidName => "file name contained an unexpected NUL byte"

/-- Files and directories, and the directory that relative paths start from. -/
structure FileSystem where
  root : FileTree
  working : TreePath
  deriving Inhabited

/-- What is wrong with a path whatever the files are. -/
def WrittenPath.fault? (path : WrittenPath) : Option FileError :=
  if path.parts.any hasNul then some .invalidName
  else if path.byteSize > maxBytes then some .nameTooLong
  else if path.isEmpty then some .notFound
  else none

/-! ## Following paths -/

/-- Where a part of a path leads from a place, which must be a directory. Above the root there
is the root. -/
def FileTree.step (tree : FileTree) (place : TreePath) (part : String) :
    Except FileError TreePath :=
  match tree.get? place with
  | none => .error .notFound
  | some (.file _) => .error .notDirectory
  | some (.directory _) =>
    if WrittenPath.isIdle part then .ok place
    else if part = ".." then .ok place.dropLast
    else if WrittenPath.isTooLong part then .error .nameTooLong
    else .ok (place ++ [part])

/-- Where parts of a path lead from a place. There need not be anything at the last place. -/
def FileTree.walk (tree : FileTree) (place : TreePath) (parts : List String) :
    Except FileError TreePath :=
  parts.foldlM tree.step place

/-- The directories that are missing on a way are made. Answers what is in the way, if anything
is. -/
def FileTree.makeWay (tree : FileTree) (place : TreePath) :
    List String → Option FileError × FileTree
  | [] => (none, tree)
  | part :: rest =>
    match tree.step place part with
    | .error error => (some error, tree)
    | .ok next =>
      match tree.get? next with
      | some (.directory _) => makeWay tree next rest
      | some (.file _) => (some (if rest.isEmpty then .taken else .notDirectory), tree)
      | none => makeWay (tree.put next .empty) next rest

/-- What holds a directory is a directory. -/
theorem FileTree.hasDirectory_dropLast {tree : FileTree} {place : TreePath}
    (h : tree.hasDirectory place = true) : tree.hasDirectory place.dropLast = true := by
  rcases List.eq_nil_or_concat place with rfl | ⟨before, name, rfl⟩
  · exact h
  · rw [List.concat_eq_append, FileTree.hasDirectory, FileTree.get?_append] at h
    cases hget : tree.get? before with
    | none => simp [hget] at h
    | some inner =>
      cases inner with
      | file content => simp [hget, FileTree.get?] at h
      | directory entries => simp [FileTree.hasDirectory, hget, FileTree.isDirectory]

/-- A step leads to a directory or to a place in one. -/
theorem FileTree.hasDirectory_dropLast_of_step {tree : FileTree} {place next : TreePath}
    {part : String} (h : tree.step place part = .ok next) :
    tree.hasDirectory next.dropLast = true := by
  unfold FileTree.step at h
  split at h
  · simp at h
  · simp at h
  · rename_i entries hplace
    have hdirectory : tree.hasDirectory place = true := by
      simp [FileTree.hasDirectory, hplace, FileTree.isDirectory]
    split at h
    · obtain rfl : place = next := by simpa using h
      exact FileTree.hasDirectory_dropLast hdirectory
    · split at h
      · obtain rfl : place.dropLast = next := by simpa using h
        exact FileTree.hasDirectory_dropLast (FileTree.hasDirectory_dropLast hdirectory)
      · split at h
        · simp at h
        · obtain rfl : place ++ [part] = next := by simpa using h
          simpa using hdirectory

/-- A way of at least one part leads to a directory or to a place in one. -/
theorem FileTree.hasDirectory_dropLast_of_walk {tree : FileTree} {start place : TreePath}
    {parts : List String} (hparts : parts ≠ []) (h : tree.walk start parts = .ok place) :
    tree.hasDirectory place.dropLast = true := by
  rcases List.eq_nil_or_concat parts with rfl | ⟨before, last, rfl⟩
  · exact absurd rfl hparts
  · rw [List.concat_eq_append, FileTree.walk, List.foldlM_append] at h
    cases hbefore : before.foldlM tree.step start with
    | error error => simp [hbefore, bind, Except.bind] at h
    | ok middle =>
      cases hstep : tree.step middle last with
      | error error => simp [hbefore, hstep, bind, Except.bind] at h
      | ok next =>
        obtain rfl : next = place := by
          simpa [hbefore, hstep, bind, Except.bind, pure, Except.pure] using h
        exact FileTree.hasDirectory_dropLast_of_step hstep

/-- No file is below a place that is no directory. -/
theorem FileTree.read?_append_of_not_hasDirectory {tree : FileTree} {place : TreePath}
    (h : tree.hasDirectory place = false) (name : String) (more : TreePath) :
    tree.read? (place ++ name :: more) = none := by
  rw [FileTree.read?, FileTree.get?_append_of_not_hasDirectory h, Option.bind_none]

/-- A file put at a place that is no directory holds the content, and every other file is as
before. -/
theorem FileTree.read?_put_file {tree : FileTree} {place : TreePath}
    (h : tree.hasDirectory place.dropLast = true) (hfree : tree.hasDirectory place = false)
    (content : String) (other : TreePath) :
    (tree.put place (.file content)).read? other =
      if other = place then some content else tree.read? other := by
  rw [FileTree.read?_put h]
  split
  · rename_i hbelow
    obtain ⟨more, rfl⟩ : place <+: other := by simpa using hbelow
    cases more with
    | nil => simp
    | cons name more => simp [FileTree.read?_append_of_not_hasDirectory hfree]
  · rename_i hbelow
    have hne : other ≠ place := fun heq => hbelow (by simp [heq])
    rw [if_neg hne]

/-- Directories are made without touching a file. -/
@[simp] theorem FileTree.read?_makeWay (tree : FileTree) (place : TreePath) (parts : List String)
    (other : TreePath) : (tree.makeWay place parts).2.read? other = tree.read? other := by
  induction parts generalizing tree place with
  | nil => rfl
  | cons part rest ih =>
    rw [FileTree.makeWay]
    split
    · rfl
    · rename_i next hstep
      split
      · exact ih ..
      · rfl
      · rename_i hnone
        rw [ih, FileTree.read?_put (FileTree.hasDirectory_dropLast_of_step hstep)]
        split
        · rename_i hbelow
          obtain ⟨more, rfl⟩ : next <+: other := by simpa using hbelow
          have hbefore : tree.read? (next ++ more) = none := by
            simp [FileTree.read?, FileTree.get?_append, hnone]
          rw [FileTree.read?_empty, hbefore]
        · rfl

namespace FileSystem

/-- Nothing but a working directory. -/
def within (working : TreePath) : FileSystem :=
  ⟨FileTree.empty.put working .empty, working⟩

def start (system : FileSystem) (path : WrittenPath) : TreePath :=
  if path.isAbsolute then [] else system.working

/-- The place that a path leads to. -/
def locate (system : FileSystem) (path : WrittenPath) : Except FileError TreePath :=
  match path.fault? with
  | some error => .error error
  | none => system.root.walk (system.start path) path.parts

def find (system : FileSystem) (path : WrittenPath) : Except FileError FileTree := do
  let place ← system.locate path
  match system.root.get? place with
  | some tree => .ok tree
  | none => .error .notFound

/-- Whether a path leads to anything. -/
def holds (system : FileSystem) (path : WrittenPath) : Bool :=
  (system.find path).toOption.isSome

def readFile (system : FileSystem) (path : WrittenPath) : Except FileError String := do
  match ← system.find path with
  | .file content => .ok content
  | .directory _ => .error .isDirectory

/-! ## Directories -/

/-- Make the directories of a way from the start of a path. -/
def makeWay (system : FileSystem) (path : WrittenPath) : Option FileError × FileSystem :=
  let (error, root) := system.root.makeWay (system.start path) path.parts
  (error, { system with root })

def directoryFault? (system : FileSystem) (path : WrittenPath) : Option FileError :=
  match system.find path with
  | .error error => some error
  | .ok (.file _) => some .notDirectory
  | .ok (.directory _) => none

/-- Make the directory of a path, with those that lead to it. A path that ends in a dot makes
only those that lead to it. Nothing is to be made for an empty path. -/
def makeDirectory (system : FileSystem) (path : WrittenPath) : Option FileError × FileSystem :=
  if path.isEmpty then (none, system)
  else match path.fault? with
    | some error => (some error, system)
    | none =>
      if path.endsInDot then
        match system.makeWay path.parent with
        | (some error, system) => (some error, system)
        | (none, system) => (system.directoryFault? path, system)
      else system.makeWay path

@[simp] theorem read?_makeWay (system : FileSystem) (path : WrittenPath) (other : TreePath) :
    (system.makeWay path).2.root.read? other = system.root.read? other := by
  simp [makeWay]

/-- Directories are made without touching a file. -/
@[simp] theorem read?_makeDirectory (system : FileSystem) (path : WrittenPath)
    (other : TreePath) :
    (system.makeDirectory path).2.root.read? other = system.root.read? other := by
  have h := system.read?_makeWay path.parent other
  unfold makeDirectory
  repeat' split
  all_goals simp_all

/-! ## Writing -/

/-- Write a file whose directory is there. Answers what is in the way, if anything is. -/
def writeHere (system : FileSystem) (path : WrittenPath) (content : String) :
    Option FileError × FileSystem :=
  match system.locate path with
  | .error error => (some error, system)
  | .ok place =>
    if system.root.hasDirectory place then (some .isDirectory, system)
    else (none, { system with root := system.root.put place (.file content) })

/-- A file that is written where a path leads holds the content, and every other file is as
before. -/
theorem read?_writeHere {system : FileSystem} {path : WrittenPath} {place : TreePath}
    (hparts : path.parts ≠ []) (h : system.locate path = .ok place)
    (hfree : system.root.hasDirectory place = false) (content : String) (other : TreePath) :
    (system.writeHere path content).2.root.read? other =
      if other = place then some content else system.root.read? other := by
  have hroot : (system.writeHere path content).2.root = system.root.put place (.file content) := by
    simp [writeHere, h, hfree]
  have hwalk : system.root.walk (system.start path) path.parts = .ok place := by
    unfold locate at h
    split at h
    · simp at h
    · exact h
  rw [hroot]
  exact FileTree.read?_put_file (FileTree.hasDirectory_dropLast_of_walk hparts hwalk) hfree
    content other

/-- Write a file, with the directories that lead to it. Answers what is in the way, if
anything is. -/
def write (system : FileSystem) (path : WrittenPath) (content : String) :
    Option FileError × FileSystem :=
  match system.makeDirectory path.parent with
  | (some error, system) => (some error, system)
  | (none, system) => system.writeHere path content

def writeInto (system : FileSystem) (directory : WrittenPath) (name content : String) :
    Option FileError × FileSystem :=
  match system.makeDirectory directory with
  | (some error, system) => (some error, system)
  | (none, system) => system.writeHere (directory.append (.ofText name)) content

/-- Write files into a directory one after the other, up to the first that cannot be written. -/
def writeEach (directory : WrittenPath) (system : FileSystem) :
    List (String × String) → Option FileError × FileSystem
  | [] => (none, system)
  | (name, content) :: files =>
    match system.writeInto directory name content with
    | (some error, system) => (some error, system)
    | (none, system) => writeEach directory system files

/-- Files in a working directory, as far as they can be written. -/
def ofFiles (working : TreePath) (files : List (String × String)) : FileSystem :=
  files.foldl (fun system (path, content) => (system.write (.ofText path) content).2)
    (within working)

/-- The files in the working directory with the texts of their paths, in increasing order. -/
def listing (system : FileSystem) : List (String × String) :=
  ((system.root.get? system.working).getD .empty).listing

end FileSystem

end ServantGen
