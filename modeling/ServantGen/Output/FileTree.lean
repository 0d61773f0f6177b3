import ServantGen.Json.Basic
import ServantGen.Text.Split

/-!
# Trees of files

Files and directories as a value: a directory holds files and directories by name. Everything
is reached by the names that lead to it. Main statements: `read?_put` says what every file holds
after something was put at a path, and `hasDirectory_put` where directories are then.
-/

namespace ServantGen

/-- The names that lead from a directory to a file or a directory. -/
abbrev TreePath := List String

/-- A file with its content, or a directory with what it holds. -/
inductive FileTree where
  | file (content : String)
  | directory (entries : List (String × FileTree))
  deriving Inhabited

namespace FileTree

def empty : FileTree := .directory []

def isDirectory : FileTree → Bool
  | .directory _ => true
  | .file _ => false

def content? : FileTree → Option String
  | .file content => some content
  | .directory _ => none

def get? : FileTree → TreePath → Option FileTree
  | tree, [] => some tree
  | .file _, _ :: _ => none
  | .directory entries, name :: path =>
    match Entries.get? name entries with
    | some tree => tree.get? path
    | none => none

def read? (tree : FileTree) (path : TreePath) : Option String :=
  (tree.get? path).bind content?

def hasDirectory (tree : FileTree) (path : TreePath) : Bool :=
  (tree.get? path).any isDirectory

/-- Put something at a path, with the directories that lead to it. Below a file there is
nothing, and nothing can be put there. -/
def put : FileTree → TreePath → FileTree → FileTree
  | _, [], node => node
  | .file content, _ :: _, _ => .file content
  | .directory entries, name :: path, node =>
    let inner := (Entries.get? name entries).getD empty
    .directory (Entries.put name (inner.put path node) entries)

@[simp] theorem get?_nil (tree : FileTree) : tree.get? [] = some tree := by
  cases tree <;> rfl

@[simp] theorem read?_file_nil (content : String) : read? (.file content) [] = some content := by
  simp [read?, content?]

@[simp] theorem read?_file_cons (content name : String) (path : TreePath) :
    read? (.file content) (name :: path) = none := rfl

@[simp] theorem read?_empty (path : TreePath) : empty.read? path = none := by
  cases path <;> rfl

theorem get?_append (tree : FileTree) (path more : TreePath) :
    tree.get? (path ++ more) = (tree.get? path).bind (·.get? more) := by
  induction path generalizing tree with
  | nil => simp
  | cons name path ih =>
    cases tree with
    | file content => rfl
    | directory entries =>
      simp only [List.cons_append, get?]
      cases Entries.get? name entries with
      | none => rfl
      | some inner => exact ih inner

theorem hasDirectory_iff {tree : FileTree} {path : TreePath} :
    tree.hasDirectory path = true ↔ ∃ entries, tree.get? path = some (.directory entries) := by
  rw [hasDirectory, Option.any_eq_true]
  constructor
  · rintro ⟨_ | entries, hget, h⟩
    · simp [isDirectory] at h
    · exact ⟨entries, hget⟩
  · rintro ⟨entries, hget⟩
    exact ⟨_, hget, rfl⟩

/-- Nothing is below a place that is no directory. -/
theorem get?_append_of_not_hasDirectory {tree : FileTree} {place : TreePath}
    (h : tree.hasDirectory place = false) (name : String) (more : TreePath) :
    tree.get? (place ++ name :: more) = none := by
  rw [get?_append]
  cases hget : tree.get? place with
  | none => rfl
  | some inner =>
    cases inner with
    | file content => rfl
    | directory entries => simp [hasDirectory, hget, isDirectory] at h

/-- After something was put at a path whose directory is there, exactly what is below that path
comes from it. Everything else is as before, up to what the directories hold. -/
theorem map_get?_put {α : Type} {look : FileTree → α}
    (hlook : ∀ entries, look (.directory entries) = look empty) {tree : FileTree}
    {path : TreePath} (h : tree.hasDirectory path.dropLast = true) (node : FileTree)
    (other : TreePath) :
    ((tree.put path node).get? other).map look =
      if path.isPrefixOf other then (node.get? (other.drop path.length)).map look
      else (tree.get? other).map look := by
  induction path generalizing tree other with
  | nil => simp [put]
  | cons name path ih =>
    cases tree with
    | file content => cases path <;> simp [hasDirectory, get?, isDirectory] at h
    | directory entries =>
      cases other with
      | nil => simp [put, hlook]
      | cons first other =>
        by_cases hfirst : name = first
        · subst hfirst
          simp only [put, get?, Entries.get?_put_same, List.isPrefixOf_cons_cons_self,
            List.length_cons, List.drop_succ_cons]
          cases path with
          | nil => simp [put]
          | cons second path =>
            cases hget : Entries.get? name entries with
            | none => simp [hasDirectory, get?, hget] at h
            | some inner =>
              have hinner : inner.hasDirectory (second :: path).dropLast = true := by
                simpa [hasDirectory, get?, hget] using h
              simpa using ih hinner other
        · simp [put, get?, Entries.get?_put_of_ne hfirst, List.isPrefixOf, hfirst]

/-- After something was put at a path whose directory is there, exactly the files below that
path come from it, and every other file is as before. -/
theorem read?_put {tree : FileTree} {path : TreePath} (h : tree.hasDirectory path.dropLast = true)
    (node : FileTree) (other : TreePath) :
    (tree.put path node).read? other =
      if path.isPrefixOf other then node.read? (other.drop path.length) else tree.read? other := by
  have hlook : ∀ entries, content? (.directory entries) = content? empty := fun _ => rfl
  have hbind : ∀ found : Option FileTree, found.bind content? = (found.map content?).bind id := by
    rintro (_ | found) <;> rfl
  simp only [read?, hbind, map_get?_put hlook h]
  split <;> rfl

/-- After something was put at a path whose directory is there, exactly the directories below that
path come from it, and every other directory is as before. -/
theorem hasDirectory_put {tree : FileTree} {path : TreePath}
    (h : tree.hasDirectory path.dropLast = true) (node : FileTree) (other : TreePath) :
    (tree.put path node).hasDirectory other =
      if path.isPrefixOf other then node.hasDirectory (other.drop path.length)
      else tree.hasDirectory other := by
  have hlook : ∀ entries, isDirectory (.directory entries) = isDirectory empty := fun _ => rfl
  have hany : ∀ found : Option FileTree,
      found.any isDirectory = (found.map isDirectory).any id := by
    rintro (_ | found) <;> rfl
  simp only [hasDirectory, hany, map_get?_put hlook h]
  split <;> rfl

/-! ## All files -/

mutual

/-- The files of a tree that stands below the names `above`, latest first. -/
def filesFrom (above : List String) : FileTree → List (TreePath × String)
  | .file content => [(above.reverse, content)]
  | .directory entries => filesOf above entries

/-- The files of the entries of a directory. -/
def filesOf (above : List String) : List (String × FileTree) → List (TreePath × String)
  | [] => []
  | (name, tree) :: rest => filesFrom (name :: above) tree ++ filesOf above rest

end

/-- All files with the names that lead to them. -/
def files (tree : FileTree) : List (TreePath × String) :=
  tree.filesFrom []

def pathText (path : TreePath) : String :=
  Text.join "/" path

/-- All files with the texts of their paths, in increasing order. -/
def listing (tree : FileTree) : List (String × String) :=
  (tree.files.map fun (path, content) => (pathText path, content)).mergeSort fun a b => a.1 ≤ b.1

end FileTree

end ServantGen
