import ServantGen.CommandLine.Run

/-!
# The program

Takes the files that a run may read from the disk, runs, and writes the files that the run
changed.
-/

namespace ServantGen.CommandLine

/-- Add the file that a path leads to, if it can be read. -/
def addInput (files : FileSystem) (text : String) : IO FileSystem := do
  try
    let content ← IO.FS.readFile text
    return (files.write (.ofText text) content).2
  catch _ => return files

/-- Write a file with the directories that lead to it. -/
def writeOutput (path : TreePath) (content : String) : IO Unit := do
  IO.FS.createDirAll ("/" ++ FileTree.pathText path.dropLast)
  IO.FS.writeFile ("/" ++ FileTree.pathText path) content

/-- The status of a run that was given up. -/
def abortedStatus : UInt32 := 134

end ServantGen.CommandLine

open ServantGen CommandLine

/-- Run the program. A run without end is given up and leaves nothing behind. -/
def main (arguments : List String) : IO UInt32 := do
  let working := (WrittenPath.ofText (toString (← IO.currentDir))).names
  let files ← (inputPaths arguments).foldlM addInput (FileSystem.within working)
  let some outcome := CommandLine.run files arguments | return abortedStatus
  for (path, content) in outcome.files.root.files do
    if files.root.read? path ≠ some content then writeOutput path content
  IO.print outcome.output
  IO.eprint outcome.errors
  return outcome.status.toUInt32
