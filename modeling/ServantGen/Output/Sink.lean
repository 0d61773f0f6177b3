import ServantGen.Output.FileSystem

/-!
# Where generated files go

A sink takes files one after the other and answers for each whether it was written. Sinks are
values: writing turns one state into the next. There is a sink that keeps files in memory and
one that writes below a directory and never outside of it.
-/

namespace ServantGen

inductive WriteError where
  /-- The system refused. -/
  | system (error : FileError)
  /-- The path would lead out of the directory. -/
  | outside (path : String)
  | other (message : String)
  deriving DecidableEq, Repr

def WriteError.message : WriteError → String
  | .system error => error.message
  | .outside path => "refusing to write outside the output directory: " ++ path
  | .other message => message

inductive WriteAnswer where
  | written
  /-- The file was there already and stays as it is. -/
  | skipped
  | failed (error : WriteError)
  deriving DecidableEq, Repr

/-- A way to write a file by its path and content. -/
abbrev Sink (σ : Type) := String → String → σ → WriteAnswer × σ

/-- Files in the order in which their paths were first written. -/
abbrev MemoryFiles := Entries String

def MemoryFiles.sink : Sink MemoryFiles :=
  fun path content files => (.written, files.put path content)

/-- What becomes of files that are there already. -/
inductive Overwrite where
  | always
  | ifMissing
  deriving DecidableEq, Repr, Inhabited

/-- The names below a directory that a text leads through, unless a part leads upwards. -/
def insideNames? (text : String) : Option (List String) :=
  let parts := Text.splitOn '/' text
  if parts.contains ".." then none else some (parts.filter (!WrittenPath.isIdle ·))

def directorySink (base : WrittenPath) (overwrite : Overwrite) : Sink FileSystem :=
  fun path content system =>
    match insideNames? path with
    | none => (.failed (.outside path), system)
    | some names =>
      let full := base.join names
      if overwrite = .ifMissing && system.holds full then (.skipped, system)
      else match system.write full content with
        | (none, system) => (.written, system)
        | (some error, system) => (.failed (.system error), system)

end ServantGen
