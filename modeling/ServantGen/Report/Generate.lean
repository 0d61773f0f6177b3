import ServantGen.Generation
import ServantGen.Report.Basic

/-!
# The report of a generation

What was written where, or would be, or why nothing was.
-/

namespace ServantGen

inductive GenerateOutcome where
  /-- Files were written to a directory, and snapshots to another one if asked for. -/
  | written (outputDir : String) (files : FileOutcomes) (snapshotDir : Option String)
  /-- The files that would be written. -/
  | preview (files : List (String × String))
  | failed (error : String) (filesWritten : List String)
  /-- The generation goes on without end. -/
  | endless

/-- How a run of the generator without a result ended, if it did. -/
def GenerationFailure.outcome (failure : GenerationFailure) : GenerateOutcome :=
  match failure.reason with
  | .failed error => .failed error.message failure.filesWritten
  | .endless => .endless

structure GenerateReport where
  /-- Title and version of the document, if it could be read. -/
  api : Option String
  /-- The name of the target. -/
  target : String
  diagnostics : List Diagnostic
  outcome : GenerateOutcome

namespace GenerateReport

def succeeded (report : GenerateReport) : Bool :=
  match report.outcome with
  | .failed .. | .endless => false
  | .written .. | .preview _ => true

/-- A section with items, if there are any, after an empty line. -/
def optionalSection (name : String) (items : List String) : Report :=
  if items.isEmpty then []
  else [.newline, .section name] ++ items.map ReportLine.listItem

def writtenLines (report : GenerateReport) (outputDir : String) (files : FileOutcomes)
    (snapshotDir : Option String) : Report :=
  (match snapshotDir with
    | some dir => [.keyValue "Pipeline snapshots written to" dir, .newline]
    | none => []) ++
    (report.api.map ReportLine.preformatted).toList ++
    [.keyValue "Target" report.target, .newline, .section ("Generated in " ++ outputDir)] ++
    files.written.map ReportLine.addedItem ++
    optionalSection "Kept existing files" files.skipped ++
    optionalSection "Nothing to generate" files.elided

def lines (report : GenerateReport) : Report :=
  report.diagnostics.map ReportLine.ofDiagnostic ++
    match report.outcome with
    | .written outputDir files snapshotDir => report.writtenLines outputDir files snapshotDir
    | .preview files =>
      files.flatMap (fun (path, content) => [.divider path, .preformatted content]) ++
        [.divider "Summary",
         .preformatted (Text.decimal files.length ++ " files would be generated")]
    | .failed error filesWritten =>
      .error error ::
        if filesWritten.isEmpty then []
        else .section "Written before the failure" :: filesWritten.map ReportLine.listItem
    | .endless => []

end GenerateReport

/-- Title and version of a document that can be read. -/
def apiHeading? (tree : Json) : Option String :=
  match Document.ofTree tree with
  | .ok document => some (document.info.title ++ " v" ++ document.info.version)
  | .error _ => none

/-! ## Runs below a directory -/

/-- A run of the generator: where files go, and whether they are only shown. -/
structure GenerateRun where
  /-- The directory that files are written to. -/
  output : String
  options : GenerateOptions
  /-- Show the files instead of writing them. -/
  dryRun : Bool
  /-- The directory that snapshots are written to. -/
  snapshots : Option String

/-- The files on disk, and those that are only shown. -/
structure Workspace where
  disk : FileSystem
  shown : MemoryFiles

namespace Workspace

def writeSnapshot (directory : WrittenPath) (snapshot : Snapshot) : RunM Workspace Unit := do
  let (state, workspace) ← get
  let (error, disk) := workspace.disk.writeInto directory snapshot.fileName snapshot.text
  set (state, { workspace with disk })
  match error with
  | none => return
  | some error => RunM.fail (.other error.message)

def shownSink : Sink Workspace :=
  fun path content workspace =>
    let (answer, shown) := MemoryFiles.sink path content workspace.shown
    (answer, { workspace with shown })

def diskSink (directory : WrittenPath) : Sink Workspace :=
  fun path content workspace =>
    let (answer, disk) := directorySink directory .always path content workspace.disk
    (answer, { workspace with disk })

end Workspace

namespace GenerateRun

/-- Where the files of a run go. -/
def sink (run : GenerateRun) : Sink Workspace :=
  if run.dryRun then Workspace.shownSink else Workspace.diskSink (.ofText run.output)

def plugins (run : GenerateRun) : List (Plugin Workspace) :=
  (run.snapshots.map fun directory =>
    snapshotPlugin (Workspace.writeSnapshot (.ofText directory))).toList

def outcome (run : GenerateRun) (workspace : Workspace) :
    Except GenerationFailure Generation → GenerateOutcome
  | .error failure => failure.outcome
  | .ok generation =>
    if run.dryRun then .preview workspace.shown
    else .written run.output generation.files run.snapshots

def execute (run : GenerateRun) (target : Target) (templates : List Template) (tree : Json)
    (disk : FileSystem) : GenerateReport × FileSystem :=
  let (result, workspace) :=
    generateWith target templates run.options run.plugins run.sink tree ⟨disk, []⟩
  let diagnostics := match result with
    | .ok generation => generation.diagnostics
    | .error failure => failure.diagnostics
  (⟨apiHeading? tree, target.name, diagnostics, run.outcome workspace result⟩, workspace.disk)

end GenerateRun

end ServantGen
