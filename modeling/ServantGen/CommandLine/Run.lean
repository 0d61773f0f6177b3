import ServantGen.CommandLine.Help
import ServantGen.Document.Source
import ServantGen.Report.Check
import ServantGen.Report.Generate
import ServantGen.Report.Inspect
import ServantGen.Settings.Reading
import ServantGen.Targets

/-!
# Runs of the program

A run turns arguments and files into a status, two texts and
the files afterwards. Settings are loaded before the document. A run fails with status one
when either cannot be read or the work itself fails, and with status two when the arguments
cannot be read. A run that goes on without end leaves nothing behind.
-/

namespace ServantGen.CommandLine

/-- What a run leaves behind. -/
structure Outcome where
  status : Nat
  output : String
  errors : String
  files : FileSystem

/-- Why a run cannot start. -/
inductive LoadError where
  | settingsUnreadable (path : String) (error : FileError)
  | settingsInvalid (path : String)
  | source (error : SourceError)
  deriving DecidableEq, Repr

def LoadError.message : LoadError → String
  | .settingsUnreadable path error => "failed to read " ++ path ++ ": " ++ error.message
  | .settingsInvalid path => "in " ++ path ++ ": invalid configuration"
  | .source error => error.message

def defaultSettingsPath : String := "apigen.toml"

def defaultOutput : String := "generated"

def readSettings (files : FileSystem) (path : String) : Except LoadError Settings :=
  match files.readFile (.ofText path) with
  | .error error => .error (.settingsUnreadable path error)
  | .ok content =>
    match Settings.parse content with
    | .ok settings => .ok settings
    | .error _ => .error (.settingsInvalid path)

/-- The settings of a run; without a path they may be missing. -/
def loadSettings (files : FileSystem) : Option String → Except LoadError Settings
  | some path => readSettings files path
  | none =>
    if files.holds (.ofText defaultSettingsPath) then
      readSettings files defaultSettingsPath
    else .ok {}

structure Loaded where
  tree : Json
  settings : Settings
  targetName : TargetName
  target : Target

def load (files : FileSystem) (source : DocumentArguments) : Except LoadError Loaded := do
  let settings ← loadSettings files source.settings
  let targetName := (source.target.or settings.generate.target).getD .haskellServant
  let target := settings.target.apply targetName.target
  match readSource files source.document with
  | .error error => .error (.source error)
  | .ok tree => return ⟨tree, settings, targetName, target⟩

def Outcome.ofReport (succeeded : Bool) (report : Report) (files : FileSystem) : Outcome :=
  ⟨if succeeded then 0 else 1, report.output, report.errors, files⟩

def Outcome.ofLoadError (error : LoadError) (files : FileSystem) : Outcome :=
  ⟨1, "", "Error: " ++ error.message ++ "\n", files⟩

def runCheck (source : DocumentArguments) (loaded : Loaded) (files : FileSystem) :
    Option Outcome := do
  let report ← ServantGen.check? source.document loaded.tree loaded.target
  return .ofReport report.isValid report.lines files

def runInspect (source : DocumentArguments) (json : Bool) (loaded : Loaded) (files : FileSystem) :
    Option Outcome :=
  match buildApi loaded.tree loaded.target with
  | .error failure => do
    let report ← CheckReport.ofFailure? source.document failure
    return .ofReport false report.lines files
  | .ok built =>
    if json then some ⟨0, built.api.toJson.pretty ++ "\n", "", files⟩
    else some (.ofReport true (inspect built.api) files)

def generateRun (arguments : GenerateArguments) (settings : GenerateSettings) : GenerateRun where
  output := (arguments.output.or settings.output).getD defaultOutput
  options :=
    { strict := arguments.strict || settings.strict.getD false
      supportingFiles := !arguments.noSupportingFiles && settings.supportingFiles.getD true
      parallel := arguments.parallel || settings.parallel.getD false }
  dryRun := arguments.dryRun
  snapshots := arguments.snapshotDir

def runGenerate (files : FileSystem) (arguments : GenerateArguments) (loaded : Loaded) :
    Option Outcome :=
  let run := generateRun arguments loaded.settings.generate
  let (report, files) := run.execute loaded.target loaded.targetName.templates loaded.tree files
  match report.outcome with
  | .endless => none
  | _ => some (.ofReport report.succeeded report.lines files)

def withLoaded (files : FileSystem) (source : DocumentArguments)
    (work : Loaded → Option Outcome) : Option Outcome :=
  match load files source with
  | .error error => some (.ofLoadError error files)
  | .ok loaded => work loaded

def runCommand (files : FileSystem) (command : Command) : Option Outcome :=
  match command with
  | .generate arguments => withLoaded files arguments.source (runGenerate files arguments)
  | .check source => withLoaded files source fun loaded => runCheck source loaded files
  | .inspect source json =>
    withLoaded files source fun loaded => runInspect source json loaded files
  | .completions shell => some ⟨0, completionScript shell, "", files⟩

/-- Run the program. There is no outcome when the run goes on without end. -/
def run (files : FileSystem) (arguments : List String) : Option Outcome :=
  match readArguments arguments with
  | .error error => some ⟨2, "", "error: " ++ error.message ++ "\n\n" ++ helpText none, files⟩
  | .ok (.help command) => some ⟨0, helpText command, "", files⟩
  | .ok .version => some ⟨0, versionText, "", files⟩
  | .ok (.run command) => runCommand files command

def Command.source? : Command → Option DocumentArguments
  | .generate arguments => some arguments.source
  | .check source | .inspect source _ => some source
  | .completions _ => none

def inputPaths (arguments : List String) : List String :=
  match readArguments arguments with
  | .ok (.run command) =>
    match command.source? with
    | some source => [source.settings.getD defaultSettingsPath, source.document]
    | none => []
  | _ => []

end ServantGen.CommandLine
