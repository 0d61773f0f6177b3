import ServantGen.Api.Encode
import ServantGen.Json.Printer
import ServantGen.Lowering.Run

/-!
# Runs of phases

An interface is made in phases: the document is read, then lowered, then any further phases
run. Plugins are called before and after each phase; they may look at the run, change it or
stop it. What plugins keep for themselves is a state of any type. A run that stops keeps what
was recorded until then. A run that goes on without end has no result at all, which is no error
of the run and has no message.
-/

namespace ServantGen

/-- What a run has made so far. -/
structure RunState where
  api : Option Api
  diagnostics : List Diagnostic

def RunState.initial : RunState := ⟨none, []⟩

/-- Why a run stopped. -/
inductive RunError where
  | build (error : BuildError)
  /-- The run ended without an interface. -/
  | noApi
  /-- Files could not be rendered when all were required. -/
  | unrendered (count : Nat)
  | other (message : String)
  deriving DecidableEq, Repr

def RunError.message : RunError → String
  | .build error => error.message
  | .noApi => "the pipeline produced no IR"
  | .unrendered count => Text.decimal count ++ " file(s) failed to render; nothing was written"
  | .other message => message

/-- Why a run has no result: it failed, or it goes on without end. -/
inductive NoResult where
  | failed (error : RunError)
  | endless
  deriving DecidableEq, Repr

/-- Computations of a run whose plugins keep a state of type `σ`. -/
abbrev RunM (σ : Type) := ExceptT NoResult (StateM (RunState × σ))

structure Phase (σ : Type) where
  name : String
  run : RunM σ Unit

/-- A plugin: what to do before and after a phase of a name. -/
structure Plugin (σ : Type) where
  name : String
  before : String → RunM σ Unit
  after : String → RunM σ Unit

namespace RunM

variable {σ : Type}

def fail {α : Type} (error : RunError) : RunM σ α :=
  throw (.failed error)

def report (diagnostics : List Diagnostic) : RunM σ Unit :=
  modify fun (state, own) =>
    ({ state with diagnostics := state.diagnostics ++ diagnostics }, own)

def setApi (api : Option Api) : RunM σ Unit :=
  modify fun (state, own) => ({ state with api }, own)

end RunM

section Phases

variable {σ : Type}

def readPhase (tree : Json) : Phase σ where
  name := "read"
  run :=
    match Document.ofTree tree >>= Document.operations with
    | .ok _ => pure ()
    | .error error => RunM.fail (.build (.ofReadError error))

def lowerPhase (tree : Json) (target : Target) : Phase σ where
  name := Lowering.phaseName
  run := do
    let document ← match Document.ofTree tree with
      | .ok document => pure document
      | .error error => RunM.fail (.build (.ofReadError error))
    match Lowering.run ⟨document, target⟩ with
    | none => throw .endless
    | some result =>
      RunM.report (result.notices.map Lowering.Notice.toDiagnostic)
      match result.outcome with
      | .ok api => RunM.setApi (some api)
      | .error error =>
        RunM.report [error.toDiagnostic Lowering.phaseName]
        RunM.fail (.build error)

/-- Run a phase between the plugins. -/
def Phase.runWith (plugins : List (Plugin σ)) (phase : Phase σ) : RunM σ Unit := do
  plugins.forM fun plugin => plugin.before phase.name
  phase.run
  plugins.forM fun plugin => plugin.after phase.name

/-- Run the phases of every run, then further ones. -/
def runPhases (tree : Json) (target : Target) (plugins : List (Plugin σ))
    (further : List (Phase σ)) : RunM σ Unit :=
  (readPhase tree :: lowerPhase tree target :: further).forM (Phase.runWith plugins)

end Phases

/-! ## Snapshots -/

/-- The state of a run after a phase. -/
structure Snapshot where
  phase : String
  api : Option Api
  diagnostics : List Diagnostic

namespace Snapshot

/-- A snapshot in JSON; the interface is left out when there is none. -/
def toJson (snapshot : Snapshot) : Json :=
  .object ([("phase", .string snapshot.phase)] ++
    (snapshot.api.map fun api => ("ir", api.toJson)).toList ++
    [("diagnostics", .array (snapshot.diagnostics.map Diagnostic.toJson))])

def fileName (snapshot : Snapshot) : String :=
  snapshot.phase ++ ".json"

/-- The content of the file of a snapshot. -/
def text (snapshot : Snapshot) : String :=
  snapshot.toJson.pretty

end Snapshot

/-- A plugin that hands a snapshot to `keep` after each phase. -/
def snapshotPlugin {σ : Type} (keep : Snapshot → RunM σ Unit) : Plugin σ where
  name := "snapshot"
  before := fun _ => pure ()
  after := fun phase => do
    let (state, _) ← get
    keep ⟨phase, state.api, state.diagnostics⟩

/-! ## Building an interface -/

/-- An interface and what was recorded while it was made. -/
structure BuiltApi where
  api : Api
  diagnostics : List Diagnostic

/-- A run without a result: why, and what was recorded. -/
structure RunFailure where
  reason : NoResult
  diagnostics : List Diagnostic

/-- Make an interface from a document, with plugins that keep a state. -/
def buildApiWith {σ : Type} (tree : Json) (target : Target) (plugins : List (Plugin σ)) (own : σ) :
    Except RunFailure BuiltApi × σ :=
  let (outcome, state, own) := (runPhases tree target plugins []).run.run (.initial, own)
  let result := match outcome with
    | .error reason => .error ⟨reason, state.diagnostics⟩
    | .ok () =>
      match state.api with
      | some api => .ok ⟨api, state.diagnostics⟩
      | none => .error ⟨.failed .noApi, state.diagnostics⟩
  (result, own)

def buildApi (tree : Json) (target : Target) : Except RunFailure BuiltApi :=
  (buildApiWith tree target ([] : List (Plugin Unit)) ()).1

end ServantGen
