import ServantGen.Output.Sink
import ServantGen.Pipeline
import ServantGen.Render.Plan

/-!
# Generation

One run of the generator: an interface is made from the document, all files are rendered, and
the rendered files go to a sink one after the other. What fails to render or to be written is
reported and does not keep the others from being written, unless a strict run was asked for:
then nothing is written when anything fails to render.
-/

namespace ServantGen

structure GenerateOptions where
  /-- Write nothing when a file fails to render. -/
  strict : Bool := false
  supportingFiles : Bool := true
  parallel : Bool := false
  deriving DecidableEq, Repr

def GenerateOptions.render (options : GenerateOptions) : RenderOptions :=
  ⟨options.supportingFiles, options.parallel⟩

structure FileOutcomes where
  written : List String
  skipped : List String
  /-- Files for which there was nothing to write. -/
  elided : List String
  deriving DecidableEq, Repr

structure Generation where
  files : FileOutcomes
  diagnostics : List Diagnostic

/-- A run of the generator without a result, with the paths that were written before. -/
structure GenerationFailure extends RunFailure where
  filesWritten : List String

namespace Generation

def warnings (generation : Generation) : List Diagnostic :=
  generation.diagnostics.filter (·.severity == .warning)

end Generation

def RenderNote.toDiagnostic (path : String) (note : RenderNote) : Diagnostic :=
  match note with
  | .renamed _ => ⟨.info, .identifierCollision, "render", note.message, some path⟩
  | .fallback _ => ⟨.warning, .unsupportedSchema, "render", note.message, some path⟩

def RenderedFile.diagnostics (strict : Bool) (file : RenderedFile) : List Diagnostic :=
  match file.result with
  | .error error =>
    [⟨if strict then .error else .warning, .templateRender, "render", error.message,
      some file.path⟩]
  | .ok (.file _ notes) => notes.map (RenderNote.toDiagnostic file.path)
  | .ok .elided => []

def RenderedFile.isFailed (file : RenderedFile) : Bool :=
  match file.result with
  | .error _ => true
  | .ok _ => false

/-- A file that could not be written, as a diagnostic. -/
def WriteError.toDiagnostic (path : String) (error : WriteError) : Diagnostic :=
  ⟨.warning, .outputWrite, "write", "failed to write file: " ++ error.message, some path⟩

structure Writing where
  files : FileOutcomes
  diagnostics : List Diagnostic

def writeFiles {σ : Type} (sink : Sink σ) : List RenderedFile → σ → Writing × σ
  | [], own => (⟨⟨[], [], []⟩, []⟩, own)
  | file :: rest, own =>
    match file.result with
    | .error _ => writeFiles sink rest own
    | .ok .elided =>
      let (writing, own) := writeFiles sink rest own
      ({ writing with files.elided := file.path :: writing.files.elided }, own)
    | .ok (.file content _) =>
      let (answer, own) := sink file.path content own
      let (writing, own) := writeFiles sink rest own
      match answer with
      | .written => ({ writing with files.written := file.path :: writing.files.written }, own)
      | .skipped => ({ writing with files.skipped := file.path :: writing.files.skipped }, own)
      | .failed error =>
        ({ writing with diagnostics := error.toDiagnostic file.path :: writing.diagnostics }, own)

/-- Render the files of an interface and hand them to a sink. -/
def generateFiles {σ : Type} (target : Target) (templates : List Template)
    (options : GenerateOptions) (sink : Sink σ) (built : BuiltApi) (own : σ) :
    Except GenerationFailure Generation × σ :=
  let rendered := renderAll templates ⟨built.api, target⟩ options.render
  let diagnostics := built.diagnostics ++ rendered.flatMap (·.diagnostics options.strict)
  let failed := rendered.countP RenderedFile.isFailed
  if options.strict && failed > 0 then
    (.error ⟨⟨.failed (.unrendered failed), diagnostics⟩, []⟩, own)
  else
    let (writing, own) := writeFiles sink rendered own
    (.ok ⟨writing.files, diagnostics ++ writing.diagnostics⟩, own)

/-- Run the generator on a document, with plugins and a sink that share a state. -/
def generateWith {σ : Type} (target : Target) (templates : List Template)
    (options : GenerateOptions) (plugins : List (Plugin σ)) (sink : Sink σ) (tree : Json)
    (own : σ) : Except GenerationFailure Generation × σ :=
  match buildApiWith tree target plugins own with
  | (.error failure, own) => (.error ⟨failure, []⟩, own)
  | (.ok built, own) => generateFiles target templates options sink built own

def generate {σ : Type} (target : Target) (templates : List Template) (options : GenerateOptions)
    (sink : Sink σ) (tree : Json) (own : σ) : Except GenerationFailure Generation × σ :=
  generateWith target templates options [] sink tree own

end ServantGen
