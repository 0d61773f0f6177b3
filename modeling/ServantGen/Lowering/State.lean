import ServantGen.Api.Basic
import ServantGen.Diagnostic
import ServantGen.Naming.Book

/-!
# The state of lowering

Lowering turns a document into an interface. It keeps the identifiers handed out so far, the
models, the identifiers of the named schemas and what there is to remark. Types of schemas
are found by a recursion that can follow references in circles; a computation of `SchemaM`
has no result exactly when the depth allowed for that recursion does not suffice, and never
fails otherwise.
-/

namespace ServantGen.Lowering

/-- What is lowered, and for which target. -/
structure Setting where
  document : Document
  target : Target

/-- Something to remark while a document is lowered. -/
inductive Remark where
  | renamed (collision : Collision)
  | arrayWithoutItems
  | unknownType (name : String)
  | unresolvedReference (reference : String)
  | nestedTooDeeply (reference : String)
  | mixedComponent (component : String)
  | unknownLocation (parameter location : String)
  | extraBody (parameter : String)
  | noSchema (parameter : String)
  | invalidStatus (key : String)
  deriving DecidableEq, Repr

namespace Remark

/-- A renamed identifier is information; anything else is a warning. -/
def severity : Remark → Severity
  | .renamed _ => .info
  | _ => .warning

def kind : Remark → DiagnosticKind
  | .renamed _ => .identifierCollision
  | .mixedComponent _ => .unsupportedPathSegment
  | _ => .unsupportedSchema

def message : Remark → String
  | .renamed collision => collision.message
  | .arrayWithoutItems => "array schema without 'items'; using an array of any"
  | .unknownType name => "unsupported schema type '" ++ name ++ "'; using any"
  | .unresolvedReference reference => "unresolved reference '" ++ reference ++ "'; using any"
  | .nestedTooDeeply reference => "reference '" ++ reference ++ "' nests too deeply; using any"
  | .mixedComponent component =>
    "path component '" ++ component ++ "' mixes text and a placeholder; kept as literal"
  | .unknownLocation parameter location =>
    "parameter '" ++ parameter ++ "' has unsupported location '" ++ location ++ "'; skipped"
  | .extraBody parameter => "additional body parameter '" ++ parameter ++ "' skipped"
  | .noSchema parameter => "parameter '" ++ parameter ++ "' declares no schema; using any"
  | .invalidStatus key => "invalid response status '" ++ key ++ "'; skipped"

end Remark

/-- A remark and the part of the document it is about. -/
structure Notice where
  remark : Remark
  location : String
  deriving DecidableEq, Repr

def phaseName : String := "lower"

def Notice.toDiagnostic (notice : Notice) : Diagnostic :=
  ⟨notice.remark.severity, notice.remark.kind, phaseName, notice.remark.message,
    some notice.location⟩

/-- What lowering keeps. -/
structure State where
  names : NameBook
  models : ModelTable
  /-- The model of each named schema. -/
  schemaNames : Entries String
  /-- How many references to nodes other than named schemas are being followed. -/
  inlineDepth : Nat
  /-- The notices in order. -/
  notices : List Notice

def State.initial : State :=
  ⟨.empty, .empty, [], 0, []⟩

/-- Computations on the state; without a result when their depth does not suffice. -/
abbrev SchemaM := StateT State Option

/-- Computations that may find an error in the document. The state outlives the error. -/
abbrev OperationM := ExceptT BuildError SchemaM

def remark (remark : Remark) (location : String) : SchemaM Unit :=
  modify fun state => { state with notices := state.notices ++ [⟨remark, location⟩] }

/-- Remark on an identifier that was renamed, and answer its name. -/
def noted (identifier : Identifier) (location : String) : SchemaM String := do
  match identifier.collision with
  | some collision => remark (.renamed collision) location
  | none => pure ()
  return identifier.name

def insertModel (model : Model) : SchemaM Unit :=
  modify fun state => { state with models := state.models.insert model }

def claimed (claim : NameBook → Identifier × NameBook) (location : String) : SchemaM String := do
  let state ← get
  let (identifier, names) := claim state.names
  set { state with names }
  noted identifier location

def claimType (setting : Setting) (raw location : String) : SchemaM String :=
  claimed (NameBook.claimType setting.target raw) location

def freshType (setting : Setting) (hint location : String) : SchemaM String :=
  claimed (NameBook.freshType setting.target hint) location

def freshFunction (setting : Setting) (raw location : String) : SchemaM String :=
  claimed (NameBook.freshFunction setting.target raw) location

end ServantGen.Lowering
