import ServantGen.Document.Reading

/-!
# Diagnostics

What a run has to say besides its result, and the errors that end the construction of an
interface.
-/

namespace ServantGen

inductive Severity where
  | error
  | warning
  | info
  deriving DecidableEq, Repr, Inhabited

def Severity.name : Severity → String
  | .error => "error"
  | .warning => "warning"
  | .info => "info"

inductive DiagnosticKind where
  | malformedSpec
  | unboundPathParameter
  | unsupportedSchema
  | unsupportedPathSegment
  | templateRender
  | identifierCollision
  | outputWrite
  deriving DecidableEq, Repr, Inhabited

def DiagnosticKind.words : DiagnosticKind → List String
  | .malformedSpec => ["malformed", "spec"]
  | .unboundPathParameter => ["unbound", "path", "parameter"]
  | .unsupportedSchema => ["unsupported", "schema"]
  | .unsupportedPathSegment => ["unsupported", "path", "segment"]
  | .templateRender => ["template", "render"]
  | .identifierCollision => ["identifier", "collision"]
  | .outputWrite => ["output", "write"]

def DiagnosticKind.name (kind : DiagnosticKind) : String :=
  Text.join "-" kind.words

def DiagnosticKind.key (kind : DiagnosticKind) : String :=
  Text.join "_" kind.words

/-- A message of a phase of a run. -/
structure Diagnostic where
  severity : Severity
  kind : DiagnosticKind
  phase : String
  message : String
  location : Option String
  deriving DecidableEq, Repr

def Diagnostic.text (d : Diagnostic) : String :=
  let head := d.severity.name ++ "[" ++ d.kind.name ++ "]: " ++ d.message
  match d.location with
  | some location => head ++ " (at " ++ location ++ ")"
  | none => head

/-- Why no interface could be made from a document. -/
inductive BuildError where
  | malformed (detail : String) (location : Option String)
  /-- A placeholder of a route without a path parameter of its name. -/
  | unboundPathParameter (method path name : String)
  deriving DecidableEq, Repr

namespace BuildError

def message : BuildError → String
  | .malformed detail _ => "malformed specification: " ++ detail
  | .unboundPathParameter method path name =>
    "path placeholder '" ++ name ++ "' in " ++ method ++ " " ++ path ++
      " has no declared path parameter"

def kind : BuildError → DiagnosticKind
  | .malformed .. => .malformedSpec
  | .unboundPathParameter .. => .unboundPathParameter

def location? : BuildError → Option String
  | .malformed _ location => location
  | .unboundPathParameter method path _ => some ("paths." ++ path ++ "." ++ Text.lower method)

def toDiagnostic (phase : String) (error : BuildError) : Diagnostic :=
  ⟨.error, error.kind, phase, error.message, error.location?⟩

/-- An error of reading. An error about a named part is located there; any other is quoted. -/
def ofReadError (error : ReadError) : BuildError :=
  match error.section? with
  | some "" | none => .malformed error.message none
  | some part => .malformed error.detail (some part)

def located (location : String) : BuildError → BuildError
  | .malformed detail none => .malformed detail (some location)
  | error => error

end BuildError

end ServantGen
