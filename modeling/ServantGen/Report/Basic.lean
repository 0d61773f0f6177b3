import ServantGen.Diagnostic

/-!
# Reports

A report is a list of lines by meaning. What goes to which stream, and in which dress, is
decided only when the report is shown.
-/

namespace ServantGen

inductive ReportLine where
  | title (text : String)
  | section (name : String)
  | keyValue (key value : String)
  | listItem (text : String)
  | addedItem (text : String)
  | error (message : String)
  | warning (message : String)
  | divider (label : String)
  | preformatted (text : String)
  | newline
  deriving DecidableEq, Repr

namespace ReportLine

def ofDiagnostic (d : Diagnostic) : ReportLine :=
  let head := "[" ++ d.kind.name ++ "] " ++ d.message
  let message := match d.location with
    | some location => head ++ "\n  --> " ++ location
    | none => head
  match d.severity with
  | .error => .error message
  | .warning => .warning message
  | .info => .preformatted ("info: " ++ message)

def text : ReportLine → String
  | .title text => text ++ "\n" ++ Text.replicate text.length "=" ++ "\n"
  | .section name => name ++ ":\n"
  | .keyValue key value => key ++ ": " ++ value ++ "\n"
  | .listItem text => "  - " ++ text ++ "\n"
  | .addedItem text => "  + " ++ text ++ "\n"
  | .error message => "error: " ++ message ++ "\n"
  | .warning message => "warning: " ++ message ++ "\n"
  | .divider label => "── " ++ label ++ " ──\n"
  | .preformatted text => text ++ "\n"
  | .newline => "\n"

def isError : ReportLine → Bool
  | .error _ | .warning _ => true
  | _ => false

end ReportLine

abbrev Report := List ReportLine

namespace Report

def output (report : Report) : String :=
  String.join ((report.filter (!·.isError)).map ReportLine.text)

def errors (report : Report) : String :=
  String.join ((report.filter (·.isError)).map ReportLine.text)

end Report

/-- The ending of a noun that is counted. -/
def plural (count : Nat) : String :=
  if count = 1 then "" else "s"

end ServantGen
