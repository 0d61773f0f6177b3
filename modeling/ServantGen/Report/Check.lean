import ServantGen.Pipeline
import ServantGen.Report.Basic

/-!
# The report of a check

Whether an interface can be made from a document, and how much is in it.
-/

namespace ServantGen

structure CheckReport where
  /-- The path of the document as it was given. -/
  specPath : String
  diagnostics : List Diagnostic
  /-- Why there is no interface, if there is none. -/
  error : Option String
  operationCount : Nat
  modelCount : Nat

namespace CheckReport

def isValid (report : CheckReport) : Bool :=
  report.error.isNone

/-- The report of a run without a result, if it comes to an end. -/
def ofFailure? (specPath : String) (failure : RunFailure) : Option CheckReport :=
  match failure.reason with
  | .failed error => some ⟨specPath, failure.diagnostics, some error.message, 0, 0⟩
  | .endless => none

def lines (report : CheckReport) : Report :=
  report.diagnostics.map ReportLine.ofDiagnostic ++
    (if report.diagnostics.isEmpty then [] else [.newline]) ++
    match report.error with
    | some error => [.error error]
    | none =>
      [.preformatted ("✓ " ++ report.specPath ++ " is valid"),
       .preformatted ("  " ++ Text.decimal report.operationCount ++ " operation" ++
        plural report.operationCount ++ ", " ++ Text.decimal report.modelCount ++ " model" ++
        plural report.modelCount)]

end CheckReport

/-- Check a document for a target. There is no report if this has no end. -/
def check? (specPath : String) (tree : Json) (target : Target) : Option CheckReport :=
  match buildApi tree target with
  | .error failure => CheckReport.ofFailure? specPath failure
  | .ok built =>
    some ⟨specPath, built.diagnostics, none, built.api.operations.length,
      built.api.models.models.length⟩

end ServantGen
