import ServantGen.Api.Basic
import ServantGen.Report.Basic

/-!
# The report on an interface

Its routes and models, one on a line.
-/

namespace ServantGen

def Model.summary (model : Model) : String :=
  match model.shape with
  | .record fields =>
    "record (" ++ Text.decimal fields.length ++ " field" ++ plural fields.length ++ ")"
  | .enum values => "enum (" ++ Text.join " | " values ++ ")"
  | .union variants =>
    let head := "union of " ++ Text.join ", " variants
    match model.discriminator with
    | some discriminator => head ++ " by '" ++ discriminator.property ++ "'"
    | none => head
  | .alias _ => "alias"

def Operation.heading (operation : Operation) : String :=
  operation.method.name ++ " " ++ operation.path.text

/-- A text with blanks behind it up to a number of characters. -/
def padded (width : Nat) (text : String) : String :=
  text ++ Text.replicate (width - text.length) " "

def Operation.routeLine (width : Nat) (operation : Operation) : String :=
  padded width operation.heading ++ "  " ++ operation.id ++
    if operation.deprecated then " (deprecated)" else ""

/-- The width of the column of routes: the largest number of bytes. -/
def routeWidth (operations : List Operation) : Nat :=
  operations.foldl (fun width operation => max width operation.heading.utf8ByteSize) 0

def inspect (api : Api) : Report :=
  let operations := api.operations
  let models := api.models.models
  [.title (api.info.title ++ " v" ++ api.info.version)] ++
    (api.info.description.map ReportLine.preformatted).toList ++
    [.newline, .section ("Routes (" ++ Text.decimal operations.length ++ ")")] ++
    operations.map (fun operation => .listItem (operation.routeLine (routeWidth operations))) ++
    if models.isEmpty then []
    else
      [.newline, .section ("Models (" ++ Text.decimal models.length ++ ")")] ++
        models.map fun model => .listItem (model.name ++ ": " ++ model.summary)

end ServantGen
