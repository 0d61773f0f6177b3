import ServantGen.DataType
import ServantGen.Text.Split

/-!
# Types in Haskell

How types are written, and which imports they need. Inside another type a type stands in
parentheses when its text has a blank outside of all brackets.
-/

namespace ServantGen.Haskell

def primitiveName : Primitive → String
  | .string | .binary => "Text"
  | .int32 => "Int"
  | .int64 => "Integer"
  | .float => "Float"
  | .double => "Double"
  | .bool => "Bool"
  | .date => "Day"
  | .dateTime => "UTCTime"
  | .uuid => "UUID"
  | .any => "Value"

/-- Whether a text has a blank outside of brackets, `depth` of which are open. -/
def hasOuterBlank : Nat → List Char → Bool
  | _, [] => false
  | depth, c :: rest =>
    if c = '[' || c = '(' then hasOuterBlank (depth + 1) rest
    else if c = ']' || c = ')' then hasOuterBlank (depth - 1) rest
    else if c = ' ' && depth = 0 then true
    else hasOuterBlank depth rest

def asArgument (text : String) : String :=
  if hasOuterBlank 0 text.toList then "(" ++ text ++ ")" else text

def typeText : DataType → String
  | .primitive kind => primitiveName kind
  | .array item => "[" ++ typeText item ++ "]"
  | .map value => "Map Text " ++ asArgument (typeText value)
  | .optional inner => "Maybe " ++ asArgument (typeText inner)
  | .named name | .enum name _ => name

/-- A type in Haskell as an argument. -/
def atomText (type : DataType) : String :=
  asArgument (typeText type)

/-! ## Imports -/

structure Import where
  module : String
  name : String
  deriving DecidableEq, Repr

def primitiveImports : Primitive → List Import
  | .string | .binary => [⟨"Data.Text", "Text"⟩]
  | .date => [⟨"Data.Time", "Day"⟩]
  | .dateTime => [⟨"Data.Time", "UTCTime"⟩]
  | .uuid => [⟨"Data.UUID", "UUID"⟩]
  | .any => [⟨"Data.Aeson", "Value"⟩]
  | .int32 | .int64 | .float | .double | .bool => []

def typeImports (type : DataType) : List Import :=
  type.parts.flatMap fun
    | .primitive kind => primitiveImports kind
    | .map _ => [⟨"Data.Map.Strict", "Map"⟩, ⟨"Data.Text", "Text"⟩]
    | _ => []

def sortedOnce (texts : List String) : List String :=
  (texts.mergeSort fun a b => a ≤ b).eraseDups

/-- The import lines for a list of imports: modules and names in increasing order. -/
def importLines (imports : List Import) : List String :=
  (sortedOnce (imports.map Import.module)).map fun module =>
    let names := (imports.filter (·.module == module)).map Import.name
    "import " ++ module ++ " (" ++ Text.join ", " (sortedOnce names) ++ ")"

end ServantGen.Haskell
