/-!
# Types of values

The types of fields, parameters, bodies and headers, independent of any programming
language. Objects are referred to by the name of a model.
-/

namespace ServantGen

/-- Types without parts. -/
inductive Primitive where
  | string
  | int32
  | int64
  | float
  | double
  | bool
  | date
  | dateTime
  | uuid
  | binary
  /-- Any JSON value. -/
  | any
  deriving DecidableEq, Repr, Inhabited

def Primitive.name : Primitive → String
  | .string => "string"
  | .int32 => "int32"
  | .int64 => "int64"
  | .float => "float"
  | .double => "double"
  | .bool => "bool"
  | .date => "date"
  | .dateTime => "date-time"
  | .uuid => "uuid"
  | .binary => "binary"
  | .any => "any"

/-- A type of values. -/
inductive DataType where
  | primitive (kind : Primitive)
  | array (item : DataType)
  /-- A map from texts. -/
  | map (value : DataType)
  /-- The values of a model. -/
  | named (model : String)
  /-- The values of a type, or none. -/
  | optional (inner : DataType)
  /-- One of the listed texts. -/
  | enum (name : String) (values : List String)
  deriving DecidableEq, Repr, Inhabited

namespace DataType

abbrev any : DataType := .primitive .any

abbrev string : DataType := .primitive .string

/-- Whether the type admits no value at the outermost level. -/
def isOptional : DataType → Bool
  | .optional _ => true
  | _ => false

/-- The type that also admits no value. -/
def orNone (type : DataType) : DataType :=
  if type.isOptional then type else .optional type

/-- The type without its outermost option. -/
def stripOptional : DataType → DataType
  | .optional inner => inner
  | type => type

def isAny : DataType → Bool
  | .primitive .any => true
  | _ => false

/-- The type and the types inside it, from the outside in. -/
def parts : DataType → List DataType
  | type@(.array inner) | type@(.map inner) | type@(.optional inner) => type :: inner.parts
  | type => [type]

def models (type : DataType) : List String :=
  type.parts.filterMap fun
    | .named model => some model
    | _ => none

def enums (type : DataType) : List (String × List String) :=
  type.parts.filterMap fun
    | .enum name values => some (name, values)
    | _ => none

@[simp] theorem isOptional_orNone (type : DataType) : type.orNone.isOptional = true := by
  unfold orNone
  split <;> simp_all [isOptional]

@[simp] theorem orNone_orNone (type : DataType) : type.orNone.orNone = type.orNone := by
  simp [orNone.eq_def type.orNone]

end DataType

end ServantGen
