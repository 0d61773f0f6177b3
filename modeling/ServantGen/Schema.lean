import ServantGen.DataType
import ServantGen.Json.Basic

/-!
# What a schema declares by itself

The declared type of a schema, whether it admits `null`, and the primitive type that a type
and a format stand for.
-/

namespace ServantGen.Schema

/-- The names in a list of types other than `null`, in order. -/
def typeNames (items : List Json) : List String :=
  (items.filterMap Json.string?).filter (· ≠ "null")

/-- The declared type of a schema: a name, or the first name of a list that is not `null`. -/
def typeName? (schema : Json) : Option String :=
  match schema.get? "type" with
  | some (.string name) => some name
  | some (.array items) => (typeNames items).head?
  | _ => none

/-- Whether a schema admits `null`, said by a flag or by a list of types. -/
def isNullable (schema : Json) : Bool :=
  schema.isTrue "nullable" ||
    match schema.get? "type" with
    | some (.array items) => items.any fun item => item.string? == some "null"
    | _ => false

/-- The primitive type of a declared type and a format. A format that is not known counts as
none; a type that is not known has no primitive. -/
def primitive? (type : String) (format : Option String) : Option Primitive :=
  match type, format with
  | "string", some "date" => some .date
  | "string", some "date-time" => some .dateTime
  | "string", some "uuid" => some .uuid
  | "string", some "binary" => some .binary
  | "string", some "byte" => some .binary
  | "string", _ => some .string
  | "integer", some "int64" => some .int64
  | "integer", _ => some .int32
  | "number", some "float" => some .float
  | "number", _ => some .double
  | "boolean", _ => some .bool
  | _, _ => none

end ServantGen.Schema
