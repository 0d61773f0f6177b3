import ServantGen.Api.Basic
import ServantGen.Diagnostic

/-!
# Interfaces from JSON

Reading back the JSON form of interfaces. Reading is lenient: a member that is missing or of
the wrong kind takes a default, and the models of an interface are a list that is inserted in
order. Where the first member of an object says which alternative is meant, its key alone
decides. Routes are brought into normal form.
-/

namespace ServantGen

namespace Json

def textAt (json : Json) (key : String) : String :=
  (json.getString? key).getD ""

def itemsAt (json : Json) (key : String) : List Json :=
  ((json.get? key).bind array?).getD []

def textsAt (json : Json) (key : String) : List String :=
  (json.itemsAt key).filterMap string?

def text (json : Json) : String :=
  json.string?.getD ""

def items (json : Json) : List Json :=
  json.array?.getD []

def texts (json : Json) : List String :=
  json.items.filterMap string?

/-- The text at a position of an array, or nothing written. -/
def textIn (json : Json) (position : Nat) : String :=
  (json.items[position]?.map text).getD ""

/-- The number that a value is, or zero. -/
def natural (json : Json) : Nat :=
  match json with
  | .number (.int value) => value.toNat
  | _ => 0

end Json

def Primitive.all : List Primitive :=
  [.string, .int32, .int64, .float, .double, .bool, .date, .dateTime, .uuid, .binary, .any]

/-- The primitive type of a name, written with a hyphen or an underscore. -/
def Primitive.ofName (name : String) : Primitive :=
  if name = "date_time" then .dateTime
  else (Primitive.all.find? fun kind => kind.name == name).getD .any

mutual

/-- A type from JSON; anything else is read as any value. -/
def DataType.ofJson : Json → DataType
  | .object fields => ofFields fields
  | _ => .any

/-- A type from the first member of an object. -/
def DataType.ofFields : List (String × Json) → DataType
  | ("primitive", name) :: _ => .primitive (.ofName name.text)
  | ("array", item) :: _ => .array (ofJson item)
  | ("map", value) :: _ => .map (ofJson value)
  | ("object_ref", model) :: _ => .named model.text
  | ("optional", inner) :: _ => .optional (ofJson inner)
  | ("enum", value) :: _ => .enum (value.textAt "name") (value.textsAt "values")
  | _ => .any

end

def Json.typeAt (json : Json) (key : String) : DataType :=
  match json.get? key with
  | some type => .ofJson type
  | none => .any

def Segment.ofJson (json : Json) : Segment :=
  match json.get? "literal", json.get? "parameter" with
  | some text, _ => .literal text.text
  | _, some node => .parameter (node.textAt "name") (node.typeAt "ty")
  | _, _ => .root

def Field.ofJson (json : Json) : Field :=
  ⟨json.textAt "name", json.textAt "raw_name", json.typeAt "ty", json.isTrue "required",
    json.getString? "description"⟩

def Shape.ofJson (json : Json) : Shape :=
  match json with
  | .object (("record", fields) :: _) => .record (fields.items.map Field.ofJson)
  | .object (("enum", values) :: _) => .enum values.texts
  | .object (("union", variants) :: _) => .union variants.texts
  | .object (("alias", type) :: _) => .alias (.ofJson type)
  | _ => .alias .any

def Discriminator.ofJson (json : Json) : Discriminator :=
  ⟨json.textAt "property", (json.itemsAt "mapping").map fun entry =>
    (entry.textIn 0, entry.textIn 1)⟩

/-- The object under a key; anything else there counts as nothing. -/
def Json.objectAt? (json : Json) (key : String) : Option Json :=
  match json.get? key with
  | some (.object fields) => some (.object fields)
  | _ => none

def Model.ofJson (json : Json) : Model :=
  ⟨json.textAt "name", json.textAt "raw_name", json.getString? "description",
    .ofJson ((json.get? "kind").getD .null),
    (json.objectAt? "discriminator").map Discriminator.ofJson⟩

/-- A status from JSON. A code is kept in sixteen bits and a first digit in eight. -/
def Status.ofJson (json : Json) : Status :=
  match json with
  | .object (("code", value) :: _) => .code (value.natural % 0x10000)
  | .object (("range", value) :: _) => .range (value.natural % 0x100)
  | _ => .default

/-- A parameter from JSON; defaults are not read. -/
def Parameter.ofJson (json : Json) : Parameter :=
  { name := json.textAt "name"
    rawName := json.textAt "raw_name"
    location := (Location.ofName? (json.textAt "location")).getD .query
    required := json.isTrue "required"
    type := json.typeAt "ty"
    default := none
    description := json.getString? "description" }

def RequestBody.ofJson (json : Json) : RequestBody :=
  ⟨json.typeAt "ty", json.isTrue "required", json.textAt "content_type",
    json.getString? "description"⟩

def ResponseHeader.ofJson (json : Json) : ResponseHeader :=
  ⟨json.textAt "name", json.typeAt "ty", json.isTrue "required"⟩

def Response.ofJson (json : Json) : Response :=
  ⟨.ofJson ((json.get? "status").getD .null), json.getString? "description",
    (json.objectAt? "ty").map DataType.ofJson, (json.itemsAt "headers").map ResponseHeader.ofJson⟩

def Operation.ofJson (json : Json) : Operation :=
  { id := json.textAt "id"
    rawId := json.textAt "raw_id"
    method := (Method.ofKey? (json.textAt "method")).getD .get
    rawPath := json.textAt "raw_path"
    path := .ofSegments ((json.itemsAt "path").map Segment.ofJson)
    parameters := (json.itemsAt "parameters").map Parameter.ofJson
    requestBody := (json.objectAt? "request_body").map RequestBody.ofJson
    responses := (json.itemsAt "responses").map Response.ofJson
    tags := json.textsAt "tags"
    summary := json.getString? "summary"
    description := json.getString? "description"
    deprecated := json.isTrue "deprecated" }

def Api.ofJson (json : Json) : Api :=
  let info := (json.get? "meta").getD .null
  { info := ⟨info.textAt "title", info.textAt "version", info.getString? "description"⟩
    models := .ofModels ((json.itemsAt "models").map Model.ofJson)
    operations := (json.itemsAt "operations").map Operation.ofJson }

def DiagnosticKind.all : List DiagnosticKind :=
  [.malformedSpec, .unboundPathParameter, .unsupportedSchema, .unsupportedPathSegment,
   .templateRender, .identifierCollision, .outputWrite]

def Diagnostic.ofJson (json : Json) : Diagnostic :=
  { severity := match json.textAt "severity" with
      | "Error" => .error
      | "Warning" => .warning
      | _ => .info
    kind := (DiagnosticKind.all.find? fun kind => kind.key == json.textAt "kind").getD
      .unsupportedSchema
    phase := json.textAt "phase"
    message := json.textAt "message"
    location := json.getString? "location" }

end ServantGen
