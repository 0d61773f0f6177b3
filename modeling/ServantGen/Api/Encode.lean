import ServantGen.Api.Basic
import ServantGen.Diagnostic

/-!
# Interfaces in JSON

The JSON form of an interface and of everything in it. Members stand in the order in which
the structures list them.
-/

namespace ServantGen

def Primitive.key : Primitive → String
  | .dateTime => "date_time"
  | kind => kind.name

def Json.tagged (tag : String) (value : Json) : Json :=
  .object [(tag, value)]

def Json.ofPairs (pairs : List (String × String)) : Json :=
  .array (pairs.map fun (left, right) => .array [.string left, .string right])

def Json.ofOption {α : Type} (encode : α → Json) : Option α → Json
  | none => .null
  | some value => encode value

def DataType.toJson : DataType → Json
  | .primitive kind => .tagged "primitive" (.string kind.key)
  | .array item => .tagged "array" item.toJson
  | .map value => .tagged "map" value.toJson
  | .named model => .tagged "object_ref" (.string model)
  | .optional inner => .tagged "optional" inner.toJson
  | .enum name values =>
    .tagged "enum" (.object [("name", .string name), ("values", .ofStrings values)])

def Segment.toJson : Segment → Json
  | .literal text => .tagged "literal" (.string text)
  | .parameter name type =>
    .tagged "parameter" (.object [("name", .string name), ("ty", type.toJson)])
  | .root => .string "root"

def Route.toJson (route : Route) : Json :=
  .array (route.segments.map Segment.toJson)

def Field.toJson (field : Field) : Json :=
  .object
    [("name", .string field.name), ("raw_name", .string field.rawName), ("ty", field.type.toJson),
     ("required", .bool field.required), ("description", .ofString? field.description)]

def Shape.toJson : Shape → Json
  | .record fields => .tagged "record" (.array (fields.map Field.toJson))
  | .enum values => .tagged "enum" (.ofStrings values)
  | .union variants => .tagged "union" (.ofStrings variants)
  | .alias type => .tagged "alias" type.toJson

def Discriminator.toJson (discriminator : Discriminator) : Json :=
  .object
    [("property", .string discriminator.property), ("mapping", .ofPairs discriminator.mapping)]

def Model.toJson (model : Model) : Json :=
  .object
    [("name", .string model.name), ("raw_name", .string model.rawName),
     ("description", .ofString? model.description), ("kind", model.shape.toJson),
     ("discriminator", .ofOption Discriminator.toJson model.discriminator)]

def ModelTable.toJson (table : ModelTable) : Json :=
  .object (table.models.map fun model => (model.name, model.toJson))

def Status.toJson : Status → Json
  | .code value => .tagged "code" (.ofNat value)
  | .range digit => .tagged "range" (.ofNat digit)
  | .default => .string "default"

def DefaultValue.toJson : DefaultValue → Json
  | .string text => .string text
  | .int value => .number (.int value)
  | .double value => .number (.double value)
  | .bool value => .bool value

def Parameter.toJson (parameter : Parameter) : Json :=
  .object
    [("name", .string parameter.name), ("raw_name", .string parameter.rawName),
     ("location", .string parameter.location.name), ("required", .bool parameter.required),
     ("ty", parameter.type.toJson), ("default", .ofOption DefaultValue.toJson parameter.default),
     ("description", .ofString? parameter.description)]

def RequestBody.toJson (body : RequestBody) : Json :=
  .object
    [("ty", body.type.toJson), ("required", .bool body.required),
     ("content_type", .string body.contentType), ("description", .ofString? body.description)]

def ResponseHeader.toJson (header : ResponseHeader) : Json :=
  .object
    [("name", .string header.name), ("ty", header.type.toJson), ("required", .bool header.required)]

def Response.toJson (response : Response) : Json :=
  .object
    [("status", response.status.toJson), ("description", .ofString? response.description),
     ("ty", .ofOption DataType.toJson response.type),
     ("headers", .array (response.headers.map ResponseHeader.toJson))]

def Operation.toJson (operation : Operation) : Json :=
  .object
    [("id", .string operation.id), ("raw_id", .string operation.rawId),
     ("method", .string operation.method.name), ("raw_path", .string operation.rawPath),
     ("path", operation.path.toJson),
     ("parameters", .array (operation.parameters.map Parameter.toJson)),
     ("request_body", .ofOption RequestBody.toJson operation.requestBody),
     ("responses", .array (operation.responses.map Response.toJson)),
     ("tags", .ofStrings operation.tags), ("summary", .ofString? operation.summary),
     ("description", .ofString? operation.description), ("deprecated", .bool operation.deprecated)]

def ApiInfo.toJson (info : ApiInfo) : Json :=
  .object
    [("title", .string info.title), ("version", .string info.version),
     ("description", .ofString? info.description)]

def Api.toJson (api : Api) : Json :=
  .object
    [("meta", api.info.toJson), ("models", api.models.toJson),
     ("operations", .array (api.operations.map Operation.toJson))]

def Severity.key : Severity → String
  | .error => "Error"
  | .warning => "Warning"
  | .info => "Info"

def Diagnostic.toJson (d : Diagnostic) : Json :=
  .object
    [("severity", .string d.severity.key), ("kind", .string d.kind.key),
     ("phase", .string d.phase), ("message", .string d.message),
     ("location", .ofString? d.location)]

end ServantGen
