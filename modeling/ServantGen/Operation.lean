import ServantGen.Http
import ServantGen.Route
import ServantGen.Json.Basic

/-!
# Operations

One operation is one request method on one route, with its parameters, its request body and
its responses.
-/

namespace ServantGen

/-- A literal default of a parameter. -/
inductive DefaultValue where
  | string (text : String)
  | int (value : Int)
  | double (value : Double)
  | bool (value : Bool)
  deriving DecidableEq, Repr

structure Parameter where
  /-- The identifier, unique within the operation. -/
  name : String
  /-- The name in the document. -/
  rawName : String
  location : Location
  required : Bool
  type : DataType
  default : Option DefaultValue
  description : Option String
  deriving DecidableEq, Repr

structure RequestBody where
  type : DataType
  required : Bool
  /-- The media type the body was described under. -/
  contentType : String
  description : Option String
  deriving DecidableEq, Repr

structure ResponseHeader where
  name : String
  type : DataType
  required : Bool
  deriving DecidableEq, Repr

structure Response where
  status : Status
  description : Option String
  /-- The type of the body, if there is one. -/
  type : Option DataType
  headers : List ResponseHeader
  deriving DecidableEq, Repr

structure Operation where
  /-- The identifier, unique among the operations. -/
  id : String
  /-- The identifier in the document, or one made from method and route. -/
  rawId : String
  method : Method
  /-- The route as the document writes it. -/
  rawPath : String
  path : Route
  parameters : List Parameter
  requestBody : Option RequestBody
  responses : List Response
  tags : List String
  summary : Option String
  description : Option String
  deprecated : Bool
  deriving DecidableEq, Repr

namespace Operation

def pathParameter? (operation : Operation) (rawName : String) : Option Parameter :=
  operation.parameters.find? fun p => p.location == .path && p.rawName == rawName

def parametersIn (operation : Operation) (location : Location) : List Parameter :=
  operation.parameters.filter (·.location == location)

/-- The response of a successful request: the first that reports success, or the one for
all other codes. -/
def successResponse? (operation : Operation) : Option Response :=
  (operation.responses.find? (·.status.isSuccess)).or
    (operation.responses.find? (·.status == .default))

/-- The tag that decides the group of an operation. -/
def primaryTag? (operation : Operation) : Option String :=
  operation.tags.head?

end Operation

end ServantGen
