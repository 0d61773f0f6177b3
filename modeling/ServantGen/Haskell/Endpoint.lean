import ServantGen.Haskell.Lexical
import ServantGen.Haskell.TypeText
import ServantGen.Render.Template

/-!
# Endpoints

An operation as a route of the server library: a list of parts from left to right. Each part
has a text in the route type, and each part that carries a value has one argument in the type
of the handler, so that the handler type is read off the route.

Parameters travel as text. A type that cannot be written into a URL is replaced by text, with
a note unless any value is admitted.
-/

namespace ServantGen.Haskell

structure ResultType where
  /-- The type of the body, if there is one. -/
  body : Option DataType
  headers : List (String × DataType)
  deriving DecidableEq, Repr

namespace ResultType

def bodyText (result : ResultType) : String :=
  match result.body with
  | some type => atomText type
  | none => "NoContent"

def text (result : ResultType) : String :=
  if result.headers.isEmpty then result.bodyText
  else
    let headers := result.headers.map fun (name, type) =>
      "Header " ++ literal name ++ " " ++ atomText type
    "(Headers '[" ++ Text.join ", " headers ++ "] " ++ result.bodyText ++ ")"

def imports (result : ResultType) : List Import :=
  result.body.toList.flatMap typeImports ++ result.headers.flatMap fun (_, type) => typeImports type

end ResultType

/-- What carries a single value besides the route. -/
inductive Carrier where
  | query
  | header
  deriving DecidableEq, Repr

def Carrier.combinator : Carrier → String
  | .query => "QueryParam"
  | .header => "Header"

inductive RoutePart where
  /-- A fixed component. -/
  | literal (component : String)
  /-- What stands for the empty route. -/
  | marker (text : String)
  /-- A placeholder. -/
  | capture (name : String) (type : DataType)
  /-- A query parameter that may be repeated. -/
  | queryList (name : String) (item : DataType)
  /-- A query parameter or a header. -/
  | value (carrier : Carrier) (name : String) (type : DataType) (required : Bool)
  /-- All cookies together. -/
  | cookies
  | body (type : DataType) (required : Bool)
  /-- The method, the status and the result. -/
  | verb (method : Method) (status : Nat) (result : ResultType)
  deriving DecidableEq, Repr

namespace RoutePart

def text : RoutePart → String
  | .literal component => Haskell.literal component
  | .marker text => text
  | .capture name type => "Capture " ++ Haskell.literal name ++ " " ++ atomText type
  | .queryList name item => "QueryParams " ++ Haskell.literal name ++ " " ++ atomText item
  | .value carrier name type true =>
    carrier.combinator ++ "' '[Required, Strict] " ++ Haskell.literal name ++ " " ++ atomText type
  | .value carrier name type false =>
    carrier.combinator ++ " " ++ Haskell.literal name ++ " " ++ atomText type
  | .cookies => "Header \"Cookie\" Text"
  | .body type true => "ReqBody '[JSON] " ++ atomText type
  | .body type false => "ReqBody' '[Optional, Strict] '[JSON] " ++ atomText type
  | .verb method status result =>
    "Verb '" ++ method.name ++ " " ++ Text.decimal status ++ " '[JSON] " ++ result.text

/-- The argument of the handler that the part stands for; for the verb, what it answers. -/
def argument? : RoutePart → Option String
  | .literal _ | .marker _ => none
  | .capture _ type => some (typeText type)
  | .queryList _ item => some ("[" ++ typeText item ++ "]")
  | .value _ _ type true => some (typeText type)
  | .value _ _ type false => some ("Maybe " ++ atomText type)
  | .cookies => some "Maybe Text"
  | .body type true => some (typeText type)
  | .body type false => some ("Maybe " ++ atomText type)
  | .verb _ _ result => some ("m " ++ result.text)

def imports : RoutePart → List Import
  | .literal _ | .marker _ => []
  | .capture _ type | .queryList _ type | .value _ _ type _ | .body type _ => typeImports type
  | .cookies => [⟨"Data.Text", "Text"⟩]
  | .verb _ _ result => result.imports

end RoutePart

structure Endpoint where
  operation : Operation
  parts : List RoutePart
  deriving Repr

namespace Endpoint

def route (endpoint : Endpoint) : String :=
  Text.join " :> " (endpoint.parts.map RoutePart.text)

def handler (endpoint : Endpoint) : String :=
  Text.join " -> " (endpoint.parts.filterMap RoutePart.argument?)

end Endpoint

/-! ## Building endpoints -/

/-- Whether values of a type can be written into a URL: primitives, enumerations and names
for either. -/
def hasUrlText (models : ModelTable) : DataType → Bool
  | .primitive _ | .enum .. => true
  | .named name =>
    match (models.get? name).map Model.shape with
    | some (.enum _) => true
    | some (.alias (.enum ..)) => true
    | some (.alias (.primitive kind)) => kind != .any
    | _ => false
  | .array _ | .map _ | .optional _ => false

/-- The type as which a parameter travels, and a note when it is not its own type. -/
def wireType (models : ModelTable) (type : DataType) (subject : String) :
    DataType × List RenderNote :=
  let inner := type.stripOptional
  if inner.isAny then (.string, [])
  else if hasUrlText models inner then (inner, [])
  else
    (.string, [.fallback (subject ++ " has type " ++ typeText inner ++
      " with no URL encoding; rendered as Text")])

/-- A part with the notes made for it. -/
abbrev NotedPart := RoutePart × List RenderNote

section Parts

variable (context : RenderContext) (operation : Operation)

/-- The words for something of an operation. -/
def subjectOf (what name : String) : String :=
  what ++ " '" ++ name ++ "' of operation '" ++ operation.id ++ "'"

def segmentParts (segment : Segment) : List NotedPart :=
  match segment with
  | .literal _ => segment.components.map fun component => (.literal component, [])
  | .parameter name type =>
    let (type, notes) :=
      wireType context.api.models type (subjectOf operation "path parameter" name)
    [(.capture name type, notes)]
  | .root =>
    let marker := context.target.rootMarker
    if marker = "" then [] else [(.marker marker, [])]

def queryPart (parameter : Parameter) : NotedPart :=
  let subject := subjectOf operation "query parameter" parameter.rawName
  match parameter.type.stripOptional with
  | .array item =>
    let (item, notes) := wireType context.api.models item subject
    (.queryList parameter.rawName item, notes)
  | _ =>
    let (type, notes) := wireType context.api.models parameter.type subject
    (.value .query parameter.rawName type parameter.required, notes)

def headerPart (parameter : Parameter) : NotedPart :=
  let (type, notes) :=
    wireType context.api.models parameter.type (subjectOf operation "header" parameter.rawName)
  (.value .header parameter.rawName type parameter.required, notes)

def cookieParts : List NotedPart :=
  if (operation.parametersIn .cookie).isEmpty then [] else [(.cookies, [])]

def bodyParts : List NotedPart :=
  match operation.requestBody with
  | some body => [(.body body.type.stripOptional body.required, [])]
  | none => []

def successStatus : Nat :=
  (operation.successResponse?.bind fun response => response.status.code?).getD
    operation.method.defaultStatus

/-- The headers of a response, as types that travel. -/
def headerTypes (headers : List ResponseHeader) : List ((String × DataType) × List RenderNote) :=
  headers.map fun header =>
    let (type, notes) :=
      wireType context.api.models header.type (subjectOf operation "response header" header.name)
    ((header.name, type), notes)

/-- The part of method, status and result. -/
def verbPart : NotedPart :=
  match operation.successResponse? with
  | none => (.verb operation.method (successStatus operation) ⟨none, []⟩, [])
  | some response =>
    let headers := headerTypes context operation response.headers
    (.verb operation.method (successStatus operation) ⟨response.type, headers.map Prod.fst⟩,
      headers.flatMap Prod.snd)

/-- All parts of an operation, from left to right. -/
def routeParts : List NotedPart :=
  operation.path.segments.flatMap (segmentParts context operation) ++
    (operation.parametersIn .query).map (queryPart context operation) ++
    (operation.parametersIn .header).map (headerPart context operation) ++
    cookieParts operation ++ bodyParts operation ++ [verbPart context operation]

/-- The endpoint of an operation and its notes. -/
def endpointOf : Endpoint × List RenderNote :=
  let parts := routeParts context operation
  (⟨operation, parts.map Prod.fst⟩, parts.flatMap Prod.snd)

/-- The types of an operation whose references have to be resolved. -/
def checkedTypes : List DataType :=
  operation.parameters.map Parameter.type ++
    (operation.requestBody.map RequestBody.type).toList ++
    operation.responses.flatMap fun response => response.type.toList

def checkOperation : Except RenderError Unit :=
  ((checkedTypes operation).flatMap DataType.models).forM fun name => do
    let _ ← context.resolveModel name operation.id
    return ()

end Parts

end ServantGen.Haskell
