import ServantGen.Lowering.Types

/-!
# Operations

An operation is lowered in a fixed order: identifier, parameters, route, body, responses. The
order shows in the names of new types and in the order of notices. All this is written for any
way `find` of finding the types of schemas.
-/

namespace ServantGen.Lowering

def operationLocation (operation : OperationSite) : String :=
  "paths." ++ operation.path ++ "." ++ operation.method.key

/-- An identifier for an operation that has none: the method and the components of the
route, placeholders without their marks. -/
def synthesizedId (setting : Setting) (operation : OperationSite) : String :=
  let components := (Text.splitOn '/' operation.path).filter (· ≠ "")
  let words := components.map fun component =>
    (setting.target.delimiter.placeholder? component).getD component
  let tail := if words.isEmpty then "root" else Text.join " " words
  operation.method.key ++ " " ++ tail

/-- Fail with an error of reading, at a location unless the error has its own. -/
def orFail {α : Type} (location : String) : Except ReadError α → OperationM α
  | .ok value => pure value
  | .error error => throw ((BuildError.ofReadError error).located location)

/-! ## Parameters -/

def defaultValue? : Json → Option DefaultValue
  | .string text => some (.string text)
  | .bool value => some (.bool value)
  | .number (.int value) =>
    if value < (twoTo 63 : Int) then some (.int value)
    else some (.double (Double.ofNat value.toNat))
  | .number (.double value) => some (.double value)
  | _ => none

def parameterType (find : TypeFinder) (parameter : Site) (hint location : String) :
    SchemaM DataType :=
  match ParameterSite.schema? parameter with
  | some schema => find schema hint location
  | none => do
    remark (.noSchema (ParameterSite.name parameter)) location
    return .any

structure LoweredParameters where
  parameters : List Parameter
  body : Option RequestBody

def bodyParameter (find : TypeFinder) (operation : String) (parameter : Site)
    (location : String) : SchemaM RequestBody := do
  let type ← parameterType find parameter (operation ++ " request") location
  return ⟨type, ParameterSite.required parameter, jsonMediaType,
    ParameterSite.description? parameter⟩

/-- Lower a parameter that travels elsewhere, with its identifier claimed in a scope. -/
def ownParameter (setting : Setting) (find : TypeFinder) (operation : String) (place : Location)
    (parameter : Site) (location : String) (scope : NameScope) :
    SchemaM (Parameter × NameScope) := do
  let raw := ParameterSite.name parameter
  let (identifier, scope) := setting.target.freshIn scope raw .parameter
  let name ← noted identifier location
  let required := place == .path || ParameterSite.required parameter
  let type ← parameterType find parameter (operation ++ " " ++ raw) location
  let lowered : Parameter :=
    { name
      rawName := raw
      location := place
      required
      type := if required then type else type.orNone
      default := (ParameterSite.default? parameter).bind defaultValue?
      description := ParameterSite.description? parameter }
  return (lowered, scope)

/-- Lower the parameters of an operation in order. The first that travels in the body is the
body; further ones, and those with an unknown location, are left out with a notice. -/
def lowerParameters (setting : Setting) (find : TypeFinder) (operation location : String) :
    NameScope → Option RequestBody → List Site → SchemaM LoweredParameters
  | _, body, [] => return ⟨[], body⟩
  | scope, body, parameter :: rest => do
    let raw := ParameterSite.name parameter
    let place := location ++ ".parameters." ++ raw
    match Location.ofName? (ParameterSite.location parameter) with
    | none =>
      remark (.unknownLocation raw (ParameterSite.location parameter)) place
      lowerParameters setting find operation location scope body rest
    | some .body =>
      match body with
      | some _ =>
        remark (.extraBody raw) place
        lowerParameters setting find operation location scope body rest
      | none =>
        let body ← bodyParameter find operation parameter place
        lowerParameters setting find operation location scope (some body) rest
    | some kind =>
      let (lowered, scope) ← ownParameter setting find operation kind parameter place scope
      let others ← lowerParameters setting find operation location scope body rest
      return { others with parameters := lowered :: others.parameters }

/-! ## Routes -/

/-- The segment for one component of a route: a placeholder bound to the path parameter of
its name, or fixed text. -/
def segmentOf (setting : Setting) (operation : OperationSite) (parameters : List Parameter)
    (component : String) : Except BuildError Segment :=
  match setting.target.delimiter.placeholder? component with
  | none => .ok (.literal component)
  | some name =>
    match parameters.find? fun p => p.location == .path && p.rawName == name with
    | some parameter => .ok (.parameter name parameter.type.stripOptional)
    | none => .error (.unboundPathParameter operation.method.name operation.path name)

/-- Whether a component holds the start of a placeholder without being one. -/
def isMixed (setting : Setting) (component : String) : Bool :=
  (setting.target.delimiter.placeholder? component).isNone &&
    setting.target.delimiter.mentionsPlaceholder component

def lowerRoute (setting : Setting) (operation : OperationSite) (parameters : List Parameter) :
    OperationM Route := do
  let components := Text.splitOn '/' operation.path
  let segments ← (components.mapM (segmentOf setting operation parameters) :
    Except BuildError (List Segment))
  (components.filter (isMixed setting)).forM fun component =>
    remark (.mixedComponent component) (operationLocation operation)
  return Route.ofSegments segments

/-! ## Bodies and responses -/

def lowerBody (setting : Setting) (find : TypeFinder) (operation : OperationSite)
    (id location : String) : OperationM (Option RequestBody) := do
  let body ← orFail location (operation.requestBody? setting.document)
  match body with
  | none => return none
  | some body =>
    match body.schema with
    | none => return none
    | some schema =>
      let type ← find schema (id ++ " request") (location ++ ".requestBody")
      return some ⟨type, body.required, body.contentType, body.description⟩

/-- The body of an operation: the parameter that is one, else the request body. -/
def bodyOf (setting : Setting) (find : TypeFinder) (operation : OperationSite)
    (id location : String) (parameter : Option RequestBody) : OperationM (Option RequestBody) :=
  match parameter with
  | some body => return some body
  | none => lowerBody setting find operation id location

/-- The type of what a response carries, if it carries anything. -/
def responseType (find : TypeFinder) (response : ResponseSite) (hint location : String) :
    SchemaM (Option DataType) :=
  match response.schema? with
  | none => return none
  | some schema => do
    let type ← find schema hint location
    return some type

def lowerHeaders (find : TypeFinder) (id location : String) (headers : List (String × Site)) :
    SchemaM (List ResponseHeader) :=
  headers.mapM fun (name, node) => do
    let schema := (node.get? "schema").getD node
    let type ← find schema (id ++ " " ++ name ++ " header") location
    return ⟨name, type, node.isTrue "required"⟩

/-- Lower a response. One whose key is no status is left out with a notice. -/
def lowerResponse (setting : Setting) (find : TypeFinder) (id location : String)
    (response : ResponseSite) : OperationM (Option Response) := do
  let place := location ++ ".responses." ++ response.status
  match Status.ofKey? response.status with
  | none =>
    remark (.invalidStatus response.status) place
    return none
  | some status =>
    let type ← responseType find response (id ++ " response " ++ status.name) place
    let sites ← orFail place (response.headers setting.document)
    let headers ← lowerHeaders find id place sites
    return some ⟨status, response.description?, type, headers⟩

def lowerOperation (setting : Setting) (find : TypeFinder) (operation : OperationSite) :
    OperationM Operation := do
  let location := operationLocation operation
  let rawId := operation.id?.getD (synthesizedId setting operation)
  let id ← freshFunction setting rawId location
  let sites ← orFail location (operation.parameters setting.document)
  let lowered ← lowerParameters setting find id location .empty none sites
  let route ← lowerRoute setting operation lowered.parameters
  let requestBody ← bodyOf setting find operation id location lowered.body
  let responses ← orFail location (operation.responses setting.document)
  let responses ← responses.mapM (lowerResponse setting find id location)
  return {
    id
    rawId
    method := operation.method
    rawPath := operation.path
    path := route
    parameters := lowered.parameters
    requestBody
    responses := responses.filterMap fun response => response
    tags := operation.tags
    summary := operation.summary?
    description := operation.description?
    deprecated := operation.deprecated }

def lowerOperations (setting : Setting) (find : TypeFinder) : OperationM (List Operation) := do
  let operations ← (setting.document.operations.mapError .ofReadError :
    Except BuildError (List OperationSite))
  operations.mapM (lowerOperation setting find)

end ServantGen.Lowering
