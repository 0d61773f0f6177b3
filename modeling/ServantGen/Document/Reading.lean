import ServantGen.Document.Pointer
import ServantGen.Http
import ServantGen.Text.Blank

/-!
# Reading a document

Typed access to the parts of an interface description: its identity, its shared schemas and
its operations with their parameters, bodies, responses and headers. Nothing is changed on
the way; the answers are sites of the document. Reading fails only when a required part is
missing or a reference leads nowhere.
-/

namespace ServantGen

/-- Why a document cannot be read. -/
inductive ReadError where
  | rootNotObject
  | noInfo
  | noPaths
  | pathItemUnresolved (path reference : String)
  | pathItemNotObject (path : String)
  /-- A reference that leads nowhere. -/
  | unresolved (reference : String)
  deriving DecidableEq, Repr

namespace ReadError

/-- The part of the document that is malformed, when the error is about one. -/
def section? : ReadError → Option String
  | .rootNotObject => some ""
  | .noInfo => some "info"
  | .noPaths => some "paths"
  | .pathItemUnresolved path _ | .pathItemNotObject path => some ("paths." ++ path)
  | .unresolved _ => none

/-- What is wrong, without saying that the document is malformed. -/
def detail : ReadError → String
  | .rootNotObject => "document root must be an object"
  | .noInfo => "missing required 'info' object"
  | .noPaths => "missing required 'paths' object"
  | .pathItemUnresolved _ reference => "unresolved path item reference '" ++ reference ++ "'"
  | .pathItemNotObject _ => "path item must be an object"
  | .unresolved reference => "unresolved reference '" ++ reference ++ "'"

def message (error : ReadError) : String :=
  match error.section? with
  | some _ => "malformed specification: " ++ error.detail
  | none => error.detail

end ReadError

/-- A document with the required parts. -/
structure Document where
  tree : Json
  /-- The paths by route. -/
  paths : List (String × Site)
  deriving Inhabited

structure OperationSite where
  /-- The route as it is written. -/
  path : String
  method : Method
  node : Site
  item : Site

/-- The shared parts of a document, each with the names it holds. -/
structure SharedParts where
  schemas : Option (List (String × Site))
  parameters : Option (List (String × Site))
  responses : Option (List (String × Site))
  requestBodies : Option (List (String × Site))
  headers : Option (List (String × Site))

structure DocumentInfo where
  title : String
  version : String
  description : Option String
  deriving DecidableEq, Repr

namespace Document

def ofTree (tree : Json) : Except ReadError Document :=
  if !tree.isObject then .error .rootNotObject
  else if !((tree.get? "info").any Json.isObject) then .error .noInfo
  else match ((Site.root tree).get? "paths").bind Site.members? with
    | none => .error .noPaths
    | some paths => .ok ⟨tree, paths⟩

def root (document : Document) : Site :=
  Site.root document.tree

def info (document : Document) : DocumentInfo :=
  let info := (document.tree.get? "info").getD .null
  { title := (info.getString? "title").getD ""
    version := (info.getString? "version").getD ""
    description := info.getString? "description" }

/-- The node that a chain of references leads to. -/
def resolve (document : Document) (site : Site) : Except ReadError Site :=
  match Pointer.resolve document.tree site with
  | .ok target => .ok target
  | .error reference => .error (.unresolved reference)

/-- The shared parts: below `components`, or at the top level when there is no such key. -/
def shared (document : Document) : SharedParts :=
  let under (site : Site) (key : String) := (site.get? key).bind Site.members?
  match document.root.get? "components" with
  | some components =>
    { schemas := under components "schemas"
      parameters := under components "parameters"
      responses := under components "responses"
      requestBodies := under components "requestBodies"
      headers := under components "headers" }
  | none =>
    { schemas := under document.root "definitions"
      parameters := under document.root "parameters"
      responses := under document.root "responses"
      requestBodies := none
      headers := none }

def schemas (document : Document) : List (String × Site) :=
  document.shared.schemas.getD []

/-- The operations of one path item: its members whose keys are methods and whose nodes are
objects. -/
def itemOperations (path : String) (item : Site) (members : List (String × Site)) :
    List OperationSite :=
  members.filterMap fun (key, node) =>
    match Method.ofKey? key with
    | some method => if node.node.isObject then some ⟨path, method, node, item⟩ else none
    | none => none

def pathOperations (document : Document) (path : String) (site : Site) :
    Except ReadError (List OperationSite) :=
  match Pointer.resolve document.tree site with
  | .error reference => .error (.pathItemUnresolved path reference)
  | .ok item =>
    match item.members? with
    | none => .error (.pathItemNotObject path)
    | some members => .ok (itemOperations path item members)

def operations (document : Document) : Except ReadError (List OperationSite) := do
  let groups ← document.paths.mapM fun (path, site) => document.pathOperations path site
  return groups.flatten

end Document

/-! ## Parameters -/

namespace ParameterSite

def name (site : Site) : String :=
  (site.string? "name").getD ""

def location (site : Site) : String :=
  (site.string? "in").getD ""

def required (site : Site) : Bool :=
  site.isTrue "required"

/-- The schema of a parameter: a member, or the parameter itself when it has a type. -/
def schema? (site : Site) : Option Site :=
  match site.get? "schema" with
  | some schema => some schema
  | none => if site.has "type" then some site else none

/-- The default of a parameter or of its schema. -/
def default? (site : Site) : Option Json :=
  match site.node.get? "default" with
  | some value => some value
  | none => (schema? site).bind fun schema => schema.node.get? "default"

def description? (site : Site) : Option String :=
  site.string? "description"

/-- Two parameters with the same name in the same location. -/
def same (left right : Site) : Bool :=
  name left == name right && location left == location right

/-- Put a parameter in the place of the same one before it, or at the end. -/
def merge (site : Site) : List Site → List Site
  | [] => [site]
  | other :: rest => if same other site then site :: rest else other :: merge site rest

end ParameterSite

/-! ## Bodies and responses -/

/-- The media type that is chosen before all others. -/
def jsonMediaType : String := "application/json"

/-- The description of content that is used: JSON, else a type that ends in `+json`, else the
first. -/
def preferredContent? (site : Site) : Option (String × Site) := do
  let content ← (site.get? "content").bind Site.members?
  (content.find? fun (type, _) => type == jsonMediaType).or
    ((content.find? fun (type, _) => (Text.stripEnd? "+json".toList type.toList).isSome).or
      content.head?)

/-- A request body in a document. -/
structure BodySite where
  /-- The media type; empty when the body has no content. -/
  contentType : String
  schema : Option Site
  required : Bool
  description : Option String

/-- A response in a document, under its key. -/
structure ResponseSite where
  status : String
  node : Site

namespace OperationSite

/-- The identifier of an operation, if it is not blank. -/
def id? (operation : OperationSite) : Option String :=
  (operation.node.string? "operationId").filter fun id => !Text.saysNothing id

def tags (operation : OperationSite) : List String :=
  (operation.node.itemsAt "tags").filterMap fun tag => tag.node.string?

def summary? (operation : OperationSite) : Option String :=
  operation.node.string? "summary"

def description? (operation : OperationSite) : Option String :=
  operation.node.string? "description"

def deprecated (operation : OperationSite) : Bool :=
  operation.node.isTrue "deprecated"

/-- The parameters of path item and operation as they are written. -/
def declaredParameters (operation : OperationSite) : List Site :=
  operation.item.itemsAt "parameters" ++ operation.node.itemsAt "parameters"

/-- The parameters of path item and operation, resolved; a later one takes the place of an
earlier one with the same name and location. -/
def parameters (document : Document) (operation : OperationSite) :
    Except ReadError (List Site) := do
  let resolved ← operation.declaredParameters.mapM document.resolve
  return resolved.foldl (fun merged site => ParameterSite.merge site merged) []

def requestBody? (document : Document) (operation : OperationSite) :
    Except ReadError (Option BodySite) :=
  match operation.node.get? "requestBody" with
  | none => .ok none
  | some site => do
    let body ← document.resolve site
    let (contentType, schema) := match preferredContent? body with
      | some (type, media) => (type, media.get? "schema")
      | none => ("", none)
    return some
      { contentType
        schema
        required := body.isTrue "required"
        description := body.string? "description" }

def responses (document : Document) (operation : OperationSite) :
    Except ReadError (List ResponseSite) :=
  (operation.node.membersAt "responses").mapM fun (status, site) => do
    let node ← document.resolve site
    return ⟨status, node⟩

end OperationSite

namespace ResponseSite

def description? (response : ResponseSite) : Option String :=
  (response.node.string? "description").filter (· ≠ "")

/-- The schema of the body: of the chosen content, or of the response when it has none. -/
def schema? (response : ResponseSite) : Option Site :=
  match preferredContent? response.node with
  | some (_, media) => media.get? "schema"
  | none => response.node.get? "schema"

def headers (document : Document) (response : ResponseSite) :
    Except ReadError (List (String × Site)) :=
  (response.node.membersAt "headers").mapM fun (name, site) => do
    let node ← document.resolve site
    return (name, node)

end ResponseSite

end ServantGen
