import ServantGen.Code
import ServantGen.Haskell.Endpoint
import ServantGen.Haskell.Package

/-!
# The module of the interface

One route type for each tag, the type of the whole interface, a record of handlers and the
server made from such a record.
-/

namespace ServantGen.Haskell

structure EndpointGroup where
  typeName : String
  tag : String
  endpoints : List Endpoint
  deriving Repr

structure ApiModule where
  /-- The module under which it stands. -/
  module : String
  /-- The name of the record of handlers. -/
  backend : String
  groups : List EndpointGroup
  notes : List RenderNote
  deriving Repr

/-! ## Names -/

def typeNames (context : RenderContext) : List String :=
  context.api.models.names ++ context.api.inlineEnums.map InlineEnum.name

/-- A scope that holds names, each for itself. -/
def scopeOf (names : List String) : NameScope :=
  names.foldl (fun scope name => (scope.claim [] name name).2) .empty

/-- A name with underscores behind it until it is none of the taken ones. As many underscores
as there are taken names always suffice. -/
def clearOf (taken : List String) : Nat → String → String
  | 0, name => name
  | fuel + 1, name => if taken.contains name then clearOf taken fuel (name ++ "_") else name

/-- The name of the record of handlers. -/
def backendName (context : RenderContext) : String :=
  let taken := typeNames context
  clearOf taken taken.length (moduleName context ++ "Backend")

/-! ## Building the module -/

/-- The groups of the tags in order, with the notes made for them. -/
def groupsOf (context : RenderContext) :
    NameScope → List TagGroup → List EndpointGroup × List RenderNote
  | _, [] => ([], [])
  | scope, group :: rest =>
    let base := context.target.convention.base .type group.tag
    let (identifier, scope) := scope.claimFresh ["API"] group.tag (base ++ "API")
    let endpoints := group.operations.map (endpointOf context)
    let (groups, notes) := groupsOf context scope rest
    (⟨identifier.name, group.tag, endpoints.map Prod.fst⟩ :: groups,
      (identifier.collision.map RenderNote.renamed).toList ++ endpoints.flatMap Prod.snd ++ notes)

/-- The module of an interface; an error when an operation refers to a model that does not
exist. -/
def apiModule (context : RenderContext) : Except RenderError ApiModule := do
  let tagGroups := context.api.tagGroups
  (tagGroups.flatMap TagGroup.operations).forM (checkOperation context)
  let (groups, notes) := groupsOf context (scopeOf (typeNames context)) tagGroups
  return ⟨moduleName context, backendName context, groups, notes⟩

namespace ApiModule

def endpoints (api : ApiModule) : List Endpoint :=
  api.groups.flatMap EndpointGroup.endpoints

def imports (api : ApiModule) : List Import :=
  ⟨"Data.Kind", "Type"⟩ :: api.endpoints.flatMap fun endpoint =>
    endpoint.parts.flatMap RoutePart.imports

def exports (api : ApiModule) : List String :=
  ["API", "api"] ++ api.groups.map EndpointGroup.typeName ++
    [api.backend ++ " (..)", "serverFromBackend"]

end ApiModule

/-! ## Writing the module -/

/-- Texts with a mark in front of the first and another in front of the others. -/
def marked (first rest : String) : List String → List String
  | [] => []
  | text :: texts => (first ++ text) :: texts.map (rest ++ ·)

def alternative : String := ":<|>"

def pragma (name : String) : String :=
  "\x7b-# LANGUAGE " ++ name ++ " #-\x7d"

def writeExports (exports : List String) (code : Code) : Code :=
  code.indent
    |>.lines (marked "( " ", " exports)
    |>.line ") where"
    |>.dedent
    |>.blank

/-- The lines of an endpoint in its group: a comment, and the route. -/
def endpointLines (lead : String) (endpoint : Endpoint) : List String :=
  let operation := endpoint.operation
  ["-- " ++ operation.id ++ ": " ++ operation.method.name ++ " " ++ commentText operation.rawPath,
   lead ++ endpoint.route]

def writeGroup (code : Code) (group : EndpointGroup) : Code :=
  let lines := match group.endpoints with
    | [] => []
    | first :: rest =>
      endpointLines "" first ++ rest.flatMap (endpointLines (alternative ++ " "))
  code.blank
    |>.line ("-- | Operations tagged @" ++ commentText group.tag ++ "@.")
    |>.line ("type " ++ group.typeName ++ " =")
    |>.indent
    |>.lines lines
    |>.dedent

def writeApiType (groups : List EndpointGroup) (code : Code) : Code :=
  let code := code.blank |>.line "-- | The complete API."
  if groups.isEmpty then code.line "type API = EmptyAPI"
  else
    code.line "type API ="
      |>.indent
      |>.lines (marked "" (alternative ++ " ") (groups.map EndpointGroup.typeName))
      |>.dedent

def handlerDoc? (operation : Operation) : Option String := do
  let text ← operation.summary.or operation.description
  let text := commentText text
  if text = "" then none
  else if operation.deprecated then some ("Deprecated. " ++ text)
  else some text

def handlerLines (lead : String) (endpoint : Endpoint) : List String :=
  let signature := endpoint.operation.id ++ " :: " ++ endpoint.handler
  match handlerDoc? endpoint.operation with
  | some doc => [lead ++ "-- | " ++ doc, "  " ++ signature]
  | none => [lead ++ signature]

def writeBackend (api : ApiModule) (code : Code) : Code :=
  let head := "data " ++ api.backend ++ " (m :: Type -> Type) = " ++ api.backend
  let code := code.line "-- | Handlers for every operation, running in @m@." |>.line head
  match api.endpoints with
  | [] => code
  | first :: rest =>
    code.indent
      |>.lines (handlerLines "\x7b " first ++ rest.flatMap (handlerLines ", "))
      |>.line "\x7d"
      |>.dedent

/-- The handlers of a group; in parentheses when there are several handlers and several
groups. -/
def serverGroup (several : Bool) (group : EndpointGroup) : String :=
  let handlers := group.endpoints.map fun endpoint => endpoint.operation.id
  let joined := Text.join (" " ++ alternative ++ " ") handlers
  if several && handlers.length > 1 then "(" ++ joined ++ ")" else joined

def writeServer (api : ApiModule) (code : Code) : Code :=
  let code := code.line "-- | Serve the API from a backend."
    |>.line ("serverFromBackend :: " ++ api.backend ++ " Handler -> Server API")
  if api.groups.isEmpty then code.line "serverFromBackend _ = emptyServer"
  else
    let servers := api.groups.map (serverGroup (api.groups.length > 1))
    code.line ("serverFromBackend " ++ api.backend ++ " \x7b..\x7d =")
      |>.indent
      |>.lines (marked "" (alternative ++ " ") servers)
      |>.dedent

def ApiModule.code (context : RenderContext) (api : ApiModule) : Code :=
  let head := Code.empty
    |>.lines (["DataKinds", "KindSignatures", "RecordWildCards", "TypeOperators"].map pragma)
    |>.blank
    |>.lines (headerComment context "Servant API")
    |>.line ("module " ++ api.module ++ ".API")
    |> writeExports api.exports
    |>.lines (importLines api.imports)
    |>.line "import Servant"
  let head :=
    if hasTypes context then head.blank |>.line ("import " ++ api.module ++ ".Types") else head
  api.groups.foldl writeGroup head
    |> writeApiType api.groups
    |>.blank
    |>.line "api :: Proxy API"
    |>.line "api = Proxy"
    |>.blank
    |> writeBackend api
    |>.blank
    |> writeServer api

def apiTemplate : Template :=
  wholeApi "API.hs" false (fun context => "lib/" ++ moduleName context ++ "/API.hs")
    fun context => do
      let api ← apiModule context
      return .file ((api.code context).text indentStep) api.notes

end ServantGen.Haskell
