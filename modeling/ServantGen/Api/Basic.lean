import ServantGen.Model
import ServantGen.Operation

/-!
# Interfaces

An interface is what a document describes: models and operations, under a title and a
version. Operations are grouped by their first tag, and enumerations that occur inside
types are listed once for each name.
-/

namespace ServantGen

/-- The identity of an interface. -/
structure ApiInfo where
  title : String
  version : String
  description : Option String
  deriving DecidableEq, Repr, Inhabited

/-- A complete interface. -/
structure Api where
  info : ApiInfo
  models : ModelTable
  operations : List Operation
  deriving DecidableEq, Repr

/-- Operations that share their first tag. -/
structure TagGroup where
  tag : String
  operations : List Operation
  deriving DecidableEq, Repr

/-- An enumeration that is no model of its own. -/
structure InlineEnum where
  name : String
  values : List String
  deriving DecidableEq, Repr

namespace Api

/-- The tag of operations that have none. -/
def defaultTag : String := "default"

def groupTag (operation : Operation) : String :=
  operation.primaryTag?.getD defaultTag

def operation? (api : Api) (id : String) : Option Operation :=
  api.operations.find? (·.id == id)

/-- The first occurrence of each element, as told apart by `key`. -/
def firstBy {α : Type} (key : α → String) : List String → List α → List α
  | _, [] => []
  | seen, x :: rest =>
    if key x ∈ seen then firstBy key seen rest else x :: firstBy key (key x :: seen) rest

/-- The tags of the operations in the order of their first use. -/
def tags (api : Api) : List String :=
  firstBy id [] (api.operations.map groupTag)

/-- The operations grouped by tag, groups in the order of their tags and operations in the
order of the document. -/
def tagGroups (api : Api) : List TagGroup :=
  (api.tags.mergeSort fun a b => a ≤ b).map fun tag =>
    ⟨tag, api.operations.filter fun operation => groupTag operation == tag⟩

def operationTypes (operation : Operation) : List DataType :=
  operation.parameters.map Parameter.type ++
    (operation.requestBody.map RequestBody.type).toList ++
    operation.responses.flatMap fun response =>
      response.type.toList ++ response.headers.map ResponseHeader.type

/-- The types that an interface mentions apart from routes: those of the models first. -/
def types (api : Api) : List DataType :=
  api.models.models.flatMap Model.types ++ api.operations.flatMap operationTypes

/-- The enumerations inside types, the first for each name. -/
def inlineEnums (api : Api) : List InlineEnum :=
  firstBy InlineEnum.name []
    (api.types.flatMap fun type => type.enums.map fun (name, values) => ⟨name, values⟩)

end Api

end ServantGen
