import Mathlib.Data.List.Perm.Basic
import ServantGen.Api.Basic
import ServantGen.Proofs.Closure.Inventory

/-!
# The identifiers of an interface

Every identifier of an interface was claimed for a raw name. Models, fields, parameters and
operations keep theirs; the raw name of an enumeration inside a type is the hint under which the
type was found, and the place of the type tells it. `Api.namings` lists all identifiers with
their raw names. An identifier is renamed when it is not the one that its raw name asks for.
-/

namespace ServantGen

/-- An identifier: what it stands for, the raw name it was claimed for, and the name itself. -/
structure Naming where
  role : Role
  raw : String
  name : String
  deriving DecidableEq, Repr

namespace Naming

/-- Whether the name is another one than the raw name asks for. -/
def isRenamed (target : Target) (naming : Naming) : Bool :=
  decide (naming.name ≠ target.identifier naming.role naming.raw)

def namesIn (role : Role) (namings : List Naming) : List String :=
  (namings.filter (·.role == role)).map Naming.name

@[simp] theorem namesIn_nil (role : Role) : namesIn role [] = [] := rfl

@[simp] theorem namesIn_append (role : Role) (left right : List Naming) :
    namesIn role (left ++ right) = namesIn role left ++ namesIn role right := by
  simp [namesIn]

theorem namesIn_cons (role : Role) (naming : Naming) (rest : List Naming) :
    namesIn role (naming :: rest) =
      if naming.role = role then naming.name :: namesIn role rest else namesIn role rest := by
  by_cases h : naming.role = role <;> simp [namesIn, h]

theorem namesIn_flatMap {α : Type} (role : Role) (items : List α) (each : α → List Naming) :
    namesIn role (items.flatMap each) = items.flatMap fun item => namesIn role (each item) := by
  induction items with
  | nil => rfl
  | cons item items ih => simp [List.flatMap_cons, ih]

theorem namesIn_perm {role : Role} {left right : List Naming} (h : left.Perm right) :
    (namesIn role left).Perm (namesIn role right) :=
  (h.filter _).map _

end Naming

/-! ## Where the identifiers are -/

/-- The enumerations inside a type that was found under a hint. -/
def DataType.namings (hint : String) : DataType → List Naming
  | .enum name _ => [⟨.type, hint, name⟩]
  | .array item => item.namings (hint ++ " item")
  | .map value => value.namings (hint ++ " value")
  | .optional inner => inner.namings hint
  | .primitive _ | .named _ => []

namespace DataType

@[simp] theorem namings_orNone (hint : String) (type : DataType) :
    type.orNone.namings hint = type.namings hint := by
  unfold orNone
  split <;> rfl

/-- A type or its option, as a condition says. -/
@[simp] theorem namings_ite (hint : String) (condition : Prop) [Decidable condition]
    (type : DataType) :
    (if condition then type else type.orNone).namings hint = type.namings hint := by
  split
  · rfl
  · exact namings_orNone hint type

theorem namesIn_namings (role : Role) (hint : String) (type : DataType) :
    Naming.namesIn role (type.namings hint) =
      if role = .type then type.enums.map Prod.fst else [] := by
  induction type generalizing hint with
  | primitive kind => simp [namings]
  | named model => simp [namings]
  | enum name values =>
    by_cases h : role = .type <;> simp [namings, Naming.namesIn_cons, h, eq_comm]
  | array item ih => simpa [namings] using ih (hint ++ " item")
  | map value ih => simpa [namings] using ih (hint ++ " value")
  | optional inner ih => simpa [namings] using ih hint

end DataType

def Field.namings (model : String) (field : Field) : List Naming :=
  ⟨.field, field.rawName, field.name⟩ :: field.type.namings (model ++ " " ++ field.rawName)

/-- The identifiers inside a model of some shape; the type of an alias was found under a hint. -/
def Shape.namings (model hint : String) : Shape → List Naming
  | .record fields => fields.flatMap (Field.namings model)
  | .alias type => type.namings hint
  | .enum _ | .union _ => []

namespace Model

def inside (hint : String) (model : Model) : List Naming :=
  model.shape.namings model.name hint

def naming (model : Model) : Naming :=
  ⟨.type, model.rawName, model.name⟩

def namings (hint : String) (model : Model) : List Naming :=
  model.naming :: model.inside hint

/-- Fields aside, a model holds enumerations only. -/
theorem namesIn_inside {role : Role} (hrole : role ≠ .field) (hint : String) (model : Model) :
    Naming.namesIn role (model.inside hint) =
      if role = .type then model.types.flatMap fun type => type.enums.map Prod.fst else [] := by
  unfold inside types Shape.namings
  cases model.shape with
  | record fields =>
    by_cases htype : role = .type <;>
      simp [Naming.namesIn_flatMap, Field.namings, Naming.namesIn_cons,
        DataType.namesIn_namings, List.flatMap_map, htype, hrole.symm]
  | «alias» type => simp [DataType.namesIn_namings]
  | enum values => simp
  | union variants => simp

end Model

def Parameter.namings (operation : String) (parameter : Parameter) : List Naming :=
  ⟨.parameter, parameter.rawName, parameter.name⟩ ::
    parameter.type.namings (operation ++ " " ++ parameter.rawName)

def RequestBody.namings (operation : String) (body : Option RequestBody) : List Naming :=
  body.toList.flatMap fun body => body.type.namings (operation ++ " request")

def Response.namings (operation : String) (response : Response) : List Naming :=
  (response.type.toList.flatMap fun type =>
    type.namings (operation ++ " response " ++ response.status.name)) ++
  response.headers.flatMap fun header =>
    header.type.namings (operation ++ " " ++ header.name ++ " header")

namespace Operation

def inside (operation : Operation) : List Naming :=
  operation.parameters.flatMap (Parameter.namings operation.id) ++
    RequestBody.namings operation.id operation.requestBody ++
    operation.responses.flatMap (Response.namings operation.id)

def namings (operation : Operation) : List Naming :=
  ⟨.function, operation.rawId, operation.id⟩ :: operation.inside

/-- Parameters aside, an operation holds enumerations only. -/
theorem namesIn_inside {role : Role} (hrole : role ≠ .parameter) (operation : Operation) :
    Naming.namesIn role operation.inside =
      if role = .type then
        (Api.operationTypes operation).flatMap fun type => type.enums.map Prod.fst
      else [] := by
  by_cases htype : role = .type <;>
    simp [inside, Api.operationTypes, Naming.namesIn_flatMap, Parameter.namings,
      RequestBody.namings, Response.namings, Naming.namesIn_cons, DataType.namesIn_namings,
      List.flatMap_map, List.flatMap_assoc, htype, hrole.symm]
  cases operation.requestBody <;> rfl

end Operation

namespace Api

/-- The enumerations inside the types of an interface, those of routes apart. -/
def enumNames (api : Api) : List String :=
  api.types.flatMap fun type => type.enums.map Prod.fst

/-- All identifiers of an interface, whose first `declared` models were made for named schemas:
these give their identifier as a hint for the type of an alias, any other model its raw name. -/
def namings (declared : Nat) (api : Api) : List Naming :=
  ((api.models.models.take declared).flatMap fun model => model.namings model.name) ++
    ((api.models.models.drop declared).flatMap fun model => model.namings model.rawName) ++
    api.operations.flatMap Operation.namings

end Api

/-- The names of models and of the enumerations inside them. -/
theorem Naming.namesIn_models_perm (models : List Model) (hint : Model → String) :
    (Naming.namesIn .type (models.flatMap fun model => model.namings (hint model))).Perm
      (models.map Model.name ++
        (models.flatMap Model.types).flatMap fun type => type.enums.map Prod.fst) := by
  have hmodel : ∀ model : Model, Naming.namesIn .type (model.namings (hint model)) =
      model.name :: model.types.flatMap fun type => type.enums.map Prod.fst := by
    intro model
    rw [Model.namings, namesIn_cons, Model.namesIn_inside (by decide)]
    rfl
  rw [namesIn_flatMap, List.flatMap_assoc]
  simp only [hmodel]
  exact (List.map_append_flatMap_perm models _ _).symm

namespace Api

/-- The types of an interface are its models and its enumerations. -/
theorem namesIn_type_perm (declared : Nat) (api : Api) :
    (Naming.namesIn .type (api.namings declared)).Perm (api.models.names ++ api.enumNames) := by
  let enums (types : List DataType) := types.flatMap fun type => type.enums.map Prod.fst
  let front := api.models.models.take declared
  let back := api.models.models.drop declared
  have hoperations : Naming.namesIn .type (api.operations.flatMap Operation.namings) =
      enums (api.operations.flatMap operationTypes) := by
    simp [enums, Naming.namesIn_flatMap, List.flatMap_assoc, Operation.namings,
      Naming.namesIn_cons, Operation.namesIn_inside]
  have hsplit : front ++ back = api.models.models := List.take_append_drop declared _
  have htarget : api.models.names ++ api.enumNames =
      (front.map Model.name ++ back.map Model.name) ++
        (enums (front.flatMap Model.types) ++ enums (back.flatMap Model.types) ++
          enums (api.operations.flatMap operationTypes)) := by
    simp only [ModelTable.names, enumNames, Api.types, enums, ← hsplit, List.map_append,
      List.flatMap_append]
  rw [namings, Naming.namesIn_append, Naming.namesIn_append, hoperations, htarget,
    ← List.append_assoc]
  refine List.Perm.append_right _ ?_
  refine ((Naming.namesIn_models_perm front Model.name).append
    (Naming.namesIn_models_perm back Model.rawName)).trans ?_
  simp only [List.append_assoc]
  exact List.perm_append_comm_assoc _ _ _ |>.append_left _

/-- The functions of an interface are its operations. -/
theorem namesIn_function (declared : Nat) (api : Api) :
    Naming.namesIn .function (api.namings declared) = api.operations.map Operation.id := by
  simp [namings, Naming.namesIn_flatMap, Model.namings, Model.naming, Operation.namings,
    Naming.namesIn_cons, Model.namesIn_inside, Operation.namesIn_inside,
    List.flatMap_eq_nil_iff.2, ← List.map_eq_flatMap]

end Api

end ServantGen
