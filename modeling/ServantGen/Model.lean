import ServantGen.DataType

/-!
# Models and the model table

A model is a named type: a record, an enumeration, a union of other models or an alias.
Models refer to each other by name only, through the table that holds them in the order in
which their names were first inserted. `ModelTable.reachable` walks the references breadth
first; the models not yet visited bound the walk.
-/

namespace ServantGen

structure Field where
  /-- The identifier, unique within the record. -/
  name : String
  /-- The property name in the document. -/
  rawName : String
  type : DataType
  required : Bool
  description : Option String
  deriving DecidableEq, Repr, Inhabited

/-- What a model is. -/
inductive Shape where
  /-- An object with ordered fields. -/
  | record (fields : List Field)
  /-- One of the listed texts. -/
  | enum (values : List String)
  /-- One of the named models. -/
  | union (variants : List String)
  /-- A name for another type. -/
  | alias (type : DataType)
  deriving DecidableEq, Repr, Inhabited

/-- How a union tells its variants apart. -/
structure Discriminator where
  /-- The property that carries the tag. -/
  property : String
  /-- Tags and the models they select, in order. -/
  mapping : List (String × String)
  deriving DecidableEq, Repr, Inhabited

/-- A named type. -/
structure Model where
  /-- The identifier, unique among all types. -/
  name : String
  /-- The name in the document. -/
  rawName : String
  description : Option String
  shape : Shape
  discriminator : Option Discriminator
  deriving DecidableEq, Repr, Inhabited

namespace Model

def fields (model : Model) : List Field :=
  match model.shape with
  | .record fields => fields
  | _ => []

/-- The models that a model refers to, in order and with repetitions. -/
def references (model : Model) : List String :=
  match model.shape with
  | .record fields => fields.flatMap fun field => field.type.models
  | .union variants => variants
  | .alias type => type.models
  | .enum _ => []

def types (model : Model) : List DataType :=
  match model.shape with
  | .record fields => fields.map Field.type
  | .alias type => [type]
  | .enum _ | .union _ => []

end Model

/-- Models in order, one for each name. -/
structure ModelTable where
  models : List Model
  deriving DecidableEq, Repr, Inhabited

namespace ModelTable

def empty : ModelTable := ⟨[]⟩

def get? (table : ModelTable) (name : String) : Option Model :=
  table.models.find? (·.name == name)

def contains (table : ModelTable) (name : String) : Bool :=
  (table.get? name).isSome

def names (table : ModelTable) : List String :=
  table.models.map Model.name

/-- Put a model in the place of the one with its name, or at the end. -/
def insertInto (model : Model) : List Model → List Model
  | [] => [model]
  | other :: rest =>
    if other.name = model.name then model :: rest else other :: insertInto model rest

/-- Insert a model; one that has its name already is replaced in place. -/
def insert (table : ModelTable) (model : Model) : ModelTable :=
  ⟨insertInto model table.models⟩

@[simp] theorem get?_insert_same (table : ModelTable) (model : Model) :
    (table.insert model).get? model.name = some model := by
  obtain ⟨models⟩ := table
  simp only [insert, get?]
  induction models with
  | nil => simp [insertInto]
  | cons other rest ih => by_cases h : other.name = model.name <;> simp_all [insertInto]

theorem get?_insert_of_ne (table : ModelTable) {model : Model} {name : String}
    (h : model.name ≠ name) : (table.insert model).get? name = table.get? name := by
  obtain ⟨models⟩ := table
  simp only [insert, get?]
  induction models with
  | nil => simp [insertInto, h]
  | cons other rest ih =>
    by_cases hother : other.name = model.name
    · simp [insertInto, hother, h]
    · simp [insertInto, List.find?_cons, hother, ih]

def ofModels (models : List Model) : ModelTable :=
  models.foldl insert empty

/-- Visit the queued names in order. A name that has a model among the `unvisited` is listed
and queues the references of that model; any other name is unknown or was visited. -/
def visit (unvisited : List Model) (queue : List String) : List String :=
  match queue with
  | [] => []
  | name :: queue =>
    match _found : unvisited.find? (·.name == name) with
    | none => visit unvisited queue
    | some model =>
      name :: visit (unvisited.eraseP (·.name == name)) (queue ++ model.references)
termination_by (unvisited.length, queue.length)
decreasing_by
  · exact Prod.Lex.right _ (Nat.lt_succ_self _)
  · apply Prod.Lex.left
    have hmem := List.mem_of_find?_eq_some _found
    have hname := List.find?_some _found
    have hpos := List.length_pos_of_mem hmem
    rw [List.length_eraseP_of_mem hmem hname]
    exact Nat.sub_lt hpos Nat.one_pos

/-- The models that can be reached from a model through one or more references, nearest
first. -/
def reachable (table : ModelTable) (start : String) : List String :=
  match table.get? start with
  | none => []
  | some model => visit table.models model.references

/-- Whether a model can reach itself. -/
def isRecursive (table : ModelTable) (name : String) : Bool :=
  (table.reachable name).contains name

/-- References to names without a model: the referring model and the name. -/
def dangling (table : ModelTable) : List (String × String) :=
  table.models.flatMap fun model =>
    (model.references.filter fun name => !table.contains name).map fun name => (model.name, name)

end ModelTable

end ServantGen
