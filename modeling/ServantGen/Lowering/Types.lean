import ServantGen.Lowering.Properties
import ServantGen.Lowering.State
import ServantGen.Schema

/-!
# Types and models of schemas

The type of a schema is a reference, an enumeration, a container or a primitive; objects and
unions become models of their own, named after a hint. Types and models are found by one
recursion. Each step below is written for any way `recur` of finding the types of other
schemas, and `typeOf` ties the knot with a depth: `typeOf (n + 1)` is one step on top of
`typeOf n`.

References to named schemas are never followed, only named. Other references are followed
while fewer than `maxInlineDepth` of them are being followed.
-/

namespace ServantGen.Lowering

/-- A way to find the type of a schema, given a hint for new names and a location for
notices. -/
abbrev TypeFinder := Site → String → String → SchemaM DataType

/-- How deep references to nodes other than named schemas are followed. -/
def maxInlineDepth : Nat := 16

/-- Where named schemas live. -/
def schemaSections : List String :=
  ["#/components/schemas/", "#/definitions/"]

/-! ## What a schema looks like -/

/-- The values of an enumeration of texts: at least one text, and nothing else but `null`. -/
def stringEnum? (schema : Json) : Option (List String) := do
  let values ← (schema.get? "enum").bind Json.array?
  let texts := values.filterMap Json.string?
  let present := values.filter fun value => !(value matches .null)
  if !texts.isEmpty && texts.length == present.length then some texts else none

def hasProperties (schema : Json) : Bool :=
  ((schema.get? "properties").bind Json.object?).any fun fields => !fields.isEmpty

def alternatives? (schema : Site) : Option (List Site) :=
  (((schema.get? "oneOf").or (schema.get? "anyOf")).bind Site.items?).filter
    fun alternatives => !alternatives.isEmpty

/-- The parts of an `allOf` that is an array. -/
def parts? (schema : Site) : Option (List Site) :=
  (schema.get? "allOf").bind Site.items?

def description? (schema : Site) : Option String :=
  schema.string? "description"

/-- A model that holds a place until its schema is lowered. -/
def placeholder (name raw : String) : Model :=
  ⟨name, raw, none, .alias .any, none⟩

def namedSchema? (reference : String) : Option String :=
  (schemaSections.findSome? fun lead => Text.stripStart? lead.toList reference.toList).map
    fun token => String.ofList (Pointer.unescape token)

def schemaModel? (schemaNames : Entries String) (reference : String) : Option String :=
  (namedSchema? reference).bind schemaNames.get?

/-! ## Steps of the recursion -/

section Steps

variable (setting : Setting) (recur : TypeFinder)

def refType (reference hint location : String) : SchemaM DataType := do
  let state ← get
  match schemaModel? state.schemaNames reference with
  | some model => return .named model
  | none =>
    match Pointer.find? setting.document.tree reference with
    | none =>
      remark (.unresolvedReference reference) location
      return .any
    | some target =>
      if state.inlineDepth ≥ maxInlineDepth then
        remark (.nestedTooDeeply reference) location
        return .any
      else
        modify fun state => { state with inlineDepth := state.inlineDepth + 1 }
        let type ← recur target hint location
        modify fun state => { state with inlineDepth := state.inlineDepth - 1 }
        return type

/-- The fields for gathered properties, whose identifiers are claimed in a scope. -/
def fieldsOf (model location : String) (required : List String) :
    NameScope → List (String × Site) → SchemaM (List Field)
  | _, [] => return []
  | scope, (raw, property) :: rest => do
    let place := location ++ ".properties." ++ raw
    let (identifier, scope) := setting.target.claimIn scope raw .field
    let name ← noted identifier place
    let isRequired := required.contains raw
    let type ← recur property (model ++ " " ++ raw) place
    let field : Field :=
      { name
        rawName := raw
        type := if isRequired then type else type.orNone
        required := isRequired
        description := description? property }
    let fields ← fieldsOf model location required scope rest
    return field :: fields

def recordFields (model : String) (schema : Site) (location : String) : SchemaM (List Field) :=
  let gathered := properties setting.document schema
  fieldsOf setting recur model location gathered.required .empty gathered.properties

/-- A variant of a union: its model and, when it is a reference to a named schema, the
schema's name as the reference writes it. -/
structure Variant where
  model : String
  schemaName : Option String

/-- The variant for one alternative of a union. A type that is no model gets an alias. -/
def variantOf (model location : String) (position : Nat) (alternative : Site) :
    SchemaM Variant := do
  let state ← get
  match alternative.reference?.bind fun reference =>
      (schemaModel? state.schemaNames reference).map fun target =>
        Variant.mk target (some (Pointer.lastToken reference)) with
  | some variant => return variant
  | none =>
    let hint := model ++ " variant " ++ Text.decimal position
    match ← recur alternative hint location with
    | .named target => return ⟨target, none⟩
    | type =>
      let name ← freshType setting hint location
      insertModel ⟨name, hint, none, .alias type, none⟩
      return ⟨name, none⟩

/-- The variants of a union, counted from `position`. -/
def variantsOf (model location : String) : Nat → List Site → SchemaM (List Variant)
  | _, [] => return []
  | position, alternative :: rest => do
    let variant ← variantOf setting recur model location position alternative
    let variants ← variantsOf model location (position + 1) rest
    return variant :: variants

/-- How a union tells its variants apart: the tags that the schema maps to models, or the
names of the referenced schemas when it maps none. -/
def discriminatorOf? (schemaNames : Entries String) (schema : Site) (variants : List Variant) :
    Option Discriminator := do
  let node ← schema.get? "discriminator"
  let property ← node.string? "propertyName"
  let mapping := match (node.get? "mapping").bind Site.members? with
    | some entries => entries.filterMap fun (tag, entry) => do
        let target ← entry.node.string?
        let model ← (schemaModel? schemaNames target).or (schemaNames.get? target)
        some (tag, model)
    | none => variants.filterMap fun variant =>
        variant.schemaName.map fun schemaName => (schemaName, variant.model)
  return ⟨property, mapping⟩

/-- What a model made from a schema is, and how it tells variants apart. -/
def shapeOf (name : String) (schema : Site) (location : String) :
    SchemaM (Shape × Option Discriminator) :=
  match schema.reference? with
  | some reference => do
    let type ← refType setting recur reference name location
    return (.alias type, none)
  | none =>
    match stringEnum? schema.node with
    | some values => return (.enum values, none)
    | none =>
      if schema.has "allOf" || hasProperties schema.node then do
        let fields ← recordFields setting recur name schema location
        return (.record fields, none)
      else match alternatives? schema with
        | some alternatives => do
          let variants ← variantsOf setting recur name location 1 alternatives
          let state ← get
          return (.union (variants.map Variant.model),
            discriminatorOf? state.schemaNames schema variants)
        | none =>
          if schema.string? "type" == some "object" && !schema.has "additionalProperties" then
            return (.record [], none)
          else do
            let type ← recur schema name location
            return (.alias type, none)

def modelOf (name raw : String) (schema : Site) (location : String) : SchemaM Model := do
  let (shape, discriminator) ← shapeOf setting recur name schema location
  return ⟨name, raw, description? schema, shape, discriminator⟩

/-- Make a model of its own from a schema inside another one. The name is in the table before
the schema is lowered. -/
def hoist (schema : Site) (hint location : String) : SchemaM DataType := do
  let name ← freshType setting hint location
  insertModel (placeholder name hint)
  let model ← modelOf setting recur name hint schema location
  insertModel model
  return .named name

/-- The type of an object without properties: a map when its schema says so. -/
def mapType (schema : Site) (hint location : String) : SchemaM DataType :=
  match schema.get? "additionalProperties" with
  | some value =>
    match value.node with
    | .bool true => return .map .any
    | .object _ => do
      let inner ← recur value (hint ++ " value") location
      return .map inner
    | _ => return .any
  | none => return .any

/-- The type of a schema by its declared type alone. -/
def plainType (schema : Site) (hint location : String) : SchemaM DataType :=
  match Schema.typeName? schema.node with
  | some "array" =>
    match schema.get? "items" with
    | some items => do
      let item ← recur items (hint ++ " item") location
      return .array item
    | none => do
      remark .arrayWithoutItems location
      return .array .any
  | some "object" | none => mapType recur schema hint location
  | some other =>
    match Schema.primitive? other (schema.string? "format") with
    | some kind => return .primitive kind
    | none => do
      remark (.unknownType other) location
      return .any

/-- The type of a schema, leaving aside whether it admits `null`. -/
def coreType (schema : Site) (hint location : String) : SchemaM DataType :=
  match schema.reference? with
  | some reference => refType setting recur reference hint location
  | none =>
    match stringEnum? schema.node with
    | some values => do
      let name ← freshType setting hint location
      return .enum name values
    | none =>
      match parts? schema with
      | some [part] =>
        if hasProperties schema.node then hoist setting recur schema hint location
        else recur part hint location
      | some _ => hoist setting recur schema hint location
      | none =>
        if (alternatives? schema).isSome || hasProperties schema.node then
          hoist setting recur schema hint location
        else plainType recur schema hint location

/-- The type of a schema, by one step of the recursion. -/
def typeStep (schema : Site) (hint location : String) : SchemaM DataType := do
  let type ← coreType setting recur schema hint location
  return if Schema.isNullable schema.node then type.orNone else type

end Steps

/-- The type of a schema, with a depth for the recursion. -/
def typeOf (setting : Setting) : Nat → TypeFinder
  | 0 => fun _ _ _ _ => none
  | depth + 1 => typeStep setting (typeOf setting depth)

/-- The depth that suffices whenever any depth does: a step depends only on the node and on
how many references are being followed, so a longer chain of steps repeats one and goes on
without end. -/
def Setting.depth (setting : Setting) : Nat :=
  (setting.document.tree.nodeCount + 1) * (maxInlineDepth + 1) + 1

end ServantGen.Lowering
