import ServantGen.Lowering.Operations

/-!
# Kinds of schemas and parameters

Which keys a schema has, and which of them is looked at first, decides how its type and its model
are found. The order in which the keys are looked at is read off here, once: a schema is of one
kind, the kind keeps what is known of the schema, and each step of the recursion is told kind by
kind. What is proved of every step then has a case for each kind, and another order of the keys
is a change of this module alone. Parameters are of one kind each by their location.
-/

namespace ServantGen.Lowering

section Schemas

variable {setting : Setting} {recur : TypeFinder}

/-! ## Models -/

/-- How the model of a schema is made. -/
inductive ShapeKind (schema : Site) : Type
  /-- The alias of what a reference names. -/
  | reference (reference : String) (hreference : schema.reference? = some reference)
  /-- An enumeration of texts. -/
  | enum (values : List String) (hreference : schema.reference? = none)
    (hvalues : stringEnum? schema.node = some values)
  /-- A record of the properties of the schema and its parts. -/
  | record (hreference : schema.reference? = none) (hvalues : stringEnum? schema.node = none)
    (hobject : (schema.has "allOf" || hasProperties schema.node) = true)
  /-- A union of alternatives. -/
  | union (alternatives : List Site) (hreference : schema.reference? = none)
    (hvalues : stringEnum? schema.node = none)
    (hobject : ¬ (schema.has "allOf" || hasProperties schema.node) = true)
    (halternatives : alternatives? schema = some alternatives)
  /-- A record without fields, of an object of which nothing is said. -/
  | empty (hreference : schema.reference? = none) (hvalues : stringEnum? schema.node = none)
    (hobject : ¬ (schema.has "allOf" || hasProperties schema.node) = true)
    (halternatives : alternatives? schema = none)
    (hempty : (schema.string? "type" == some "object" && !schema.has "additionalProperties") = true)
  /-- The alias of the type of the schema. -/
  | type (hreference : schema.reference? = none) (hvalues : stringEnum? schema.node = none)
    (hobject : ¬ (schema.has "allOf" || hasProperties schema.node) = true)
    (halternatives : alternatives? schema = none)
    (hempty :
      ¬ (schema.string? "type" == some "object" && !schema.has "additionalProperties") = true)

def shapeKind (schema : Site) : ShapeKind schema :=
  match hreference : schema.reference? with
  | some reference => .reference reference hreference
  | none =>
    match hvalues : stringEnum? schema.node with
    | some values => .enum values hreference hvalues
    | none =>
      if hobject : (schema.has "allOf" || hasProperties schema.node) = true then
        .record hreference hvalues hobject
      else match halternatives : alternatives? schema with
        | some alternatives => .union alternatives hreference hvalues hobject halternatives
        | none =>
          if hempty :
              (schema.string? "type" == some "object" && !schema.has "additionalProperties") =
                true then
            .empty hreference hvalues hobject halternatives hempty
          else .type hreference hvalues hobject halternatives hempty

theorem shapeOf_of_reference {schema : Site} {reference : String}
    (h : schema.reference? = some reference) (name location : String) :
    shapeOf setting recur name schema location = do
      let type ← refType setting recur reference name location
      return (.alias type, none) := by
  simp only [shapeOf, h]

/-- The model of a schema is made by its kind. -/
theorem shapeOf_eq (name : String) (schema : Site) (location : String) :
    shapeOf setting recur name schema location =
      match shapeKind schema with
      | .reference reference _ => do
        let type ← refType setting recur reference name location
        return (.alias type, none)
      | .enum values _ _ => return (.enum values, none)
      | .record _ _ _ => do
        let fields ← recordFields setting recur name schema location
        return (.record fields, none)
      | .union alternatives _ _ _ _ => do
        let variants ← variantsOf setting recur name location 1 alternatives
        let state ← get
        return (.union (variants.map Variant.model),
          discriminatorOf? state.schemaNames schema variants)
      | .empty _ _ _ _ _ => return (.record [], none)
      | .type _ _ _ _ _ => do
        let type ← recur schema name location
        return (.alias type, none) := by
  cases shapeKind schema <;> simp only [shapeOf, *] <;> rfl

/-! ## Types -/

theorem has_of_parts? {schema : Site} {parts : List Site} (h : parts? schema = some parts) :
    schema.has "allOf" = true := by
  obtain ⟨below, hbelow, -⟩ := Option.bind_eq_some_iff.1 h
  obtain ⟨node, hnode, -⟩ := Option.map_eq_some_iff.1 hbelow
  exact Option.isSome_iff_exists.2 ⟨node, hnode⟩

/-- A schema that has a model of its own where it stands inside another one. -/
structure IsObject (schema : Site) : Prop where
  noReference : schema.reference? = none
  noEnum : stringEnum? schema.node = none
  parts : (schema.has "allOf" || hasProperties schema.node) = true ∨
    (alternatives? schema).isSome = true

/-- An object for which the type of a schema asks. -/
structure IsHoisted (schema : Site) : Prop extends IsObject schema where
  /-- It is not a part with nothing beside it. -/
  own : ∀ part, parts? schema = some [part] → hasProperties schema.node = true
  /-- Its parts, if it has nothing else, are an array. -/
  listed : parts? schema = none →
    ((alternatives? schema).isSome || hasProperties schema.node) = true

/-- How the type of a schema is found. -/
inductive TypeKind (schema : Site) : Type
  /-- What a reference names. -/
  | reference (reference : String) (hreference : schema.reference? = some reference)
  /-- An enumeration of texts, with a name of its own. -/
  | enum (values : List String) (hreference : schema.reference? = none)
    (hvalues : stringEnum? schema.node = some values)
  /-- A model of its own. -/
  | object (hobject : IsHoisted schema)
  /-- The type of the only part, if there is nothing beside it. -/
  | part (part : Site) (hreference : schema.reference? = none)
    (hvalues : stringEnum? schema.node = none) (hparts : parts? schema = some [part])
    (hown : ¬ hasProperties schema.node = true)
  /-- The declared type. -/
  | plain (hreference : schema.reference? = none) (hvalues : stringEnum? schema.node = none)
    (hparts : parts? schema = none)
    (hother : ¬ ((alternatives? schema).isSome || hasProperties schema.node) = true)

def typeKind (schema : Site) : TypeKind schema :=
  match hreference : schema.reference? with
  | some reference => .reference reference hreference
  | none =>
    match hvalues : stringEnum? schema.node with
    | some values => .enum values hreference hvalues
    | none =>
      match hparts : parts? schema with
      | some [part] =>
        if hown : hasProperties schema.node = true then
          .object ⟨⟨hreference, hvalues, .inl (by simp [hown])⟩, fun _ _ => hown, by simp [hparts]⟩
        else .part part hreference hvalues hparts hown
      | some [] =>
        .object ⟨⟨hreference, hvalues, .inl (by simp [has_of_parts? hparts])⟩, by simp [hparts],
          by simp [hparts]⟩
      | some (_ :: _ :: _) =>
        .object ⟨⟨hreference, hvalues, .inl (by simp [has_of_parts? hparts])⟩, by simp [hparts],
          by simp [hparts]⟩
      | none =>
        if hother : ((alternatives? schema).isSome || hasProperties schema.node) = true then
          .object ⟨⟨hreference, hvalues, by grind⟩, by simp [hparts], fun _ => hother⟩
        else .plain hreference hvalues hparts hother

theorem coreType_of_isHoisted {schema : Site} (h : IsHoisted schema) (hint location : String) :
    coreType setting recur schema hint location = hoist setting recur schema hint location := by
  simp only [coreType, h.noReference, h.noEnum]
  split
  · rename_i part hparts
    exact if_pos (h.own part hparts)
  · rfl
  · rename_i hparts
    exact if_pos (h.listed hparts)

theorem coreType_of_reference {schema : Site} {reference : String}
    (h : schema.reference? = some reference) (hint location : String) :
    coreType setting recur schema hint location =
      refType setting recur reference hint location := by
  simp only [coreType, h]

theorem coreType_of_part {schema part : Site} (hreference : schema.reference? = none)
    (hvalues : stringEnum? schema.node = none) (hparts : parts? schema = some [part])
    (hown : hasProperties schema.node = false) (hint location : String) :
    coreType setting recur schema hint location = recur part hint location := by
  simp [coreType, hreference, hvalues, hparts, hown]

/-- The type of a schema is found by its kind. -/
theorem coreType_eq (schema : Site) (hint location : String) :
    coreType setting recur schema hint location =
      match typeKind schema with
      | .reference reference _ => refType setting recur reference hint location
      | .enum values _ _ => do
        let name ← freshType setting hint location
        return .enum name values
      | .object _ => hoist setting recur schema hint location
      | .part part _ _ _ _ => recur part hint location
      | .plain _ _ _ _ => plainType recur schema hint location := by
  cases typeKind schema with
  | object hobject => exact coreType_of_isHoisted hobject hint location
  | _ => simp only [coreType, *] <;> rfl

/-! ## Declared types -/

inductive PlainKind (schema : Site) : Type
  /-- An array of what its items are. -/
  | array (items : Site) (htype : Schema.typeName? schema.node = some "array")
    (hitems : schema.get? "items" = some items)
  /-- An array whose items are not described. -/
  | anyArray (htype : Schema.typeName? schema.node = some "array")
    (hitems : schema.get? "items" = none)
  /-- A map to what its values are. -/
  | map (value : Site) (fields : List (String × Json))
    (htype : Schema.typeName? schema.node = some "object" ∨ Schema.typeName? schema.node = none)
    (hvalue : schema.get? "additionalProperties" = some value) (hnode : value.node = .object fields)
  /-- A map to any values. -/
  | anyMap (value : Site)
    (htype : Schema.typeName? schema.node = some "object" ∨ Schema.typeName? schema.node = none)
    (hvalue : schema.get? "additionalProperties" = some value) (hnode : value.node = .bool true)
  /-- An object whose values are not described, or nothing at all. -/
  | any
    (htype : Schema.typeName? schema.node = some "object" ∨ Schema.typeName? schema.node = none)
    (hvalue : ∀ value, schema.get? "additionalProperties" = some value →
      value.node ≠ .bool true ∧ ∀ fields, value.node ≠ .object fields)
  /-- A primitive type. -/
  | primitive (type : String) (kind : Primitive)
    (htype : Schema.typeName? schema.node = some type) (harray : type ≠ "array")
    (hobject : type ≠ "object")
    (hkind : Schema.primitive? type (schema.string? "format") = some kind)
  /-- A type that is not known. -/
  | unknown (type : String) (htype : Schema.typeName? schema.node = some type)
    (harray : type ≠ "array") (hobject : type ≠ "object")
    (hkind : Schema.primitive? type (schema.string? "format") = none)

/-- The way in which the type of an object without properties is found. -/
def objectKind (schema : Site)
    (htype : Schema.typeName? schema.node = some "object" ∨ Schema.typeName? schema.node = none) :
    PlainKind schema :=
  match hvalue : schema.get? "additionalProperties" with
  | none => .any htype (by simp [hvalue])
  | some value =>
    match hnode : value.node with
    | .bool true => .anyMap value htype hvalue hnode
    | .object fields => .map value fields htype hvalue hnode
    | .bool false | .null | .number _ | .string _ | .array _ =>
      .any htype (by simp [hvalue, hnode])

/-- The way in which the type of a schema is found by its declared type. -/
def plainKind (schema : Site) : PlainKind schema :=
  match htype : Schema.typeName? schema.node with
  | none => objectKind schema (.inr htype)
  | some type =>
    if harray : type = "array" then
      match hitems : schema.get? "items" with
      | some items => .array items (harray ▸ htype) hitems
      | none => .anyArray (harray ▸ htype) hitems
    else
      if hobject : type = "object" then objectKind schema (.inl (hobject ▸ htype))
      else
        match hkind : Schema.primitive? type (schema.string? "format") with
        | some kind => .primitive type kind htype harray hobject hkind
        | none => .unknown type htype harray hobject hkind

/-- The type of a schema by its declared type is found by its kind. -/
theorem plainType_eq (schema : Site) (hint location : String) :
    plainType recur schema hint location =
      match plainKind schema with
      | .array items _ _ => do
        let item ← recur items (hint ++ " item") location
        return .array item
      | .anyArray _ _ => do
        remark .arrayWithoutItems location
        return .array .any
      | .map value _ _ _ _ => do
        let inner ← recur value (hint ++ " value") location
        return .map inner
      | .anyMap _ _ _ _ => return .map .any
      | .any _ _ => return .any
      | .primitive _ kind _ _ _ _ => return .primitive kind
      | .unknown type _ _ _ _ => do
        remark (.unknownType type) location
        return .any := by
  cases plainKind schema with
  | map value fields htype hvalue hnode =>
    obtain htype | htype := htype <;> simp only [plainType, mapType, htype, hvalue, hnode]
  | anyMap value htype hvalue hnode =>
    obtain htype | htype := htype <;> simp only [plainType, mapType, htype, hvalue, hnode]
  | any htype hvalue =>
    have hmap : mapType recur schema hint location = return .any := by
      unfold mapType
      split
      · rename_i value hfound
        obtain ⟨hbool, hobject⟩ := hvalue value hfound
        split
        · contradiction
        · exact absurd ‹_› (hobject _)
        · rfl
      · rfl
    obtain htype | htype := htype <;> simp only [plainType, htype, hmap]
  | _ => simp only [plainType, *]

end Schemas

/-! ## Parameters -/

section Parameters

variable {setting : Setting} {find : TypeFinder}

inductive ParameterKind (parameter : Site) : Type
  /-- Its location is not known. -/
  | unknown (hplace : Location.ofName? (ParameterSite.location parameter) = none)
  /-- It travels in the body. -/
  | body (hplace : Location.ofName? (ParameterSite.location parameter) = some .body)
  /-- It travels by itself. -/
  | own (place : Location)
    (hplace : Location.ofName? (ParameterSite.location parameter) = some place)
    (hbody : place ≠ .body)

def parameterKind (parameter : Site) : ParameterKind parameter :=
  match hplace : Location.ofName? (ParameterSite.location parameter) with
  | none => .unknown hplace
  | some .body => .body hplace
  | some .path => .own .path hplace (by decide)
  | some .query => .own .query hplace (by decide)
  | some .header => .own .header hplace (by decide)
  | some .cookie => .own .cookie hplace (by decide)

/-- The first of some parameters is lowered by its kind. -/
theorem lowerParameters_cons (operation location : String) (scope : NameScope)
    (body : Option RequestBody) (parameter : Site) (rest : List Site) :
    lowerParameters setting find operation location scope body (parameter :: rest) =
      match parameterKind parameter with
      | .unknown _ => do
        remark (.unknownLocation (ParameterSite.name parameter) (ParameterSite.location parameter))
          (location ++ ".parameters." ++ ParameterSite.name parameter)
        lowerParameters setting find operation location scope body rest
      | .body _ =>
        match body with
        | some held => do
          remark (.extraBody (ParameterSite.name parameter))
            (location ++ ".parameters." ++ ParameterSite.name parameter)
          lowerParameters setting find operation location scope (some held) rest
        | none => do
          let made ← bodyParameter find operation parameter
            (location ++ ".parameters." ++ ParameterSite.name parameter)
          lowerParameters setting find operation location scope (some made) rest
      | .own place _ _ => do
        let (lowered, scope) ← ownParameter setting find operation place parameter
          (location ++ ".parameters." ++ ParameterSite.name parameter) scope
        let others ← lowerParameters setting find operation location scope body rest
        return { others with parameters := lowered :: others.parameters } := by
  cases parameterKind parameter with
  | unknown hplace => simp only [lowerParameters, hplace]
  | body hplace => cases body <;> simp only [lowerParameters, hplace]
  | own place hplace hbody =>
    cases place with
    | body => contradiction
    | _ => simp only [lowerParameters, hplace]

end Parameters

end ServantGen.Lowering
