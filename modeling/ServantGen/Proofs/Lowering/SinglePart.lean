import ServantGen.Proofs.Document.Chains
import ServantGen.Proofs.Lowering.Kinds
import ServantGen.Proofs.Lowering.ListedValues
import ServantGen.Proofs.Lowering.Unions

/-!
# Schemas of a single part

A schema with an `allOf` of one part and without properties of its own says what its part says.
Where its type is asked for, it is passed over for the part. As a named schema it is a record of
flattened properties all the same, whatever the part is: when the part is an enumeration of texts, a
text, a number, a truth value or an array, the record admits objects, and the type admits none.
-/

namespace ServantGen

/-! ## Admitted values -/

/-- Whether a value is of a primitive type. Formats of texts and ranges of numbers are left
aside. -/
def Primitive.admits : Primitive → Json → Bool
  | .string, .string _ | .date, .string _ | .dateTime, .string _ | .uuid, .string _
  | .binary, .string _ => true
  | .int32, .number _ | .int64, .number _ | .float, .number _ | .double, .number _ => true
  | .bool, .bool _ => true
  | .any, _ => true
  | _, _ => false

theorem Primitive.admits_object (kind : Primitive) (fields : List (String × Json)) :
    kind.admits (.object fields) = (kind == .any) := by
  cases kind <;> rfl

mutual

/-- A value is admitted by a type, given what the models are that it refers to. -/
inductive DataType.Admits (models : List Model) : DataType → Json → Prop
  | primitive {kind : Primitive} {value : Json} (h : kind.admits value = true) :
      DataType.Admits models (.primitive kind) value
  | array {item : DataType} {items : List Json}
      (h : ∀ value ∈ items, DataType.Admits models item value) :
      DataType.Admits models (.array item) (.array items)
  | map {type : DataType} {fields : List (String × Json)}
      (h : ∀ field ∈ fields, DataType.Admits models type field.2) :
      DataType.Admits models (.map type) (.object fields)
  | named {model : Model} {value : Json} (hmodel : model ∈ models)
      (h : Shape.Admits models model.shape value) :
      DataType.Admits models (.named model.name) value
  | null {type : DataType} : DataType.Admits models (.optional type) .null
  | some {type : DataType} {value : Json} (h : DataType.Admits models type value) :
      DataType.Admits models (.optional type) value
  | enum {name text : String} {values : List String} (h : text ∈ values) :
      DataType.Admits models (.enum name values) (.string text)

/-- A value is admitted by a model of a shape. A field without a property counts as `null`. -/
inductive Shape.Admits (models : List Model) : Shape → Json → Prop
  | record {fields : List Field} {members : List (String × Json)}
      (h : ∀ field ∈ fields, DataType.Admits models field.type
        ((Entries.get? field.rawName members).getD .null)) :
      Shape.Admits models (.record fields) (.object members)
  | enum {text : String} {values : List String} (h : text ∈ values) :
      Shape.Admits models (.enum values) (.string text)
  | union {variants : List String} {variant : String} {value : Json} (hvariant : variant ∈ variants)
      (h : DataType.Admits models (.named variant) value) :
      Shape.Admits models (.union variants) value
  | «alias» {type : DataType} {value : Json} (h : DataType.Admits models type value) :
      Shape.Admits models (.alias type) value

end

/-- Some value is admitted, and no object is. -/
structure IsFlat (admits : Json → Prop) : Prop where
  inhabited : ∃ value, admits value
  flat : ∀ value, admits value → value.isObject = false

section Flat

variable {models : List Model}

theorem isObject_of_admits_record {fields : List Field} {value : Json}
    (h : (Shape.record fields).Admits models value) : value.isObject = true := by
  cases h
  rfl

theorem isFlat_primitive {kind : Primitive} (h : kind ≠ .any) :
    IsFlat (DataType.Admits models (.primitive kind)) := by
  have hinhabited : ∃ value, kind.admits value = true := by
    cases kind with
    | bool => exact ⟨.bool true, rfl⟩
    | int32 | int64 | float | double => exact ⟨.number (.int 0), rfl⟩
    | _ => exact ⟨.string "", rfl⟩
  obtain ⟨value, hvalue⟩ := hinhabited
  refine ⟨⟨value, .primitive hvalue⟩, fun value hadmits => ?_⟩
  cases hadmits with
  | primitive hvalue =>
    cases value with
    | object fields =>
      rw [Primitive.admits_object, beq_iff_eq] at hvalue
      exact absurd hvalue h
    | _ => rfl

theorem isFlat_array (item : DataType) : IsFlat (DataType.Admits models (.array item)) := by
  refine ⟨⟨.array [], .array (by simp)⟩, fun value hadmits => ?_⟩
  cases hadmits
  rfl

theorem isFlat_enum {values : List String} (h : values ≠ []) (name : String) :
    IsFlat (DataType.Admits models (.enum name values)) := by
  obtain ⟨text, htext⟩ := List.exists_mem_of_ne_nil _ h
  refine ⟨⟨.string text, .enum htext⟩, fun value hadmits => ?_⟩
  cases hadmits
  rfl

theorem isFlat_enumModel {values : List String} (h : values ≠ []) :
    IsFlat (Shape.Admits models (.enum values)) := by
  obtain ⟨text, htext⟩ := List.exists_mem_of_ne_nil _ h
  refine ⟨⟨.string text, .enum htext⟩, fun value hadmits => ?_⟩
  cases hadmits
  rfl

theorem IsFlat.alias {type : DataType} (h : IsFlat (type.Admits models)) :
    IsFlat (Shape.Admits models (.alias type)) := by
  obtain ⟨value, hvalue⟩ := h.inhabited
  refine ⟨⟨value, .alias hvalue⟩, fun value hadmits => ?_⟩
  cases hadmits with
  | «alias» hown => exact h.flat value hown

theorem IsFlat.orNone {type : DataType} (h : IsFlat (type.Admits models)) :
    IsFlat (type.orNone.Admits models) := by
  unfold DataType.orNone
  split
  · exact h
  · refine ⟨⟨.null, .null⟩, fun value hadmits => ?_⟩
    cases hadmits with
    | null => rfl
    | some hown => exact h.flat value hown

/-- A name stands for one model. -/
theorem IsFlat.named {model : Model} (honce : (models.map Model.name).Nodup)
    (hmodel : model ∈ models) (h : IsFlat (model.shape.Admits models)) :
    IsFlat (DataType.Admits models (.named model.name)) := by
  obtain ⟨value, hvalue⟩ := h.inhabited
  refine ⟨⟨value, .named hmodel hvalue⟩, fun value hadmits => ?_⟩
  generalize hname : model.name = name at hadmits
  cases hadmits with
  | named hother hown =>
    rename_i other
    obtain rfl : model = other := List.inj_on_of_nodup_map honce hmodel hother hname
    exact h.flat value hown

end Flat

namespace Lowering

/-! ## Parts -/

/-- A site leads to a site by references: each is taken for the named schema that it names, if
there is one, and else for the node that it leads to. -/
inductive LeadsTo (document : Document) : Site → Site → Prop
  | here {site : Site} (h : site.reference? = none) : LeadsTo document site site
  | named {site next target : Site} {reference raw : String}
      (hreference : site.reference? = some reference) (hraw : namedSchema? reference = some raw)
      (hnext : (raw, next) ∈ document.schemas) (h : LeadsTo document next target) :
      LeadsTo document site target
  | other {site next target : Site} {reference : String}
      (hreference : site.reference? = some reference) (hother : isNamed document reference = false)
      (hnext : Pointer.find? document.tree reference = some next)
      (h : LeadsTo document next target) : LeadsTo document site target

/-- On the way from a site by references, every reference that is taken for a named schema leads to
that schema. -/
def FollowsDirectly (document : Document) (site : Site) : Prop :=
  ∀ hops own reference, Pointer.reached? document.tree hops site = some own →
    own.reference? = some reference → isNamed document reference = true →
      document.IsDirect reference

/-- A chain of references is followed in the same way when none of them is taken for another
schema than the one it leads to. -/
theorem leadsTo_of_endsAt {document : Document} (hkeys : document.tree.hasDistinctKeys = true)
    {hops : Nat} {site target : Site} (hends : Pointer.EndsAt document.tree hops site target)
    (hdirect : FollowsDirectly document site) : LeadsTo document site target := by
  induction hops generalizing site with
  | zero =>
    obtain ⟨hend, rfl⟩ := Pointer.endsAt_zero.1 hends
    exact .here hend
  | succ hops ih =>
    obtain ⟨reference, hreference, hfound⟩ := Option.bind_eq_some_iff.1 hends.1
    obtain ⟨next, hnext, hreached⟩ := Option.bind_eq_some_iff.1 hfound
    have hrest : LeadsTo document next target := by
      refine ih ⟨hreached, hends.2⟩ fun count own other hown hother => ?_
      refine hdirect (count + 1) own other ?_ hother
      rw [Pointer.reached?_succ hreference hnext, hown]
    cases hnamed : isNamed document reference with
    | false => exact .other hreference hnamed hnext hrest
    | true =>
      -- The schema that the reference names is the node that it leads to.
      obtain ⟨raw, hraw, hhas⟩ := (Option.any_eq_true _ _).1 hnamed
      obtain ⟨schema, hschema⟩ := Option.isSome_iff_exists.1 hhas
      have hmem := Entries.mem_of_get?_eq_some hschema
      have hfind := (Document.find?_eq_some_iff_isDirect hkeys hraw hmem).2
        (hdirect 0 site reference rfl hreference hnamed)
      obtain rfl : next = schema := Option.some.inj (hnext.symm.trans hfind)
      exact .named hreference hraw hmem hrest

/-- A schema is an enumeration of texts, or its declared type alone says what it is: a primitive
type or an array. -/
def IsPlain (schema : Site) : Prop :=
  (∃ values, stringEnum? schema.node = some values) ∨
    schema.has "allOf" = false ∧ hasProperties schema.node = false ∧
      alternatives? schema = none ∧ ∃ type, Schema.typeName? schema.node = some type ∧
        (type = "array" ∨ (Schema.primitive? type (schema.string? "format")).isSome)

/-- No reference was left because too many were being followed. -/
def Uncut (notices : List Notice) : Prop :=
  ∀ notice ∈ notices, ∀ reference, notice.remark ≠ .nestedTooDeeply reference

theorem Uncut.mono {notices all : List Notice} (h : Uncut all) (hearlier : notices <+: all) :
    Uncut notices :=
  fun notice hnotice => h notice (hearlier.subset hnotice)

/-- A computation in which the schemas have these names, and which finds a flat type if no reference
was left. -/
def FindsFlat (names : Entries String) (models : List Model) (m : SchemaM DataType) : Prop :=
  Contract True (·.schemaNames = names) m fun type after =>
    Uncut after.notices → IsFlat (type.Admits models)

section Types

variable {setting : Setting} {recur : TypeFinder} {names : Entries String} {models : List Model}
  {schema : Site} {hint location : String}

theorem FindsFlat.of_returns {m : SchemaM DataType}
    (h : Returns m fun type => IsFlat (type.Admits models)) : FindsFlat names models m :=
  (Contract.mono_pre h fun _ _ => trivial).mono_post fun _ _ htype _ => htype

theorem typeName?_of_string? {schema : Site} {type : String}
    (h : schema.string? "type" = some type) : Schema.typeName? schema.node = some type := by
  obtain ⟨node, hnode, htype⟩ := Option.bind_eq_some_iff.1 h
  cases node with
  | string text => simpa [Schema.typeName?, hnode, Json.string?] using htype
  | _ => simp [Json.string?] at htype

theorem primitive?_ne_any {type : String} {format : Option String} {kind : Primitive}
    (h : Schema.primitive? type format = some kind) : kind ≠ .any := by
  rintro rfl
  unfold Schema.primitive? at h
  split at h <;> simp at h

theorem plainType_flat {type : String} (htype : Schema.typeName? schema.node = some type)
    (hplain : type = "array" ∨ (Schema.primitive? type (schema.string? "format")).isSome) :
    Returns (plainType recur schema hint location) fun type => IsFlat (type.Admits models) := by
  rw [plainType_eq]
  -- Neither an object nor a schema without a type has a primitive type.
  have hother : ¬ (Schema.typeName? schema.node = some "object" ∨
      Schema.typeName? schema.node = none) := by
    rintro (hobject | hnone)
    · obtain rfl := Option.some.inj (htype.symm.trans hobject)
      simp [Schema.primitive?] at hplain
    · simp [htype] at hnone
  cases plainKind schema with
  | array items => exact (Returns.any _).bind fun item _ => Returns.pure (isFlat_array item)
  | anyArray => exact (Returns.any _).bind fun _ _ => Returns.pure (isFlat_array .any)
  | map _ _ hobject => exact absurd hobject hother
  | anyMap _ hobject => exact absurd hobject hother
  | any hobject => exact absurd hobject hother
  | primitive _ kind _ _ _ hkind => exact Returns.pure (isFlat_primitive (primitive?_ne_any hkind))
  | unknown own hown harray _ hnone =>
    obtain rfl := Option.some.inj (htype.symm.trans hown)
    simp [harray, hnone] at hplain

/-- The type of a plain schema is flat. -/
theorem coreType_flat (hreference : schema.reference? = none) (hplain : IsPlain schema) :
    Returns (coreType setting recur schema hint location)
      fun type => IsFlat (type.Admits models) := by
  rw [coreType_eq]
  cases typeKind schema with
  | reference reference hsome => simp [hreference] at hsome
  | enum values _ hvalues =>
    refine (Returns.any _).bind fun name _ => ?_
    exact Returns.pure (isFlat_enum (stringEnum?_ne_nil hvalues) name)
  | object hobject =>
    obtain ⟨values, hvalues⟩ | ⟨hall, hown, halternatives, -⟩ := hplain
    · simp [hobject.noEnum] at hvalues
    · simpa [hall, hown, halternatives] using hobject.parts
  | part part _ hvalues hparts =>
    obtain ⟨values, hsome⟩ | ⟨hall, -⟩ := hplain
    · simp [hvalues] at hsome
    · simp [has_of_parts? hparts] at hall
  | plain _ hvalues =>
    obtain ⟨values, hsome⟩ | ⟨-, -, -, type, htype, hplain⟩ := hplain
    · simp [hvalues] at hsome
    · exact plainType_flat htype hplain

/-- A step answers the type that it finds, or an option when the schema admits `null`. -/
theorem exists_coreType_of_typeStep {before after : State} {type : DataType}
    (h : (typeStep setting recur schema hint location).run before = some (type, after)) :
    ∃ core, (coreType setting recur schema hint location).run before = some (core, after) ∧
      type = if Schema.isNullable schema.node then core.orNone else core := by
  rw [typeStep, StateT.run_bind] at h
  obtain ⟨⟨core, middle⟩, hcore, hrest⟩ := Option.bind_eq_some_iff.1 h
  obtain ⟨rfl, rfl⟩ := Prod.mk.inj (Option.some.inj hrest)
  exact ⟨core, hcore, rfl⟩

theorem typeStep_flat (h : FindsFlat names models (coreType setting recur schema hint location)) :
    FindsFlat names models (typeStep setting recur schema hint location) := by
  refine Contract.bind h fun core => Contract.pure fun after hcore huncut => ?_
  split
  · exact (hcore huncut).orNone
  · exact hcore huncut

/-- A reference to a named schema whose model is flat, or to a node whose type is. -/
theorem refType_flat {reference : String}
    (hnamed : ∀ model, schemaModel? names reference = some model →
      IsFlat (DataType.Admits models (.named model)))
    (hother : schemaModel? names reference = none → ∃ next,
      Pointer.find? setting.document.tree reference = some next ∧
        ∀ hint location, FindsFlat names models (recur next hint location)) :
    FindsFlat names models (refType setting recur reference hint location) := by
  refine Contract.get_bind ?_
  rintro state rfl
  cases hmodel : schemaModel? state.schemaNames reference with
  | some model => exact Contract.pure fun _ _ _ => hnamed model hmodel
  | none =>
    obtain ⟨next, hnext, hflat⟩ := hother hmodel
    simp only [hnext]
    split
    · -- The reference is left, and there is a notice that says so.
      rintro _ rfl
      exact fun huncut =>
        absurd rfl (huncut _ (List.mem_append_right _ List.mem_cons_self) reference)
    · have hrest : Contract True (·.schemaNames = state.schemaNames) (do
          let type ← recur next hint location
          modify fun state => { state with inlineDepth := state.inlineDepth - 1 }
          return type) fun type after => Uncut after.notices → IsFlat (type.Admits models) :=
        Contract.bind (hflat hint location) fun _ _ htype => htype
      rintro _ rfl
      exact hrest _ rfl

/-- The shape of a reference is flat when the type that it stands for is. -/
theorem shapeOf_flat_of_reference {reference : String}
    (hreference : schema.reference? = some reference)
    (h : FindsFlat names models (refType setting recur reference hint location)) :
    Contract True (·.schemaNames = names) (shapeOf setting recur hint schema location)
      fun result after => Uncut after.notices → IsFlat (result.1.Admits models) := by
  rw [shapeOf_of_reference hreference]
  exact Contract.bind h fun _ => Contract.pure fun _ htype huncut => (htype huncut).alias

/-- The shape of a plain schema is flat: an enumeration, or the alias of a flat type. -/
theorem shapeOf_flat_of_isPlain (hreference : schema.reference? = none) (hplain : IsPlain schema)
    (h : FindsFlat names models (recur schema hint location)) :
    Contract True (·.schemaNames = names) (shapeOf setting recur hint schema location)
      fun result after => Uncut after.notices → IsFlat (result.1.Admits models) := by
  rw [shapeOf_eq]
  cases shapeKind schema with
  | reference reference hsome => simp [hreference] at hsome
  | enum values _ hvalues =>
    exact Contract.pure fun _ _ _ => isFlat_enumModel (stringEnum?_ne_nil hvalues)
  | record _ hvalues hobject =>
    obtain ⟨values, hsome⟩ | ⟨hall, hown, -⟩ := hplain
    · simp [hvalues] at hsome
    · simp [hall, hown] at hobject
  | union alternatives _ hvalues _ hsome =>
    obtain ⟨values, hvalues'⟩ | ⟨-, -, halternatives, -⟩ := hplain
    · simp [hvalues] at hvalues'
    · simp [halternatives] at hsome
  | empty _ hvalues _ _ hempty =>
    obtain ⟨values, hsome⟩ | ⟨-, -, -, type, htype, hplain⟩ := hplain
    · simp [hvalues] at hsome
    · -- An object has no primitive type.
      obtain ⟨hobject, -⟩ := Bool.and_eq_true_iff.1 hempty
      have hobject := typeName?_of_string? (eq_of_beq hobject)
      obtain rfl := Option.some.inj (htype.symm.trans hobject)
      simp [Schema.primitive?] at hplain
  | type =>
    exact Contract.bind h fun _ => Contract.pure fun _ htype huncut => (htype huncut).alias

end Types

section Interface

variable {setting : Setting} {api : Api} {declared added : List Model} {claimed : List Naming}
  {final : State}

/-- The model that a reference is taken for is flat if the schemas that it can stand for give flat
models. -/
theorem Account.flat_of_namedSchema?
    (h : Account setting api declared added claimed final)
    (hkeys : (setting.document.schemas.map Prod.fst).Nodup) {raw name : String} {schema : Site}
    (hmem : (raw, schema) ∈ setting.document.schemas)
    (hflat : ∀ model ∈ api.models.models,
      LoweredAt setting (typeOf setting setting.depth) final (raw, schema) model →
        IsFlat (model.shape.Admits api.models.models))
    (hname : final.schemaNames.get? raw = some name) :
    IsFlat (DataType.Admits api.models.models (.named name)) := by
  obtain ⟨other, model, hother, hmodel, rfl, hlowered⟩ := h.get?_schemaNames_iff.1 hname
  obtain rfl : other = schema := Option.some.inj
    ((Entries.get?_of_mem hkeys hother).symm.trans (Entries.get?_of_mem hkeys hmem))
  exact (hflat model hmodel hlowered).named (List.nodup_append.1 h.nodup_types).1 hmodel

/-- A site whose types are flat and, where it is a named schema, its model. -/
structure IsFlatSite (setting : Setting) (api : Api) (final : State) (site : Site) : Prop where
  types : ∀ depth hint location, FindsFlat final.schemaNames api.models.models
    (typeOf setting depth site hint location)
  models : ∀ raw, ∀ model ∈ api.models.models,
    LoweredAt setting (typeOf setting setting.depth) final (raw, site) model →
      IsFlat (model.shape.Admits api.models.models)

/-- A site is flat if a step of the recursion and the shape are. -/
theorem isFlatSite (huncut : Uncut final.notices) {site : Site}
    (hcore : ∀ depth hint location, FindsFlat final.schemaNames api.models.models
      (coreType setting (typeOf setting depth) site hint location))
    (hshape : (∀ depth hint location, FindsFlat final.schemaNames api.models.models
        (typeOf setting depth site hint location)) → ∀ depth name location,
      Contract True (·.schemaNames = final.schemaNames)
        (shapeOf setting (typeOf setting depth) name site location)
        fun result after => Uncut after.notices → IsFlat (result.1.Admits api.models.models)) :
    IsFlatSite setting api final site := by
  have htypes : ∀ depth hint location, FindsFlat final.schemaNames api.models.models
      (typeOf setting depth site hint location) := by
    intro depth hint location
    cases depth with
    | zero => exact fun _ _ => trivial
    | succ depth => exact typeStep_flat (hcore depth hint location)
  refine ⟨htypes, fun raw model _ hlowered => ?_⟩
  obtain ⟨before, after, hrun, hbefore, hafter⟩ := hlowered.made
  have hmodel : Contract True (·.schemaNames = final.schemaNames)
      (modelOf setting (typeOf setting setting.depth) model.name raw site (schemaLocation raw))
      fun own after => Uncut after.notices → IsFlat (own.shape.Admits api.models.models) :=
    Contract.bind (hshape htypes setting.depth model.name (schemaLocation raw))
      fun _ => Contract.pure fun _ hown => hown
  exact hmodel.result (hbefore.trans hafter).schemaNames.symm hrun
    (huncut.mono hafter.notices)

theorem isFlatSite_of_reference (huncut : Uncut final.notices) {site : Site} {reference : String}
    (hreference : site.reference? = some reference)
    (h : ∀ depth hint location, FindsFlat final.schemaNames api.models.models
      (refType setting (typeOf setting depth) reference hint location)) :
    IsFlatSite setting api final site := by
  refine isFlatSite huncut (fun depth hint location => ?_) fun _ depth name location =>
    shapeOf_flat_of_reference hreference (h depth name location)
  rw [coreType_of_reference hreference]
  exact h depth hint location

/-- What leads to a plain schema has flat types and, where it is a named schema, a flat model. -/
theorem LeadsTo.isFlatSite
    (h : Account setting api declared added claimed final)
    (hkeys : (setting.document.schemas.map Prod.fst).Nodup) (huncut : Uncut final.notices)
    {site target : Site} (hleads : LeadsTo setting.document site target)
    (hplain : IsPlain target) : IsFlatSite setting api final site := by
  induction hleads with
  | here hreference =>
    refine Lowering.isFlatSite huncut (fun depth hint location => ?_)
      fun htypes depth name location => ?_
    · exact .of_returns (coreType_flat hreference hplain)
    · exact shapeOf_flat_of_isPlain hreference hplain (htypes depth name location)
  | @named site next target reference raw hreference hraw hnext _ ih =>
    refine isFlatSite_of_reference huncut hreference fun depth hint location => ?_
    have hmodel : schemaModel? final.schemaNames reference = final.schemaNames.get? raw := by
      rw [schemaModel?, hraw, Option.bind_some]
    have hhas : (final.schemaNames.get? raw).isSome = true := by
      refine (h.has_schemaNames raw).trans ?_
      exact Entries.isSome_get?_iff.2 (List.mem_map_of_mem hnext)
    refine refType_flat (fun name hname => ?_) fun hnone => ?_
    · exact h.flat_of_namedSchema? hkeys hnext ((ih hplain).models raw) (hmodel ▸ hname)
    · rw [hmodel] at hnone
      simp [hnone] at hhas
  | @other site next target reference hreference hother hnext _ ih =>
    refine isFlatSite_of_reference huncut hreference fun depth hint location => ?_
    have hnone : schemaModel? final.schemaNames reference = none := by
      rw [← Option.not_isSome_iff_eq_none, isSome_schemaModel? h.has_schemaNames, hother]
      decide
    refine refType_flat (fun model hmodel => ?_) fun _ => ⟨next, hnext, fun hint location => ?_⟩
    · simp [hnone] at hmodel
    · exact (ih hplain).types depth hint location

end Interface

/-! ## Named schemas of a single part -/

section SinglePart

variable {setting : Setting} {recur : TypeFinder} {schema part : Site}
  (hparts : parts? schema = some [part]) (hown : hasProperties schema.node = false)
include hparts

/-- The model of a schema of a single part is a record, unless the schema is a reference or an
enumeration. -/
theorem modelOf_isRecord (name raw location : String) :
    Returns (modelOf setting recur name raw schema location) fun model =>
      (∃ fields, model.shape = .record fields) ↔
        schema.reference? = none ∧ stringEnum? schema.node = none := by
  have hshape : Returns (shapeOf setting recur name schema location) fun result =>
      (∃ fields, result.1 = .record fields) ↔
        schema.reference? = none ∧ stringEnum? schema.node = none := by
    have hobject : (schema.has "allOf" || hasProperties schema.node) = true := by
      simp [has_of_parts? hparts]
    rw [shapeOf_eq]
    cases shapeKind schema with
    | reference reference hreference =>
      exact (Returns.any _).bind fun type _ => Returns.pure (by simp [hreference])
    | enum values hreference hvalues => exact Returns.pure (by simp [hvalues])
    | record hreference hvalues =>
      exact (Returns.any _).bind fun fields _ => Returns.pure (by simp [hreference, hvalues])
    | union _ _ _ hnot | empty _ _ hnot | type _ _ hnot => exact absurd hobject hnot
  exact hshape.bind fun _ hresult => Returns.pure hresult

/-- The type of a schema of a single part is that of the part, or an option of it. -/
theorem exists_part_of_typeStep (hown : hasProperties schema.node = false)
    (hreference : schema.reference? = none) (hvalues : stringEnum? schema.node = none)
    {hint location : String} {before after : State} {type : DataType}
    (h : (typeStep setting recur schema hint location).run before = some (type, after)) :
    ∃ own, (recur part hint location).run before = some (own, after) ∧
      type = if Schema.isNullable schema.node then own.orNone else own := by
  obtain ⟨core, hcore, htype⟩ := exists_coreType_of_typeStep h
  rw [coreType_of_part hreference hvalues hparts hown] at hcore
  exact ⟨core, hcore, htype⟩

end SinglePart

/-- The model of a named schema of a single part, beside the type of the same schema. -/
structure LosesPart (setting : Setting) (api : Api) (final : State) (schema part : Site)
    (model : Model) : Prop where
  /-- The model is a record, unless the schema is a reference or an enumeration itself. -/
  record : (∃ fields, model.shape = .record fields) ↔
    schema.reference? = none ∧ stringEnum? schema.node = none
  /-- The type of the schema is that of its part, or an option of it. -/
  type : schema.reference? = none → stringEnum? schema.node = none →
    ∀ depth hint location before after type,
      (typeOf setting (depth + 1) schema hint location).run before = some (type, after) →
        ∃ own, (typeOf setting depth part hint location).run before = some (own, after) ∧
          type = if Schema.isNullable schema.node then own.orNone else own
  /-- Where the part is, behind its references, an enumeration of texts, of a primitive type or an
  array, the record and the type have no value in common, although the type has values. This is so
  if the references that name schemas lead to them, and none was left for its depth. -/
  values : schema.reference? = none → stringEnum? schema.node = none →
    ∀ target, setting.document.resolve part = .ok target → IsPlain target →
      FollowsDirectly setting.document part → Uncut final.notices →
      ∀ depth hint location before after type, before.schemaNames = final.schemaNames →
        (typeOf setting depth schema hint location).run before = some (type, after) →
        Uncut after.notices →
          (∃ value, type.Admits api.models.models value) ∧
          ∀ value, type.Admits api.models.models value →
            ¬ model.shape.Admits api.models.models value

/-- When a document without repeated keys is lowered to an interface, the model of a named schema
of a single part is a record, whatever the part is, while the type of the schema is that of the
part. -/
theorem losesPart_of_run_eq_ok {setting : Setting} {api : Api} {notices : List Notice}
    (h : run setting = some ⟨.ok api, notices⟩)
    (hkeys : setting.document.tree.hasDistinctKeys = true) {raw : String} {schema part : Site}
    (hmem : (raw, schema) ∈ setting.document.schemas) (hparts : parts? schema = some [part])
    (hown : hasProperties schema.node = false) :
    ∃ final model, (lowerApi setting).run.run .initial = some (.ok api, final) ∧
      final.notices = notices ∧ model ∈ api.models.models ∧
      LoweredAt setting (typeOf setting setting.depth) final (raw, schema) model ∧
      LosesPart setting api final schema part model := by
  obtain ⟨final, hrun, hnotices, declared, added, claimed, haccount⟩ :=
    account_of_run_eq_ok h hkeys
  obtain ⟨model, hdeclared, hlowered⟩ :=
    Outcomes.exists_of_mem_of_forall₂ haccount.lowered.flip hmem
  have hmodel : model ∈ api.models.models := by
    rw [haccount.models]
    exact List.mem_append_left _ hdeclared
  obtain ⟨before, after, hmade, -⟩ := hlowered.made
  have hrecord := (modelOf_isRecord hparts _ _ _).of_run hmade
  refine ⟨final, model, hrun, hnotices, hmodel, hlowered, hrecord, ?_, ?_⟩
  · intro hreference hvalues depth hint location before after type hfound
    exact exists_part_of_typeStep hparts hown hreference hvalues hfound
  · intro hreference hvalues target hresolve hplain hdirect huncut depth hint location before after
      type hnames hfound hafter
    obtain ⟨hops, -, hends⟩ := Document.resolve_eq_ok_iff.1 hresolve
    have hflat := (leadsTo_of_endsAt hkeys hends hdirect).isFlatSite haccount
      (Document.nodup_schemas hkeys) huncut hplain
    cases depth with
    | zero => cases hfound
    | succ depth =>
      obtain ⟨own, hpart, rfl⟩ :=
        exists_part_of_typeStep hparts hown hreference hvalues hfound
      have hpartFlat := (hflat.types depth hint location).result hnames hpart hafter
      have htype : IsFlat (DataType.Admits api.models.models
          (if Schema.isNullable schema.node then own.orNone else own)) := by
        split
        · exact hpartFlat.orNone
        · exact hpartFlat
      obtain ⟨fields, hshape⟩ := hrecord.2 ⟨hreference, hvalues⟩
      refine ⟨htype.inhabited, fun value hadmits hobject => ?_⟩
      rw [hshape] at hobject
      exact absurd (isObject_of_admits_record hobject) (by simp [htype.flat value hadmits])

/-- A part that leads to an identifier by way of a named schema and of a parameter. -/
theorem losesPart_of_run_eq_ok_references :
    let reference (text : String) : Json := .object [("$ref", .string text)]
    let wrapped : Json := .object [
      ("allOf", .array [reference "#/components/schemas/Key"]), ("nullable", .bool true)]
    let tree : Json := .object [
      ("info", .object []),
      ("paths", .object []),
      ("components", .object [
        ("parameters", .object [("id", .object [
          ("schema", .object [("type", .string "string"), ("format", .string "uuid")])])]),
        ("schemas", .object [
          ("Wrapped", wrapped),
          ("Key", reference "#/components/parameters/id/schema")])])]
    let schema : Site := ⟨[.key "components", .key "schemas", .key "Wrapped"], wrapped⟩
    let part : Site := ⟨schema.address ++ [.key "allOf", .index 0],
      reference "#/components/schemas/Key"⟩
    ∃ document api notices, Document.ofTree tree = .ok document ∧
      tree.hasDistinctKeys = true ∧ run ⟨document, Haskell.target⟩ = some ⟨.ok api, notices⟩ ∧
      ("Wrapped", schema) ∈ document.schemas ∧ parts? schema = some [part] ∧
      hasProperties schema.node = false ∧
      api.models.models = [⟨"Wrapped", "Wrapped", none, .record [], none⟩,
        ⟨"Key", "Key", none, .alias (.primitive .uuid), none⟩] ∧
      ∃ final model,
        (lowerApi ⟨document, Haskell.target⟩).run.run .initial = some (.ok api, final) ∧
        final.notices = notices ∧ model ∈ api.models.models ∧
        LoweredAt ⟨document, Haskell.target⟩
          (typeOf ⟨document, Haskell.target⟩ (Setting.depth ⟨document, Haskell.target⟩)) final
          ("Wrapped", schema) model ∧
        LosesPart ⟨document, Haskell.target⟩ api final schema part model ∧
        ∀ depth hint location after type,
          (typeOf ⟨document, Haskell.target⟩ depth schema hint location).run final =
            some (type, after) → Uncut after.notices →
          ∀ value, type.Admits api.models.models value →
            ¬ model.shape.Admits api.models.models value := by
  intro reference wrapped tree schema part
  have hview : ((Document.ofTree tree).toOption.bind fun document =>
      (run ⟨document, Haskell.target⟩).bind fun result => result.outcome.toOption.map
        fun api => api.models.models) =
      some [⟨"Wrapped", "Wrapped", none, .record [], none⟩,
        ⟨"Key", "Key", none, .alias (.primitive .uuid), none⟩] := by
    decide +kernel
  have hsilent : ((Document.ofTree tree).toOption.bind fun document =>
      (run ⟨document, Haskell.target⟩).map Result.notices) = some [] := by
    decide +kernel
  have hkeys : tree.hasDistinctKeys = true := by decide +kernel
  obtain ⟨document, api, notices, hdocument, hrun, hmodels⟩ := exists_run_of_view hview
  obtain rfl := Document.eq_of_ofTree hdocument
  have hmem : ("Wrapped", schema) ∈ Document.schemas ⟨tree, (Site.root tree).membersAt "paths"⟩ :=
    List.mem_cons_self
  have hparts : parts? schema = some [part] := rfl
  have hown : hasProperties schema.node = false := rfl
  obtain ⟨final, model, hfinal, hnotices, hmodel, hlowered, hloses⟩ :=
    losesPart_of_run_eq_ok hrun hkeys hmem hparts hown
  have huncut : Uncut final.notices := by
    rw [hdocument] at hsilent
    obtain rfl : notices = [] := by simpa [Except.toOption, hrun] using hsilent
    simp [Uncut, hnotices]
  have hdirect : FollowsDirectly ⟨tree, (Site.root tree).membersAt "paths"⟩ part := by
    intro hops own text hreached htext hnamed
    obtain _ | _ | _ | hops := hops
    · obtain rfl := Option.some.inj hreached
      obtain rfl := Option.some.inj htext
      exact ⟨"Key".toList, by decide +kernel, by decide⟩
    · obtain rfl := Option.some.inj hreached
      obtain rfl := Option.some.inj htext
      exact absurd hnamed (by decide +kernel)
    · obtain rfl := Option.some.inj hreached
      cases htext
    · cases hreached
  refine ⟨_, api, notices, hdocument, hkeys, hrun, hmem, hparts, hown, hmodels, final, model,
    hfinal, hnotices, hmodel, hlowered, hloses, ?_⟩
  intro depth hint location after type hfound hafter
  exact (hloses.values rfl rfl _ rfl (.inr ⟨rfl, rfl, rfl, "string", rfl, .inr rfl⟩) hdirect huncut
    depth hint location final after type rfl hfound hafter).2

/-- A named schema whose only part is a text is a record without fields. As a type it is a text, and
a text is no record. -/
theorem text_is_no_record :
    let named : Json := .object [("allOf", .array [.object [("type", .string "string")]])]
    let tree : Json := .object [
      ("info", .object []),
      ("paths", .object []),
      ("components", .object [("schemas", .object [("A", named)])])]
    let schema : Site := ⟨[.key "components", .key "schemas", .key "A"], named⟩
    ∃ document api notices, Document.ofTree tree = .ok document ∧
      tree.hasDistinctKeys = true ∧ run ⟨document, Haskell.target⟩ = some ⟨.ok api, notices⟩ ∧
      document.schemas = [("A", schema)] ∧
      api.models.models = [⟨"A", "A", none, .record [], none⟩] ∧
      (∀ hint location before,
        (typeOf ⟨document, Haskell.target⟩ 2 schema hint location).run before =
          some (.string, before)) ∧
      DataType.string.Admits api.models.models (.string "x") ∧
      ¬ (Shape.record []).Admits api.models.models (.string "x") := by
  intro named tree schema
  have hview : ((Document.ofTree tree).toOption.bind fun document =>
      (run ⟨document, Haskell.target⟩).bind fun result => result.outcome.toOption.map
        fun api => api.models.models) = some [⟨"A", "A", none, .record [], none⟩] := by
    decide +kernel
  have hkeys : tree.hasDistinctKeys = true := by decide +kernel
  obtain ⟨document, api, notices, hdocument, hrun, hmodels⟩ := exists_run_of_view hview
  obtain rfl := Document.eq_of_ofTree hdocument
  refine ⟨_, api, notices, hdocument, hkeys, hrun, rfl, hmodels, fun _ _ _ => rfl,
    .primitive rfl, fun hobject => ?_⟩
  exact absurd (isObject_of_admits_record hobject) (by decide)

end Lowering

end ServantGen
