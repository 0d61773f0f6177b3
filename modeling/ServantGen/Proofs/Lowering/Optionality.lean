import ServantGen.Proofs.Closure.Api
import ServantGen.Proofs.Ledger.Api
import ServantGen.Proofs.Lowering.Invariants

/-!
# Where a value may be missing

That a value may be missing is recorded by an option in its type, once, wherever the document
says it: a nullable schema, a reference to one, a field or parameter that is not required. Every
step that adds an option leaves a type that has one as it is, so no option stands directly
inside another, and stripping one option off a type leaves none outside. Types are followed
through the recursion; the models of the table are what their own schemas give, so what holds
of the models that a schema gives holds of the table.
-/

namespace ServantGen

namespace DataType

/-- No option stands directly inside another one. -/
def OptionsApart (type : DataType) : Prop :=
  ∀ inner, .optional inner ∈ type.parts → inner.isOptional = false

theorem OptionsApart.primitive (kind : Primitive) : (DataType.primitive kind).OptionsApart := by
  simp [OptionsApart, parts]

theorem OptionsApart.named (model : String) : (DataType.named model).OptionsApart := by
  simp [OptionsApart, parts]

theorem OptionsApart.enum (name : String) (values : List String) :
    (DataType.enum name values).OptionsApart := by
  simp [OptionsApart, parts]

theorem OptionsApart.array {item : DataType} (h : item.OptionsApart) :
    (DataType.array item).OptionsApart := by
  intro inner hinner
  obtain hself | hinner := List.mem_cons.1 hinner
  · cases hself
  · exact h inner hinner

theorem OptionsApart.map {value : DataType} (h : value.OptionsApart) :
    (DataType.map value).OptionsApart := by
  intro inner hinner
  obtain hself | hinner := List.mem_cons.1 hinner
  · cases hself
  · exact h inner hinner

/-- An option is added only where there is none. -/
theorem OptionsApart.orNone {type : DataType} (h : type.OptionsApart) :
    type.orNone.OptionsApart := by
  by_cases hoptional : type.isOptional = true
  · rwa [DataType.orNone, if_pos hoptional]
  · rw [DataType.orNone, if_neg hoptional]
    intro inner hinner
    obtain hself | hinner := List.mem_cons.1 hinner
    · obtain rfl := DataType.optional.inj hself
      exact Bool.eq_false_iff.2 hoptional
    · exact h inner hinner

/-- Without its option a type has none outside. -/
theorem OptionsApart.isOptional_stripOptional {type : DataType} (h : type.OptionsApart) :
    type.stripOptional.isOptional = false := by
  cases type with
  | optional inner => exact h inner List.mem_cons_self
  | primitive kind => rfl
  | array item => rfl
  | map value => rfl
  | named model => rfl
  | enum name values => rfl

theorem OptionsApart.stripOptional {type : DataType} (h : type.OptionsApart) :
    type.stripOptional.OptionsApart := by
  cases type with
  | optional inner => exact fun inside hinside => h inside (List.mem_cons_of_mem _ hinside)
  | primitive kind => exact h
  | array item => exact h
  | map value => exact h
  | named model => exact h
  | enum name values => exact h

end DataType

/-- A type that records whether a value is required: without an option directly inside another
one, and with an option outside unless the value is required. -/
structure RecordsOption (required : Bool) (type : DataType) : Prop where
  apart : type.OptionsApart
  missing : required = false → type.isOptional = true

/-- The type for a value that is required or not. -/
theorem DataType.OptionsApart.recordsOption {type : DataType} (h : type.OptionsApart)
    (required : Bool) : RecordsOption required (if required then type else type.orNone) := by
  cases required with
  | true => exact ⟨h, by simp⟩
  | false => exact ⟨h.orNone, fun _ => type.isOptional_orNone⟩

structure Model.RecordsOptions (model : Model) : Prop where
  types : ∀ type ∈ model.types, type.OptionsApart
  fields : ∀ field ∈ model.fields, field.required = false → field.type.isOptional = true

structure Operation.RecordsOptions (operation : Operation) : Prop where
  types : ∀ type ∈ Api.operationTypes operation, type.OptionsApart
  parameters : ∀ parameter ∈ operation.parameters,
    parameter.required = false → parameter.type.isOptional = true
  /-- A path parameter is always there. -/
  paths : ∀ parameter ∈ operation.parameters, parameter.location = .path →
    parameter.required = true
  /-- Every placeholder is bound, to the type of its parameter without the option. -/
  bound : ∀ name type, .parameter name type ∈ operation.path.segments →
    ∃ parameter, operation.pathParameter? name = some parameter ∧
      type = parameter.type.stripOptional

/-- The type of a placeholder is that of its parameter, without the option. -/
theorem Operation.RecordsOptions.exists_parameter {operation : Operation}
    (h : operation.RecordsOptions) {name : String} {type : DataType}
    (hmem : .parameter name type ∈ operation.path.segments) :
    ∃ parameter, operation.pathParameter? name = some parameter ∧
      parameter.type.stripOptional = type ∧ parameter.type.OptionsApart := by
  obtain ⟨parameter, hbound, rfl⟩ := h.bound name type hmem
  refine ⟨parameter, hbound, rfl, h.types _ ?_⟩
  simp only [Api.operationTypes, List.mem_append, List.mem_map]
  exact .inl (.inl ⟨parameter, List.mem_of_find?_eq_some hbound, rfl⟩)

/-- An interface that records where values may be missing, once and alike everywhere. -/
structure Api.RecordsOptions (api : Api) : Prop where
  /-- No option stands directly inside another one. -/
  once : ∀ type ∈ api.allTypes, type.OptionsApart
  fields : ∀ model ∈ api.models.models, ∀ field ∈ model.fields,
    field.required = false → field.type.isOptional = true
  parameters : ∀ operation ∈ api.operations, ∀ parameter ∈ operation.parameters,
    parameter.required = false → parameter.type.isOptional = true
  /-- A path parameter is always there. -/
  paths : ∀ operation ∈ api.operations, ∀ parameter ∈ operation.parameters,
    parameter.location = .path → parameter.required = true
  /-- Every placeholder is bound, to the type of its parameter without the option. -/
  bound : ∀ operation ∈ api.operations, ∀ name type,
    .parameter name type ∈ operation.path.segments →
      ∃ parameter, operation.pathParameter? name = some parameter ∧
        parameter.type.stripOptional = type ∧ type.isOptional = false

namespace Lowering

/-! ## Types -/

/-- A way of finding types that puts no option directly inside another one. -/
def FindsApart (find : TypeFinder) : Prop :=
  ∀ site hint location, Returns (find site hint location) DataType.OptionsApart

/-- Remarks come with the type of any value. -/
theorem remarked_apart {type : DataType} (subject : Remark) (location : String)
    (h : type.OptionsApart) :
    Returns (do remark subject location; return type) DataType.OptionsApart :=
  (Returns.any _).bind fun _ _ => Returns.pure h

/-- Options are added in one place only, and never to a type that has one. -/
theorem optionsApart_law : TypeLaw (fun _ => True) (fun _ => True) DataType.OptionsApart where
  names _ _ := trivial
  depth _ _ := trivial
  notice _ _ _ := trivial
  model _ _ := trivial
  primitive := .primitive
  named := .named
  enum _ _ _ := .enum _ _
  array h := h.array
  map h := h.map
  orNone h := h.orNone

/-- In states of which nothing is asked, only what is returned counts. -/
theorem returns_iff_preserves {α : Type} {m : SchemaM α} {right : α → Prop} :
    Returns m right ↔ Preserves (fun _ => True) m right := by
  constructor
  · exact fun h => h.mono_post fun value after hvalue => ⟨⟨⟩, le_rfl, trivial, hvalue⟩
  · intro h
    refine h.mono_post ?_
    rintro value after ⟨_, -, -, hvalue⟩
    exact hvalue

theorem FindsApart.findsBy {find : TypeFinder} (h : FindsApart find) :
    FindsBy (fun _ => True) (fun _ => True) DataType.OptionsApart find :=
  fun site _ hint location => returns_iff_preserves.1 (h site hint location)

/-- However deep the recursion may go, no option is put directly inside another one. -/
theorem typeOf_findsApart (setting : Setting) (depth : Nat) :
    FindsApart (typeOf setting depth) :=
  fun site hint location => returns_iff_preserves.2 <|
    optionsApart_law.typeOf (covers_all setting.document) depth site trivial hint location

/-! ## Models -/

section Models

variable {setting : Setting} {recur : TypeFinder} (hrecur : FindsApart recur)
include hrecur

theorem fieldsOf_recordOptions (model location : String) (required : List String)
    (scope : NameScope) (properties : List (String × Site)) :
    Returns (fieldsOf setting recur model location required scope properties)
      fun fields => ∀ field ∈ fields, RecordsOption field.required field.type := by
  induction properties generalizing scope with
  | nil => exact Returns.pure (by simp)
  | cons property rest ih =>
    obtain ⟨raw, property⟩ := property
    refine (Returns.any _).bind fun name _ => ?_
    refine (hrecur property _ _).bind fun type htype => ?_
    refine (ih _).bind fun fields hfields => Returns.pure ?_
    exact List.forall_mem_cons.2 ⟨htype.recordsOption _, hfields⟩

/-- A schema gives a model that records where values may be missing. -/
theorem modelOf_recordsOptions (name raw : String) (schema : Site) (location : String) :
    Returns (modelOf setting recur name raw schema location) Model.RecordsOptions := by
  have hshape : Returns (shapeOf setting recur name schema location) fun result =>
      (∀ fields, result.1 = .record fields →
        ∀ field ∈ fields, RecordsOption field.required field.type) ∧
      ∀ type, result.1 = .alias type → type.OptionsApart := by
    rw [shapeOf_eq]
    cases shapeKind schema with
    | reference reference =>
      have htype := returns_iff_preserves.2 <|
        optionsApart_law.refType (covers_all setting.document) hrecur.findsBy reference name
          location
      exact htype.bind fun type htype => Returns.pure (by simpa using htype)
    | enum values => exact Returns.pure (by simp)
    | record =>
      exact (fieldsOf_recordOptions hrecur name location _ .empty _).bind
        fun fields hfields => Returns.pure (by simpa using hfields)
    | union alternatives =>
      refine (Returns.any _).bind fun variants _ => ?_
      exact Returns.get_bind fun state => Returns.pure (by simp)
    | empty => exact Returns.pure (by simp)
    | type =>
      exact (hrecur schema name location).bind fun type htype =>
        Returns.pure (by simpa using htype)
  refine hshape.bind ?_
  rintro ⟨shape, discriminator⟩ ⟨hrecord, halias⟩
  refine Returns.pure ?_
  cases shape with
  | record fields =>
    constructor
    · exact List.forall_mem_map.2 fun field hfield => (hrecord fields rfl field hfield).apart
    · exact fun field hfield => (hrecord fields rfl field hfield).missing
  | «alias» type =>
    constructor
    · exact List.forall_mem_singleton.2 (halias type rfl)
    · simp [Model.fields]
  | enum values => constructor <;> simp [Model.types, Model.fields]
  | union variants => constructor <;> simp [Model.types, Model.fields]

end Models

/-- The models of the table are what their own schemas give, and so record what these do. -/
theorem Account.recordsOptions {setting : Setting} {api : Api} {declared added : List Model}
    {claimed : List Naming} {final : State} (h : Account setting api declared added claimed final)
    {model : Model} (hmodel : model ∈ api.models.models) : model.RecordsOptions := by
  rw [h.models] at hmodel
  obtain hmodel | hmodel := List.mem_append.1 hmodel
  · obtain ⟨schema, -, hlowered⟩ := Outcomes.exists_of_mem_of_forall₂ h.lowered hmodel
    obtain ⟨before, after, hrun, -⟩ := hlowered.made
    exact (modelOf_recordsOptions (typeOf_findsApart setting _) _ _ _ _).of_run hrun
  · obtain ⟨questions, -, hmade⟩ := h.made
    obtain ⟨question, after, -, -, hhoisted | haliased⟩ := hmade model hmodel
    · obtain ⟨claimed, placed, filled, -, -, hrun, -⟩ := hhoisted.made
      exact (modelOf_recordsOptions (typeOf_findsApart setting _) _ _ _ _).of_run hrun
    · obtain ⟨type, found, hfind, -, -, -, heq⟩ := haliased.made
      have htype := (typeOf_findsApart setting _ _ _ _).of_run hfind
      rw [heq]
      exact ⟨List.forall_mem_singleton.2 htype, by simp [Model.fields]⟩

/-! ## Operations -/

section Operations

variable {setting : Setting} {find : TypeFinder} (hfind : FindsApart find)
include hfind

theorem parameterType_apart (parameter : Site) (hint location : String) :
    Returns (parameterType find parameter hint location) DataType.OptionsApart := by
  unfold parameterType
  split
  · exact hfind _ hint location
  · exact remarked_apart _ location (.primitive .any)

/-- A parameter that records whether it may be missing, and is required inside a route. -/
structure RecordsParameter (parameter : Parameter) : Prop where
  option : RecordsOption parameter.required parameter.type
  path : parameter.location = .path → parameter.required = true

theorem ownParameter_records (operation : String) (place : Location) (parameter : Site)
    (location : String) (scope : NameScope) :
    Returns (ownParameter setting find operation place parameter location scope)
      fun result => RecordsParameter result.1 := by
  refine (Returns.any _).bind fun name _ => ?_
  refine (parameterType_apart hfind parameter _ location).bind fun type htype => Returns.pure ?_
  refine ⟨htype.recordsOption _, ?_⟩
  rintro (rfl : place = .path)
  rfl

/-- Parameters, and a body that one of them is. -/
structure RecordsParameters (lowered : LoweredParameters) : Prop where
  parameters : ∀ parameter ∈ lowered.parameters, RecordsParameter parameter
  body : ∀ body ∈ lowered.body, body.type.OptionsApart

theorem lowerParameters_record (operation location : String) (scope : NameScope)
    {body : Option RequestBody} (hbody : ∀ own ∈ body, own.type.OptionsApart)
    (sites : List Site) :
    Returns (lowerParameters setting find operation location scope body sites)
      RecordsParameters := by
  induction sites generalizing scope body with
  | nil => exact Returns.pure ⟨by simp, hbody⟩
  | cons parameter rest ih =>
    rw [lowerParameters_cons]
    cases parameterKind parameter with
    | unknown => exact (Returns.any _).bind fun _ _ => ih scope hbody
    | body =>
      cases body with
      | some held => exact (Returns.any _).bind fun _ _ => ih scope hbody
      | none =>
        have hown : ∀ location, Returns (bodyParameter find operation parameter location)
            fun own => own.type.OptionsApart := fun location =>
          (parameterType_apart hfind parameter _ location).bind
            fun type htype => Returns.pure htype
        refine (hown _).bind fun own hapart => ih scope ?_
        rintro _ ⟨⟩
        exact hapart
    | own place =>
      refine (ownParameter_records hfind operation place parameter _ scope).bind
        fun result hresult => ?_
      refine (ih result.2 hbody).bind fun others hothers => Returns.pure ?_
      exact ⟨List.forall_mem_cons.2 ⟨hresult, hothers.parameters⟩, hothers.body⟩

omit hfind in
/-- The placeholders of a route are bound to the parameters of their names. -/
theorem lowerRoute_bound (operation : OperationSite) (parameters : List Parameter) :
    ReturnsOk (lowerRoute setting operation parameters) fun route =>
      ∀ name type, .parameter name type ∈ route.segments →
        ∃ parameter, boundParameter? parameters name = some parameter ∧
          type = parameter.type.stripOptional := by
  intro state _
  rw [lowerRoute_run]
  cases hsegments : (Text.splitOn '/' operation.path).mapM
      (segmentOf setting operation parameters) with
  | error error => simp
  | ok segments =>
    rintro _ ⟨⟩ name type hmem
    have hstep : Segment.parameter name type ∈ (Route.ofSegments segments).steps :=
      List.mem_flatMap.2 ⟨_, hmem, List.mem_singleton_self _⟩
    have htells := Route.tells_of_mapM_segmentOf hsegments
    obtain ⟨component, -, hstands⟩ := Outcomes.exists_of_mem_of_forall₂ htells.steps hstep
    cases hstands with
    | parameter _ hbound => exact ⟨_, hbound, rfl⟩

theorem bodyOf_apart (operation : OperationSite) (id location : String)
    {parameter : Option RequestBody} (hparameter : ∀ own ∈ parameter, own.type.OptionsApart) :
    ReturnsOk (bodyOf setting find operation id location parameter)
      fun result => ∀ body ∈ result, body.type.OptionsApart := by
  cases parameter with
  | some body => exact ReturnsOk.pure hparameter
  | none =>
    refine (ReturnsOk.any _).bind fun body _ => ?_
    split
    · exact ReturnsOk.pure (by simp)
    · split
      · exact ReturnsOk.pure (by simp)
      · refine (Returns.lift (hfind _ _ _)).bind fun type htype => ReturnsOk.pure ?_
        rintro _ ⟨⟩
        exact htype

/-- A response in whose types no option stands directly inside another one. -/
structure ApartResponse (response : Response) : Prop where
  type : ∀ type ∈ response.type, type.OptionsApart
  headers : ∀ header ∈ response.headers, header.type.OptionsApart

theorem responseType_apart (response : ResponseSite) (hint location : String) :
    Returns (responseType find response hint location)
      fun result => ∀ type ∈ result, type.OptionsApart := by
  unfold responseType
  split
  · exact Returns.pure (by simp)
  · refine (hfind _ hint location).bind fun type hapart => Returns.pure ?_
    rintro _ ⟨⟩
    exact hapart

theorem lowerHeaders_apart (id location : String) (sites : List (String × Site)) :
    Returns (lowerHeaders find id location sites)
      fun headers => ∀ header ∈ headers, header.type.OptionsApart := by
  have hall : Returns (lowerHeaders find id location sites)
      (List.Forall₂ (fun _ header => header.type.OptionsApart) sites) := by
    refine Returns.mapM ?_
    rintro ⟨name, node⟩
    exact (hfind _ _ location).bind fun type htype => Returns.pure htype
  refine Contract.mono_post hall fun headers _ hheaders header hheader => ?_
  obtain ⟨_, -, hapart⟩ := Outcomes.exists_of_mem_of_forall₂ hheaders hheader
  exact hapart

theorem lowerResponse_apart (id location : String) (response : ResponseSite) :
    ReturnsOk (lowerResponse setting find id location response)
      fun result => ∀ lowered ∈ result, ApartResponse lowered := by
  unfold lowerResponse
  dsimp only
  split
  · exact (ReturnsOk.any _).bind fun _ _ => ReturnsOk.pure (by simp)
  · refine (Returns.lift (responseType_apart hfind response _ _)).bind fun type hapart => ?_
    refine (ReturnsOk.any _).bind fun sites _ => ?_
    refine (Returns.lift (lowerHeaders_apart hfind id _ sites)).bind
      fun headers hlowered => ReturnsOk.pure ?_
    rintro _ ⟨⟩
    exact ⟨hapart, hlowered⟩

theorem lowerOperation_recordsOptions (operation : OperationSite) :
    ReturnsOk (lowerOperation setting find operation) Operation.RecordsOptions := by
  refine (ReturnsOk.any _).bind fun id _ => ?_
  refine (ReturnsOk.any _).bind fun sites _ => ?_
  refine (Returns.lift (lowerParameters_record hfind id _ .empty (by simp) sites)).bind
    fun lowered hlowered => ?_
  refine (lowerRoute_bound operation lowered.parameters).bind fun route hroute => ?_
  refine (bodyOf_apart hfind operation id _ hlowered.body).bind fun body hbody => ?_
  refine (ReturnsOk.any _).bind fun sites _ => ?_
  refine (ReturnsOk.mapM fun response => lowerResponse_apart hfind id _ response).bind
    fun results hresults => ReturnsOk.pure ?_
  exact {
    types := by
      intro type htype
      simp only [Api.operationTypes, List.mem_append, List.mem_map, List.mem_flatMap,
        Option.mem_toList, Option.map_eq_some_iff, List.mem_filterMap] at htype
      obtain (⟨parameter, hmem, rfl⟩ | ⟨own, hmem, rfl⟩) | ⟨response, ⟨_, hmem, rfl⟩, htype⟩ :=
        htype
      · exact (hlowered.parameters parameter hmem).option.apart
      · exact hbody own hmem
      · obtain ⟨site, -, hresult⟩ := Outcomes.exists_of_mem_of_forall₂ hresults hmem
        obtain htype | ⟨header, hheader, rfl⟩ := htype
        · exact (hresult response rfl).type type htype
        · exact (hresult response rfl).headers header hheader
    parameters := fun parameter hmem => (hlowered.parameters parameter hmem).option.missing
    paths := fun parameter hmem => (hlowered.parameters parameter hmem).path
    bound := hroute }

/-- Whatever the table is, the operations record where values may be missing. -/
theorem lowerWith_operations :
    ReturnsOk (lowerWith setting find)
      fun api => ∀ operation ∈ api.operations, operation.RecordsOptions := by
  refine (ReturnsOk.any _).bind fun _ _ => ?_
  refine (ReturnsOk.any _).bind fun _ _ => ?_
  have hoperations : ReturnsOk (lowerOperations setting find)
      fun operations => ∀ operation ∈ operations, operation.RecordsOptions := by
    refine (ReturnsOk.any _).bind fun sites _ => ?_
    refine Contract.mono_post (ReturnsOk.mapM (lowerOperation_recordsOptions hfind)) ?_
    intro outcome _ hall operations houtcome operation hmem
    obtain ⟨_, -, hrecord⟩ := Outcomes.exists_of_mem_of_forall₂ (hall operations houtcome) hmem
    exact hrecord
  refine hoperations.bind fun operations hrecord => ?_
  exact (ReturnsOk.any _).bind fun state _ => ReturnsOk.pure hrecord

end Operations

/-! ## Whole interfaces -/

/-- When a document without repeated keys is lowered to an interface, the interface records where
values may be missing, once and alike everywhere. -/
theorem recordsOptions_of_run_eq_ok {setting : Setting} {api : Api} {notices : List Notice}
    (h : run setting = some ⟨.ok api, notices⟩)
    (hkeys : setting.document.tree.hasDistinctKeys = true) : api.RecordsOptions := by
  obtain ⟨final, hrun, -, declared, added, claimed, haccount⟩ := account_of_run_eq_ok h hkeys
  have hmodels : ∀ model ∈ api.models.models, model.RecordsOptions :=
    fun _ hmem => haccount.recordsOptions hmem
  have hoperations := Returns.of_run
    (lowerWith_operations (typeOf_findsApart setting setting.depth)) hrun api rfl
  exact {
    once := by
      intro type htype
      obtain htype | htype := List.mem_append.1 htype
      · obtain hmodel | hoperation := List.mem_append.1 htype
        · obtain ⟨model, hmem, htype⟩ := List.mem_flatMap.1 hmodel
          exact (hmodels model hmem).types type htype
        · obtain ⟨operation, hmem, htype⟩ := List.mem_flatMap.1 hoperation
          exact (hoperations operation hmem).types type htype
      · obtain ⟨operation, hmem, htype⟩ := List.mem_flatMap.1 htype
        obtain ⟨segment, hsegment, hown⟩ := List.mem_filterMap.1 htype
        cases segment with
        | parameter name own =>
          obtain rfl := Option.some.inj hown
          obtain ⟨parameter, -, rfl, hapart⟩ :=
            (hoperations operation hmem).exists_parameter hsegment
          exact hapart.stripOptional
        | literal text => cases hown
        | root => cases hown
    fields := fun model hmem => (hmodels model hmem).fields
    parameters := fun operation hmem => (hoperations operation hmem).parameters
    paths := fun operation hmem => (hoperations operation hmem).paths
    bound := by
      intro operation hmem name type hsegment
      obtain ⟨parameter, hbound, rfl, hapart⟩ :=
        (hoperations operation hmem).exists_parameter hsegment
      exact ⟨parameter, hbound, rfl, hapart.isOptional_stripOptional⟩ }

/-- A reference to a nullable node, around which another schema is nullable too, fields and
parameters that are not required, and a nullable path parameter. -/
theorem recordsOptions_of_run_eq_ok_nullable :
    let tree : Json := .object [
      ("info", .object []),
      ("paths", .object [("/a/\x7bid\x7d", .object [("get", .object [
        ("parameters", .array [
          .object [("name", .string "id"), ("in", .string "path"),
            ("schema", .object [("type", .array [.string "string", .string "null"])])],
          .object [("name", .string "q"), ("in", .string "query"),
            ("schema", .object [("$ref", .string "#/x")])]])])])]),
      ("x", .object [("type", .string "string"), ("nullable", .bool true)]),
      ("definitions", .object [("A", .object [("properties", .object [
        ("b", .object [("allOf", .array [.object [("$ref", .string "#/x")]]),
          ("nullable", .bool true)])])])])]
    ∃ document api notices, Document.ofTree tree = .ok document ∧
      tree.hasDistinctKeys = true ∧ run ⟨document, Haskell.target⟩ = some ⟨.ok api, notices⟩ ∧
      api.RecordsOptions ∧
      api.models.models.flatMap Model.types = [.optional .string] ∧
      api.operations.flatMap Api.operationTypes = [.optional .string, .optional .string] ∧
      api.operations.flatMap (fun operation => operation.path.types) = [.string] := by
  intro tree
  have hview : ((Document.ofTree tree).toOption.bind fun document =>
      (run ⟨document, Haskell.target⟩).bind fun result => result.outcome.toOption.map fun api =>
        (api.models.models.flatMap Model.types, api.operations.flatMap Api.operationTypes,
          api.operations.flatMap fun operation => operation.path.types)) =
      some ([.optional .string], [.optional .string, .optional .string], [.string]) := by
    decide +kernel
  have hkeys : tree.hasDistinctKeys = true := by decide +kernel
  obtain ⟨document, api, notices, hdocument, hrun, htypes⟩ := exists_run_of_view hview
  obtain rfl := Document.eq_of_ofTree hdocument
  rw [Prod.mk.injEq, Prod.mk.injEq] at htypes
  obtain ⟨hmodels, hoperations, hroutes⟩ := htypes
  exact ⟨_, api, notices, hdocument, hkeys, hrun, recordsOptions_of_run_eq_ok hrun hkeys,
    hmodels, hoperations, hroutes⟩

end Lowering

end ServantGen
