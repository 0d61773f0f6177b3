import ServantGen.Proofs.Closure.Api
import ServantGen.Proofs.Ledger.Api
import ServantGen.Proofs.Lowering.Invariants
import ServantGen.Proofs.Lowering.Termination

/-!
# The values of enumerations are listed in the document

An enumeration of a lowered interface, whether a model of its own or inside a type, has the values
that a schema of the document lists. No value is added, left out or put in another place on the way
from the schema to the interface: every type that is found, and every model that is put into the
table, mentions enumerations of the document only. An enumeration that is a model of its own has the
values of its own named schema.
-/

namespace ServantGen.Lowering

/-- A schema of the document is an enumeration with these values. -/
def Lists (document : Document) (values : List String) : Prop :=
  ∃ schema ∈ document.tree.sites, stringEnum? schema.node = some values

/-- An enumeration has a value. -/
theorem stringEnum?_ne_nil {schema : Json} {values : List String}
    (h : stringEnum? schema = some values) : values ≠ [] := by
  obtain ⟨items, -, hvalues⟩ := Option.bind_eq_some_iff.1 h
  obtain ⟨hfull, htexts⟩ := Option.ite_none_right_eq_some.1 hvalues
  obtain rfl := Option.some.inj htexts
  intro hempty
  simp [hempty] at hfull

theorem Lists.ne_nil {document : Document} {values : List String} (h : Lists document values) :
    values ≠ [] := by
  obtain ⟨schema, -, hvalues⟩ := h
  exact stringEnum?_ne_nil hvalues

def ListedType (document : Document) (type : DataType) : Prop :=
  ∀ entry ∈ type.enums, Lists document entry.2

/-- There are no enumerations inside a type. -/
theorem ListedType.plain {document : Document} {type : DataType} (h : type.enums = []) :
    ListedType document type := by
  simp [ListedType, h]

theorem ListedType.orNone {document : Document} {type : DataType} (h : ListedType document type) :
    ListedType document type.orNone := by
  rwa [ListedType, DataType.enums_orNone]

def ListedShape (document : Document) : Shape → Prop
  | .record fields => ∀ field ∈ fields, ListedType document field.type
  | .enum values => Lists document values
  | .union _ => True
  | .alias type => ListedType document type

/-- The enumerations in the table are listed. -/
def ListsModels (document : Document) (_ : NoRecord) (state : State) : Prop :=
  ∀ model ∈ state.models.models, ListedShape document model.shape

/-- A computation that puts no enumerations into the table but listed ones. -/
abbrev KeepsListed {α : Type} (document : Document) (m : SchemaM α) (right : α → Prop) : Prop :=
  Grows (ListsModels document) ⟨⟩ m fun _ => right

/-- The same for a computation that may find an error. -/
abbrev KeepsListedOk {α : Type} (document : Document) (m : OperationM α) (right : α → Prop) :
    Prop :=
  GrowsOk (ListsModels document) ⟨⟩ m fun _ => right

theorem remark_keepsListed {document : Document} (subject : Remark) (location : String) :
    KeepsListed document (remark subject location) fun _ => True :=
  Grows.modify (fun _ h => h) trivial

/-! ## Schemas -/

/-- A way of finding types that answers listed enumerations for the schemas of a document. -/
def FindsListed (document : Document) (find : TypeFinder) : Prop :=
  ∀ site ∈ document.tree.sites, ∀ hint location,
    KeepsListed document (find site hint location) (ListedType document)

/-- From the schemas of a document the recursion goes on to schemas of the document only. -/
theorem covers_sites (document : Document) : Covers document (· ∈ document.tree.sites) where
  found := Pointer.mem_of_find?
  below := Site.mem_of_get?
  parts hschema hparts _ := mem_of_parts? hschema hparts
  alternatives hschema halternatives _ := mem_of_alternatives? hschema halternatives
  properties hschema := inDocument_properties hschema

theorem allTypes_listedType_iff {document : Document} {shape : Shape} :
    shape.AllTypes (ListedType document) ↔ ListedShape document shape := by
  cases shape with
  | enum values =>
    exact ⟨fun h => h "" ("", values) List.mem_cons_self, fun h _ => List.forall_mem_singleton.2 h⟩
  | _ => exact Iff.rfl

/-- Enumerations are made of what a schema of the document lists only. -/
theorem listedType_law (document : Document) :
    TypeLaw (· ∈ document.tree.sites) (ListsModels document ⟨⟩) (ListedType document) where
  names _ h := h
  depth _ h := h
  notice _ _ h := h
  model hshape h := by
    intro other hother
    obtain rfl | hother := ModelTable.mem_models_insert hother
    · exact allTypes_listedType_iff.1 hshape
    · exact h other hother
  primitive _ := .plain rfl
  named _ := .plain rfl
  enum hschema hvalues _ := List.forall_mem_singleton.2 ⟨_, hschema, hvalues⟩
  array h := h
  map h := h
  orNone h := h.orNone

/-- However deep the recursion may go, the enumerations that are found are listed. -/
theorem typeOf_findsListed (document : Document) (target : Target) (depth : Nat) :
    FindsListed document (typeOf ⟨document, target⟩ depth) :=
  (listedType_law document).typeOf (covers_sites document) depth

/-! ## Named schemas -/

theorem declareModels_keepsListed (setting : Setting) :
    KeepsListed setting.document (declareModels setting) fun _ => True := by
  have law := listedType_law setting.document
  refine Grows.forM fun schema _ _ _ => ?_
  refine (law.claimed _ _).bind fun _ name _ _ => ?_
  refine (law.insertModel (placeholder name schema.1) (law.primitive .any)).bind
    fun _ _ _ _ => ?_
  exact Grows.modify (fun _ h => h) trivial

theorem lowerModels_keepsListed {document : Document} {target : Target} {find : TypeFinder}
    (hfind : FindsListed document find) :
    KeepsListed document (lowerModels ⟨document, target⟩ find) fun _ => True :=
  (listedType_law document).lowerModels (covers_sites document) hfind
    fun _ hschema => Document.mem_of_schemas hschema

/-! ## Operations -/

section Operations

variable {document : Document} {target : Target} {find : TypeFinder}
  (hfind : FindsListed document find)
include hfind

theorem parameterType_keepsListed {parameter : Site} (hparameter : parameter ∈ document.tree.sites)
    (hint location : String) :
    KeepsListed document (parameterType find parameter hint location) (ListedType document) := by
  unfold parameterType
  split
  · rename_i schema hschema
    exact hfind schema (ParameterSite.mem_of_schema? hparameter hschema) hint location
  · exact (remark_keepsListed _ location).bind fun _ _ _ _ => Grows.pure (.plain rfl)

theorem ownParameter_keepsListed (operation : String) (place : Location) {parameter : Site}
    (hparameter : parameter ∈ document.tree.sites) (location : String) (scope : NameScope) :
    KeepsListed document
      (ownParameter ⟨document, target⟩ find operation place parameter location scope)
      fun result => ListedType document result.1.type := by
  refine ((listedType_law document).noted _ _).bind fun _ name _ _ => ?_
  refine (parameterType_keepsListed hfind hparameter _ location).bind
    fun _ type _ htype => Grows.pure ?_
  dsimp only
  split
  · exact htype
  · exact htype.orNone

structure ListedParameters (document : Document) (lowered : LoweredParameters) : Prop where
  parameters : ∀ parameter ∈ lowered.parameters, ListedType document parameter.type
  body : ∀ body ∈ lowered.body, ListedType document body.type

theorem lowerParameters_keepsListed (operation location : String) (scope : NameScope)
    {body : Option RequestBody} (hbody : ∀ own ∈ body, ListedType document own.type)
    {sites : List Site} (hsites : ∀ site ∈ sites, site ∈ document.tree.sites) :
    KeepsListed document
      (lowerParameters ⟨document, target⟩ find operation location scope body sites)
      (ListedParameters document) := by
  induction sites generalizing scope body with
  | nil => exact Grows.pure ⟨by simp, hbody⟩
  | cons parameter rest ih =>
    obtain ⟨hparameter, hrest⟩ := List.forall_mem_cons.1 hsites
    rw [lowerParameters_cons]
    cases parameterKind parameter with
    | unknown => exact (remark_keepsListed _ _).bind fun _ _ _ _ => ih scope hbody hrest
    | body =>
      cases body with
      | some held => exact (remark_keepsListed _ _).bind fun _ _ _ _ => ih scope hbody hrest
      | none =>
        have hown : ∀ location, KeepsListed document
            (bodyParameter find operation parameter location)
            fun own => ListedType document own.type := fun location =>
          (parameterType_keepsListed hfind hparameter _ location).bind
            fun _ type _ htype => Grows.pure htype
        refine (hown _).bind fun _ own _ hlisted => ih scope ?_ hrest
        rintro _ ⟨⟩
        exact hlisted
    | own place =>
      refine (ownParameter_keepsListed hfind operation place hparameter _ scope).bind
        fun _ result _ hresult => ?_
      refine (ih result.2 hbody hrest).bind fun _ others _ hothers => Grows.pure ?_
      exact ⟨List.forall_mem_cons.2 ⟨hresult, hothers.parameters⟩, hothers.body⟩

omit hfind in
theorem lowerRoute_keepsListed (operation : OperationSite) (parameters : List Parameter) :
    KeepsListedOk document (lowerRoute ⟨document, target⟩ operation parameters)
      fun _ => True := by
  intro state hstate
  rw [lowerRoute_run]
  cases (Text.splitOn '/' operation.path).mapM
      (segmentOf ⟨document, target⟩ operation parameters) with
  | error error => exact ⟨⟨⟩, le_rfl, hstate, by simp⟩
  | ok segments => exact ⟨⟨⟩, le_rfl, hstate, fun _ _ => trivial⟩

theorem bodyOf_keepsListed {operation : OperationSite}
    (hoperation : operation.InTree document.tree) (id location : String)
    {parameter : Option RequestBody}
    (hparameter : ∀ own ∈ parameter, ListedType document own.type) :
    KeepsListedOk document (bodyOf ⟨document, target⟩ find operation id location parameter)
      fun result => ∀ body ∈ result, ListedType document body.type := by
  cases parameter with
  | some body => exact GrowsOk.pure hparameter
  | none =>
    refine (orFail_grows location _).bind fun _ body _ hbody => ?_
    cases body with
    | none => exact GrowsOk.pure (by simp)
    | some body =>
      dsimp only
      cases hschema : body.schema with
      | none => exact GrowsOk.pure (by simp)
      | some schema =>
        have hsite := OperationSite.mem_of_requestBody? hoperation hbody hschema
        refine (Grows.lift (hfind schema hsite _ _)).bind fun _ type _ htype => GrowsOk.pure ?_
        rintro _ ⟨⟩
        exact htype

section Responses

variable {response : ResponseSite} (hresponse : response.node ∈ document.tree.sites)
include hresponse

theorem responseType_keepsListed (hint location : String) :
    KeepsListed document (responseType find response hint location)
      fun result => ∀ type ∈ result, ListedType document type := by
  unfold responseType
  split
  · exact Grows.pure (by simp)
  · rename_i schema hschema
    have hsite := ResponseSite.mem_of_schema? hresponse hschema
    refine (hfind schema hsite hint location).bind fun _ type _ hlisted => Grows.pure ?_
    rintro _ ⟨⟩
    exact hlisted

theorem lowerHeaders_keepsListed (id location : String) {headers : List (String × Site)}
    (hheaders : response.headers document = .ok headers) :
    KeepsListed document (lowerHeaders find id location headers)
      fun lowered => ∀ header ∈ lowered, ListedType document header.type := by
  refine Grows.mapM (fun _ _ _ _ h => h) ?_
  rintro ⟨name, node⟩ hheader _ _
  have hnode := ResponseSite.mem_of_headers hresponse hheaders hheader
  refine (hfind _ (Site.getD_get?_mem hnode "schema") _ location).bind fun _ type _ hlisted => ?_
  exact Grows.pure hlisted

theorem lowerResponse_keepsListed (id location : String) :
    KeepsListedOk document (lowerResponse ⟨document, target⟩ find id location response)
      fun result => ∀ lowered ∈ result, (∀ type ∈ lowered.type, ListedType document type) ∧
        ∀ header ∈ lowered.headers, ListedType document header.type := by
  unfold lowerResponse
  dsimp only
  split
  · exact (Grows.lift (remark_keepsListed _ _)).bind fun _ _ _ _ => GrowsOk.pure (by simp)
  · refine (Grows.lift (responseType_keepsListed hfind hresponse _ _)).bind
      fun _ type _ hlisted => ?_
    refine (orFail_grows _ _).bind fun _ sites _ hsites => ?_
    refine (Grows.lift (lowerHeaders_keepsListed hfind hresponse id _ hsites)).bind
      fun _ headers _ hlistedHeaders => GrowsOk.pure ?_
    rintro _ ⟨⟩
    exact ⟨hlisted, hlistedHeaders⟩

end Responses

theorem lowerOperation_keepsListed {operation : OperationSite}
    (hoperation : operation.InTree document.tree) :
    KeepsListedOk document (lowerOperation ⟨document, target⟩ find operation)
      fun lowered => ∀ type ∈ Api.operationTypes lowered, ListedType document type := by
  refine (Grows.lift ((listedType_law document).claimed _ _)).bind fun _ id _ _ => ?_
  refine (orFail_grows _ _).bind fun _ sites _ hsites => ?_
  have hmem := fun site => @OperationSite.mem_of_parameters _ _ site hoperation _ hsites
  refine (Grows.lift (lowerParameters_keepsListed hfind id _ _ (by simp) hmem)).bind
    fun _ lowered _ hlowered => ?_
  refine (lowerRoute_keepsListed operation lowered.parameters).bind fun _ route _ _ => ?_
  refine (bodyOf_keepsListed hfind hoperation id _ hlowered.body).bind fun _ body _ hbody => ?_
  refine (orFail_grows _ _).bind fun _ responses _ hresponses => ?_
  have hnode := fun response => @OperationSite.mem_of_responses _ _ hoperation _ hresponses response
  refine (GrowsOk.mapM (fun _ _ _ _ h => h) fun response hresponse _ _ =>
    lowerResponse_keepsListed hfind (hnode response hresponse) id _).bind
      fun _ results _ hresults => GrowsOk.pure ?_
  intro type htype
  simp only [Api.operationTypes, List.mem_append, List.mem_map, List.mem_flatMap,
    Option.mem_toList, Option.map_eq_some_iff, List.mem_filterMap] at htype
  obtain (⟨parameter, hmem, rfl⟩ | ⟨own, hmem, rfl⟩) | ⟨response, ⟨_, hmem, rfl⟩, htype⟩ := htype
  · exact hlowered.parameters parameter hmem
  · exact hbody own hmem
  · obtain ⟨hown, hheaders⟩ := hresults _ hmem response rfl
    obtain htype | ⟨header, hheader, rfl⟩ := htype
    · exact hown type htype
    · exact hheaders header hheader

def ListedOperations (document : Document) (operations : List Operation) : Prop :=
  ∀ operation ∈ operations, ∀ type ∈ Api.operationTypes operation, ListedType document type

theorem lowerOperations_keepsListed (hpaths : document.PathsInTree) :
    KeepsListedOk document (lowerOperations ⟨document, target⟩ find)
      (ListedOperations document) := by
  refine (GrowsOk.outcome _).bind fun _ sites _ hsites => ?_
  have hoperations := Outcomes.eq_ok_of_mapError_eq_ok hsites
  exact GrowsOk.mapM (fun _ _ _ _ h => h) fun operation hoperation _ _ =>
    lowerOperation_keepsListed hfind (Document.inTree_of_operations hpaths hoperations hoperation)

end Operations

/-! ## Whole interfaces -/

/-- Every enumeration of an interface is listed in the document. -/
structure ListedApi (document : Document) (api : Api) : Prop where
  models : ∀ model ∈ api.models.models, ∀ values, model.shape = .enum values →
    Lists document values
  inlines : ∀ inline ∈ api.inlineEnums, Lists document inline.values

theorem ListedShape.types {document : Document} {model : Model}
    (h : ListedShape document model.shape) : ∀ type ∈ model.types, ListedType document type := by
  unfold Model.types
  split
  · rename_i fields hshape
    rw [hshape] at h
    exact List.forall_mem_map.2 h
  · rename_i type hshape
    rw [hshape] at h
    exact List.forall_mem_singleton.2 h
  · simp
  · simp

theorem listedApi {document : Document} {info : ApiInfo} {state : State}
    {operations : List Operation} (hstate : ListsModels document ⟨⟩ state)
    (hoperations : ListedOperations document operations) :
    ListedApi document ⟨info, state.models, operations⟩ where
  models := by
    intro model hmodel values hshape
    have hlisted := hstate model hmodel
    rwa [hshape] at hlisted
  inlines := by
    intro inline hinline
    obtain ⟨type, htype, hentry⟩ := Api.mem_types_of_mem_inlineEnums hinline
    obtain hmodel | hoperation := List.mem_append.1 htype
    · obtain ⟨model, hmem, htype⟩ := List.mem_flatMap.1 hmodel
      exact (hstate model hmem).types type htype _ hentry
    · obtain ⟨operation, hmem, htype⟩ := List.mem_flatMap.1 hoperation
      exact hoperations operation hmem type htype _ hentry

/-- Whatever finds listed enumerations lowers a document to an interface of listed ones. -/
theorem lowerWith_listed {document : Document} {target : Target} {find : TypeFinder}
    (hpaths : document.PathsInTree) (hfind : FindsListed document find) :
    Contract True (· = State.initial) (lowerWith ⟨document, target⟩ find).run
      fun outcome _ => ∀ api, outcome = .ok api → ListedApi document api := by
  have hdeclared := declareModels_keepsListed ⟨document, target⟩
  refine Contract.bindOutcome (Contract.lift (Contract.mono_pre hdeclared ?_)) ?_
  · rintro _ rfl
    simp [ListsModels, State.initial, ModelTable.empty]
  · rintro ⟨⟩ middle ⟨_, -, hmiddle, -⟩
    refine Contract.bindOutcome (Contract.lift (@lowerModels_keepsListed _ target _ hfind)) ?_
      middle hmiddle
    rintro ⟨⟩ state ⟨_, -, hstate, -⟩
    refine (lowerOperations_keepsListed hfind hpaths).finish ?_ state hstate
    intro _ operations after hafter hoperations
    exact listedApi hafter hoperations

/-- When a document is lowered to an interface, every enumeration of the interface has the values
that a schema of the document lists. -/
theorem listedApi_of_run_eq_ok {setting : Setting} (hpaths : setting.document.PathsInTree)
    {api : Api} {notices : List Notice} (h : run setting = some ⟨.ok api, notices⟩) :
    ListedApi setting.document api := by
  obtain ⟨document, target⟩ := setting
  obtain ⟨⟨outcome, after⟩, hrun, hresult⟩ := Option.map_eq_some_iff.1 h
  obtain rfl : outcome = .ok api := congrArg Result.outcome hresult
  have hfind := typeOf_findsListed document target (Setting.depth ⟨document, target⟩)
  exact (lowerWith_listed hpaths hfind).result rfl hrun api rfl

/-! ## Named enumerations -/

/-- Only a schema that lists values gives a model that is an enumeration, and these are its
values. -/
theorem modelOf_listsOwn {setting : Setting} {find : TypeFinder} (name raw : String)
    (schema : Site) (location : String) :
    Returns (modelOf setting find name raw schema location) fun model =>
      ∀ values, model.shape = .enum values →
        schema.reference? = none ∧ stringEnum? schema.node = some values := by
  have hshape : Returns (shapeOf setting find name schema location) fun result =>
      ∀ values, result.1 = .enum values →
        schema.reference? = none ∧ stringEnum? schema.node = some values := by
    rw [shapeOf_eq]
    cases shapeKind schema with
    | enum values hreference hvalues =>
      refine Returns.pure fun own heq => ?_
      obtain rfl := Shape.enum.inj heq
      exact ⟨hreference, hvalues⟩
    | empty => exact Returns.pure (by simp)
    | union =>
      exact (Returns.any _).bind fun _ _ => Returns.get_bind fun _ => Returns.pure (by simp)
    | _ => exact (Returns.any _).bind fun _ _ => Returns.pure (by simp)
  exact hshape.bind fun _ hlists => Returns.pure hlists

/-- An enumeration is what its own named schema gives, and has the values listed there. -/
def ListsOwn (setting : Setting) (model : Model) (values : List String) : Prop :=
  ∃ schema final, (model.rawName, schema) ∈ setting.document.schemas ∧
    LoweredAt setting (typeOf setting setting.depth) final (model.rawName, schema) model ∧
    schema.reference? = none ∧ stringEnum? schema.node = some values

/-- An object never becomes an enumeration on the way, so the models that are enumerations are those
of named schemas. -/
theorem Account.listsOwn {setting : Setting} {api : Api} {declared added : List Model}
    {claimed : List Naming} {final : State}
    (h : Account setting api declared added claimed final) {model : Model}
    (hmodel : model ∈ api.models.models) {values : List String}
    (hshape : model.shape = .enum values) : ListsOwn setting model values := by
  rw [h.models] at hmodel
  obtain hmodel | hmodel := List.mem_append.1 hmodel
  · obtain ⟨⟨raw, schema⟩, hmem, hlowered⟩ := Outcomes.exists_of_mem_of_forall₂ h.lowered hmodel
    obtain rfl : model.rawName = raw := hlowered.rawName
    obtain ⟨before, after, hrun, -⟩ := hlowered.made
    have hlists := (modelOf_listsOwn _ _ _ _).of_run hrun values hshape
    exact ⟨schema, final, hmem, hlowered, hlists⟩
  · obtain ⟨questions, -, hmade⟩ := h.made
    obtain ⟨question, after, -, -, hhoisted | haliased⟩ := hmade model hmodel
    · obtain ⟨claimed, placed, filled, -, -, hrun, -⟩ := hhoisted.made
      have hlists := (modelOf_listsOwn _ _ _ _).of_run hrun values hshape
      exact absurd (hhoisted.object.noEnum.symm.trans hlists.2) (by simp)
    · obtain ⟨type, found, -, -, -, -, heq⟩ := haliased.made
      rw [heq] at hshape
      cases hshape

end ServantGen.Lowering
