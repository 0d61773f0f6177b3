import ServantGen.Lowering.Run
import ServantGen.Proofs.Closure.Schemas
import ServantGen.Proofs.Lowering.Kinds
import ServantGen.Proofs.Route.Fidelity

/-!
# A lowered interface refers to itself only

Every model that an interface mentions has its place in the table, and every enumeration inside
a type is listed once, under a name that no model has. The operations are lowered within the
same inventory as the schemas; the types of a route are those of the parameters its placeholders
are bound to.
-/

namespace ServantGen

/-! ## What an interface mentions -/

def Route.types (route : Route) : List DataType :=
  route.segments.filterMap fun
    | .parameter _ type => some type
    | _ => none

namespace Api

/-- The types that an interface mentions, those of routes included. -/
def allTypes (api : Api) : List DataType :=
  api.types ++ api.operations.flatMap fun operation => operation.path.types

/-- All that an interface refers to is part of it. -/
structure RefersToItself (api : Api) : Prop where
  /-- Every model inside a type is in the table. -/
  types : ∀ type ∈ api.allTypes, ∀ name ∈ type.models, api.models.contains name = true
  /-- Every variant of a union is in the table. -/
  variants : ∀ model ∈ api.models.models, ∀ variants, model.shape = .union variants →
    ∀ name ∈ variants, api.models.contains name = true
  /-- Every model that a discriminator selects is in the table. -/
  targets : ∀ model ∈ api.models.models, ∀ d ∈ model.discriminator, ∀ entry ∈ d.mapping,
    api.models.contains entry.2 = true
  /-- Every enumeration inside a type is listed with its own values. -/
  enums : ∀ type ∈ api.allTypes, ∀ entry ∈ type.enums, ⟨entry.1, entry.2⟩ ∈ api.inlineEnums
  /-- Every name is listed once. -/
  once : (api.inlineEnums.map InlineEnum.name).Nodup
  /-- No listed enumeration has the name of a model. -/
  apart : ∀ inline ∈ api.inlineEnums, api.models.contains inline.name = false

section FirstBy

variable {α : Type} {key : α → String}

theorem mem_of_mem_firstBy {seen : List String} {items : List α} {item : α}
    (h : item ∈ firstBy key seen items) : item ∈ items ∧ key item ∉ seen := by
  induction items generalizing seen with
  | nil => simp [firstBy] at h
  | cons first rest ih =>
    unfold firstBy at h
    split at h
    · obtain ⟨hmem, hseen⟩ := ih h
      exact ⟨List.mem_cons_of_mem _ hmem, hseen⟩
    · rename_i hfirst
      obtain rfl | h := List.mem_cons.1 h
      · exact ⟨List.mem_cons_self, hfirst⟩
      · obtain ⟨hmem, hseen⟩ := ih h
        exact ⟨List.mem_cons_of_mem _ hmem, fun hkey => hseen (List.mem_cons_of_mem _ hkey)⟩

/-- Every key that was not seen keeps an element. -/
theorem exists_mem_firstBy {seen : List String} {items : List α} {item : α} (h : item ∈ items)
    (hseen : key item ∉ seen) : ∃ other ∈ firstBy key seen items, key other = key item := by
  induction items generalizing seen with
  | nil => simp at h
  | cons first rest ih =>
    unfold firstBy
    split
    · rename_i hfirst
      obtain rfl | h := List.mem_cons.1 h
      · exact absurd hfirst hseen
      · exact ih h hseen
    · by_cases hkey : key first = key item
      · exact ⟨first, List.mem_cons_self, hkey⟩
      · obtain rfl | h := List.mem_cons.1 h
        · exact absurd rfl hkey
        · have hnew : key item ∉ key first :: seen := by
            rw [List.mem_cons, not_or]
            exact ⟨fun heq => hkey heq.symm, hseen⟩
          obtain ⟨other, hother, heq⟩ := ih h hnew
          exact ⟨other, List.mem_cons_of_mem _ hother, heq⟩

theorem nodup_map_firstBy (seen : List String) (items : List α) :
    ((firstBy key seen items).map key).Nodup := by
  induction items generalizing seen with
  | nil => simp [firstBy]
  | cons first rest ih =>
    unfold firstBy
    split
    · exact ih seen
    · rw [List.map_cons, List.nodup_cons]
      refine ⟨?_, ih _⟩
      intro hmem
      obtain ⟨other, hother, heq⟩ := List.mem_map.1 hmem
      exact (mem_of_mem_firstBy hother).2 (heq ▸ List.mem_cons_self)

end FirstBy

/-- The enumerations of an interface that are listed. -/
theorem mem_types_of_mem_inlineEnums {api : Api} {inline : InlineEnum}
    (h : inline ∈ api.inlineEnums) :
    ∃ type ∈ api.types, (inline.name, inline.values) ∈ type.enums := by
  obtain ⟨type, htype, hentry⟩ := List.mem_flatMap.1 (mem_of_mem_firstBy h).1
  obtain ⟨⟨name, values⟩, hmem, rfl⟩ := List.mem_map.1 hentry
  exact ⟨type, htype, hmem⟩

/-- An enumeration inside a type is listed by its name. -/
theorem exists_mem_inlineEnums {api : Api} {type : DataType} (htype : type ∈ api.types)
    {entry : String × List String} (hentry : entry ∈ type.enums) :
    ∃ other ∈ api.inlineEnums, other.name = entry.1 :=
  @exists_mem_firstBy _ InlineEnum.name [] _ ⟨entry.1, entry.2⟩
    (List.mem_flatMap.2 ⟨type, htype, List.mem_map.2 ⟨entry, hentry, rfl⟩⟩) List.not_mem_nil

/-- Where enumerations of one name have one list of values, each of them is listed. -/
theorem mem_inlineEnums {api : Api} {known : Set (String × List String)}
    (hknown : ∀ type ∈ api.types, ∀ entry ∈ type.enums, entry ∈ known)
    (hsingle : ∀ left ∈ known, ∀ right ∈ known, left.1 = right.1 → left = right)
    {type : DataType} (htype : type ∈ api.types) {entry : String × List String}
    (hentry : entry ∈ type.enums) : ⟨entry.1, entry.2⟩ ∈ api.inlineEnums := by
  obtain ⟨other, hother, hname⟩ := exists_mem_inlineEnums htype hentry
  obtain ⟨owner, howner, hvalues⟩ := mem_types_of_mem_inlineEnums hother
  have heq := hsingle _ (hknown owner howner _ hvalues) entry (hknown type htype entry hentry) hname
  obtain ⟨name, values⟩ := other
  cases heq
  exact hother

end Api

namespace Lowering

/-! ## Operations -/

section Operations

variable {setting : Setting} {find : TypeFinder} {known : Inventory}

theorem parameterType_grows (hfind : ClosedFinder find) (parameter : Site)
    (hint location : String) :
    Grows Fits known (parameterType find parameter hint location) ClosedType := by
  unfold parameterType
  split
  · exact hfind known _ hint location
  · exact remarked_grows _ _ fun more => .primitive more .any

theorem bodyParameter_grows (hfind : ClosedFinder find) (operation : String) (parameter : Site)
    (location : String) :
    Grows Fits known (bodyParameter find operation parameter location)
      fun more body => ClosedType more body.type := by
  refine (parameterType_grows hfind parameter _ location).bind ?_
  intro more type _ htype
  exact Grows.pure htype

theorem ownParameter_grows (hfind : ClosedFinder find) (operation : String) (place : Location)
    (parameter : Site) (location : String) (scope : NameScope) :
    Grows Fits known (ownParameter setting find operation place parameter location scope)
      fun more result => ClosedType more result.1.type := by
  refine (noted_grows _ _).bind ?_
  intro more _ _ _
  refine (parameterType_grows hfind parameter _ location).bind ?_
  intro most type _ htype
  refine Grows.pure ?_
  dsimp only
  split
  · exact htype
  · exact htype.orNone

structure ClosedParameters (known : Inventory) (lowered : LoweredParameters) : Prop where
  parameters : ∀ parameter ∈ lowered.parameters, ClosedType known parameter.type
  body : ∀ body ∈ lowered.body, ClosedType known body.type

theorem lowerParameters_grows (hfind : ClosedFinder find) (operation location : String)
    (scope : NameScope) (body : Option RequestBody) (sites : List Site)
    (hbody : ∀ b ∈ body, ClosedType known b.type) :
    Grows Fits known (lowerParameters setting find operation location scope body sites)
      ClosedParameters := by
  induction sites generalizing known scope body with
  | nil => exact Grows.pure ⟨by simp, hbody⟩
  | cons parameter rest ih =>
    have hlater : ∀ more, known ≤ more → ∀ b ∈ body, ClosedType more b.type :=
      fun more hle b hb => (hbody b hb).mono hle
    rw [lowerParameters_cons]
    cases parameterKind parameter with
    | unknown =>
      refine (remark_grows _ _).bind ?_
      intro more _ hle _
      exact ih scope body (hlater more hle)
    | body =>
      cases body with
      | some held =>
        refine (remark_grows _ _).bind ?_
        intro more _ hle _
        exact ih scope (some held) (hlater more hle)
      | none =>
        refine (bodyParameter_grows hfind operation parameter _).bind ?_
        intro more body _ hbody
        refine ih scope (some body) ?_
        rintro _ ⟨⟩
        exact hbody
    | own place =>
      refine (ownParameter_grows hfind operation place parameter _ scope).bind ?_
      rintro more ⟨lowered, scope⟩ hle hlowered
      refine (ih scope body (hlater more hle)).bind ?_
      intro most others hmost hothers
      refine Grows.pure ⟨?_, hothers.body⟩
      exact List.forall_mem_cons.2 ⟨hlowered.mono hmost, hothers.parameters⟩

/-- The types of a route are those of the parameters of the operation. -/
theorem lowerRoute_grows (operation : OperationSite) (parameters : List Parameter) :
    GrowsOk Fits known (lowerRoute setting operation parameters) fun _ route =>
      ∀ type ∈ route.types, ∃ parameter ∈ parameters, type = parameter.type.stripOptional := by
  intro state hfits
  rw [lowerRoute_run]
  cases hsegments : (Text.splitOn '/' operation.path).mapM
      (segmentOf setting operation parameters) with
  | error error => exact ⟨known, le_refl known, hfits, by simp⟩
  | ok segments =>
    refine ⟨known, le_refl known, hfits.of_eq rfl rfl rfl, ?_⟩
    rintro _ ⟨⟩ type htype
    obtain ⟨segment, hsegment, hparameter⟩ := List.mem_filterMap.1 htype
    cases segment with
    | literal text => simp at hparameter
    | root => simp at hparameter
    | parameter name own =>
      obtain rfl := Option.some.inj hparameter
      have hstep : Segment.parameter name own ∈ (Route.ofSegments segments).steps :=
        List.mem_flatMap.2 ⟨_, hsegment, List.mem_singleton_self _⟩
      have htells := Route.tells_of_mapM_segmentOf hsegments
      obtain ⟨component, -, hstands⟩ := Outcomes.exists_of_mem_of_forall₂ htells.steps hstep
      cases hstands with
      | parameter _ hbound => exact ⟨_, List.mem_of_find?_eq_some hbound, rfl⟩

theorem orFail_grows {κ α : Type} [Preorder κ] {fits : κ → State → Prop} {known : κ}
    (location : String) (outcome : Except ReadError α) :
    GrowsOk fits known (orFail location outcome) fun _ value => outcome = .ok value := by
  cases outcome with
  | ok value => exact GrowsOk.pure rfl
  | error error => exact GrowsOk.throw

theorem lowerBody_grows (hfind : ClosedFinder find) (operation : OperationSite)
    (id location : String) :
    GrowsOk Fits known (lowerBody setting find operation id location) fun more result =>
      ∀ body ∈ result, ClosedType more body.type := by
  refine (orFail_grows location _).bind ?_
  intro more body _ _
  split
  · exact GrowsOk.pure (by simp)
  · split
    · exact GrowsOk.pure (by simp)
    · refine (Grows.lift (hfind more _ _ _)).bind ?_
      intro most type _ htype
      refine GrowsOk.pure ?_
      rintro _ ⟨⟩
      exact htype

theorem lowerHeaders_grows (hfind : ClosedFinder find) (id location : String)
    (headers : List (String × Site)) :
    Grows Fits known (lowerHeaders find id location headers) fun more lowered =>
      ∀ header ∈ lowered, ClosedType more header.type := by
  refine Grows.mapM (fun _ _ _ hle htype => ClosedType.mono hle htype) ?_
  rintro ⟨name, node⟩ _ more _
  refine (hfind more _ _ location).bind ?_
  intro most type _ htype
  exact Grows.pure htype

structure ClosedResponse (known : Inventory) (response : Response) : Prop where
  type : ∀ type ∈ response.type, ClosedType known type
  headers : ∀ header ∈ response.headers, ClosedType known header.type

theorem ClosedResponse.mono {more : Inventory} (hle : known ≤ more) {response : Response}
    (h : ClosedResponse known response) : ClosedResponse more response :=
  ⟨fun type htype => (h.type type htype).mono hle,
    fun header hheader => (h.headers header hheader).mono hle⟩

theorem bodyOf_grows (hfind : ClosedFinder find) (operation : OperationSite)
    (id location : String) {parameter : Option RequestBody}
    (hparameter : ∀ body ∈ parameter, ClosedType known body.type) :
    GrowsOk Fits known (bodyOf setting find operation id location parameter) fun more result =>
      ∀ body ∈ result, ClosedType more body.type := by
  cases parameter with
  | some body => exact GrowsOk.pure hparameter
  | none => exact lowerBody_grows hfind operation id location

theorem responseType_grows (hfind : ClosedFinder find) (response : ResponseSite)
    (hint location : String) :
    Grows Fits known (responseType find response hint location) fun more result =>
      ∀ type ∈ result, ClosedType more type := by
  unfold responseType
  split
  · exact Grows.pure (by simp)
  · refine (hfind known _ hint location).bind ?_
    intro more type _ htype
    refine Grows.pure ?_
    rintro _ ⟨⟩
    exact htype

theorem lowerResponse_grows (hfind : ClosedFinder find) (id location : String)
    (response : ResponseSite) :
    GrowsOk Fits known (lowerResponse setting find id location response) fun more result =>
      ∀ lowered ∈ result, ClosedResponse more lowered := by
  unfold lowerResponse
  dsimp only
  split
  · refine (Grows.lift (remark_grows _ _)).bind ?_
    intro more _ _ _
    exact GrowsOk.pure (by simp)
  · refine (Grows.lift (responseType_grows hfind response _ _)).bind ?_
    intro more type _ htype
    refine (orFail_grows _ _).bind ?_
    intro most sites hmost _
    refine (Grows.lift (lowerHeaders_grows hfind id _ sites)).bind ?_
    intro all headers hall hheaders
    refine GrowsOk.pure ?_
    rintro _ ⟨⟩
    exact ⟨fun inner hinner => (htype inner hinner).mono (le_trans hmost hall), hheaders⟩

/-- An operation within the inventory, whose route takes its types from the parameters. -/
structure ClosedOperation (known : Inventory) (operation : Operation) : Prop where
  types : ∀ type ∈ Api.operationTypes operation, ClosedType known type
  route : ∀ type ∈ operation.path.types,
    ∃ parameter ∈ operation.parameters, type = parameter.type.stripOptional

theorem ClosedOperation.mono {more : Inventory} (hle : known ≤ more) {operation : Operation}
    (h : ClosedOperation known operation) : ClosedOperation more operation :=
  ⟨fun type htype => (h.types type htype).mono hle, h.route⟩

theorem lowerOperation_grows (hfind : ClosedFinder find) (operation : OperationSite) :
    GrowsOk Fits known (lowerOperation setting find operation) ClosedOperation := by
  refine (Grows.lift (freshFunction_grows setting _ _)).bind ?_
  intro known id _ _
  refine (orFail_grows _ _).bind ?_
  intro known sites _ _
  refine (Grows.lift (lowerParameters_grows hfind id _ _ none sites (by simp))).bind ?_
  intro known lowered _ hlowered
  refine (lowerRoute_grows operation lowered.parameters).bind ?_
  intro afterRoute route hroute htypes
  have hparameter : ∀ body ∈ lowered.body, ClosedType afterRoute body.type :=
    fun body hbody => (hlowered.body body hbody).mono hroute
  refine (bodyOf_grows hfind operation id _ hparameter).bind ?_
  intro afterBody body hbodyLe hbody
  refine (orFail_grows _ _).bind ?_
  intro beforeResponses sites hsites _
  refine (GrowsOk.mapM ?_ fun response _ more _ =>
    lowerResponse_grows hfind id _ response).bind ?_
  · exact fun _ _ _ hle hresult lowered hmem => (hresult lowered hmem).mono hle
  · intro final responses hfinal hresponses
    refine GrowsOk.pure ⟨?_, htypes⟩
    intro type htype
    simp only [Api.operationTypes, List.mem_append, List.mem_map, List.mem_flatMap,
      Option.mem_toList, Option.map_eq_some_iff, List.mem_filterMap] at htype
    obtain (⟨parameter, hmem, rfl⟩ | ⟨lowered, hmem, rfl⟩) | ⟨response, ⟨_, hmem, rfl⟩, htype⟩ :=
      htype
    · exact (hlowered.parameters parameter hmem).mono
        (le_trans hroute (le_trans hbodyLe (le_trans hsites hfinal)))
    · exact (hbody lowered hmem).mono (le_trans hsites hfinal)
    · have hclosed := hresponses _ hmem response rfl
      obtain htype | ⟨header, hheader, rfl⟩ := htype
      · exact hclosed.type type htype
      · exact hclosed.headers header hheader

theorem lowerOperations_grows (hfind : ClosedFinder find) :
    GrowsOk Fits known (lowerOperations setting find) fun more operations =>
      ∀ operation ∈ operations, ClosedOperation more operation := by
  refine (GrowsOk.outcome _).bind ?_
  intro more operations _ _
  exact GrowsOk.mapM (fun _ _ _ hle h => ClosedOperation.mono hle h)
    fun operation _ most _ => lowerOperation_grows hfind operation

end Operations

/-! ## Whole interfaces -/

/-- An interface within the inventory of the state its models come from. -/
structure ClosedApi (known : Inventory) (state : State) (api : Api) : Prop where
  fits : Fits known state
  models : api.models = state.models
  operations : ∀ operation ∈ api.operations, ClosedOperation known operation

namespace ClosedApi

variable {known : Inventory} {state : State} {api : Api}

theorem types (h : ClosedApi known state api) {type : DataType} (htype : type ∈ api.types) :
    ClosedType known type := by
  obtain hmodel | hoperation := List.mem_append.1 htype
  · obtain ⟨model, hmem, htype⟩ := List.mem_flatMap.1 hmodel
    exact (h.fits.closed model (h.models ▸ hmem)).types htype
  · obtain ⟨operation, hmem, htype⟩ := List.mem_flatMap.1 hoperation
    exact (h.operations operation hmem).types type htype

/-- A type of a route mentions what the type of some parameter mentions. -/
theorem exists_types (h : ClosedApi known state api) {type : DataType}
    (htype : type ∈ api.allTypes) :
    ∃ source ∈ api.types, type.models = source.models ∧ type.enums = source.enums := by
  obtain htype | hroute := List.mem_append.1 htype
  · exact ⟨type, htype, rfl, rfl⟩
  · obtain ⟨operation, hmem, hroute⟩ := List.mem_flatMap.1 hroute
    obtain ⟨parameter, hparameter, rfl⟩ := (h.operations operation hmem).route type hroute
    have hsource : parameter.type ∈ Api.operationTypes operation := by
      simp only [Api.operationTypes, List.mem_append, List.mem_map]
      exact .inl (.inl ⟨parameter, hparameter, rfl⟩)
    exact ⟨parameter.type, List.mem_append_right _ (List.mem_flatMap.2 ⟨operation, hmem, hsource⟩),
      by simp, by simp⟩

theorem contains_of_mem (h : ClosedApi known state api) {name : String}
    (hname : name ∈ known.models) : api.models.contains name = true := by
  rw [h.models, ModelTable.contains_iff]
  exact h.fits.listed name hname

theorem refersToItself (h : ClosedApi known state api) : api.RefersToItself where
  types := by
    intro type htype name hname
    obtain ⟨source, hsource, hmodels, -⟩ := h.exists_types htype
    exact h.contains_of_mem ((h.types hsource).models name (hmodels ▸ hname))
  variants := by
    intro model hmodel variants hunion name hname
    have hshape := (h.fits.closed model (h.models ▸ hmodel)).shape
    rw [hunion] at hshape
    exact h.contains_of_mem (hshape name hname)
  targets := by
    intro model hmodel discriminator hd entry hentry
    have htargets := (h.fits.closed model (h.models ▸ hmodel)).targets
    exact h.contains_of_mem (htargets discriminator hd entry hentry)
  enums := by
    intro type htype entry hentry
    obtain ⟨source, hsource, -, henums⟩ := h.exists_types htype
    exact Api.mem_inlineEnums (fun own hown => (h.types hown).enums) h.fits.single hsource
      (henums ▸ hentry)
  once := Api.nodup_map_firstBy [] _
  apart := by
    intro inline hinline
    obtain ⟨type, htype, hentry⟩ := Api.mem_types_of_mem_inlineEnums hinline
    have hapart := h.fits.apart _ ((h.types htype).enums _ hentry)
    rw [← ModelTable.contains_iff, ← h.models] at hapart
    exact Bool.eq_false_iff.2 hapart

end ClosedApi

/-- Whatever finds the types of schemas within an inventory lowers a document so. -/
theorem lowerWith_closed (setting : Setting) {find : TypeFinder} (hfind : ClosedFinder find) :
    Contract True (· = State.initial) (lowerWith setting find).run fun outcome after =>
      ∀ api, outcome = .ok api → ∃ known, ClosedApi known after api := by
  have hdeclared := declareModels_grows setting .empty
  refine Contract.bindOutcome (Contract.lift (Contract.mono_pre hdeclared ?_)) ?_
  · rintro _ rfl
    exact fitsDeclared_initial
  · rintro ⟨⟩ middle ⟨declared, -, ⟨-, hmiddle⟩, -⟩
    refine Contract.bindOutcome (Contract.lift (lowerModels_grows hfind declared)) ?_ middle hmiddle
    rintro ⟨⟩ state ⟨known, -, hfits, -⟩
    refine (lowerOperations_grows hfind).finish ?_ state hfits
    intro more operations after hafter hoperations
    exact ⟨more, hafter, rfl, hoperations⟩

/-- An interface at the end of a run is within some inventory. -/
theorem exists_closedApi {setting : Setting} {api : Api} {notices : List Notice}
    (h : run setting = some ⟨.ok api, notices⟩) : ∃ known state, ClosedApi known state api := by
  obtain ⟨⟨outcome, after⟩, hrun, hresult⟩ := Option.map_eq_some_iff.1 h
  obtain rfl : outcome = .ok api := congrArg Result.outcome hresult
  have hclosed := lowerWith_closed setting (closedFinder_typeOf setting setting.depth)
  obtain ⟨known, hknown⟩ := hclosed.result rfl hrun api rfl
  exact ⟨known, after, hknown⟩

/-- When a document is lowered to an interface, everything the interface refers to is part of
it. -/
theorem refersToItself_of_run_eq_ok {setting : Setting} {api : Api} {notices : List Notice}
    (h : run setting = some ⟨.ok api, notices⟩) : api.RefersToItself := by
  obtain ⟨⟨outcome, after⟩, hrun, hresult⟩ := Option.map_eq_some_iff.1 h
  obtain rfl : outcome = .ok api := congrArg Result.outcome hresult
  have hclosed := lowerWith_closed setting (closedFinder_typeOf setting setting.depth)
  obtain ⟨known, hknown⟩ := hclosed.result rfl hrun api rfl
  exact hknown.refersToItself

/-- A union of itself and an enumeration, and a route with an enumeration. -/
theorem refersToItself_of_run_eq_ok_union :
    let tree : Json := .object [
      ("info", .object []),
      ("paths", .object [("/\x7bkind\x7d", .object [("get", .object [
        ("parameters", .array [.object [("name", .string "kind"), ("in", .string "path"),
          ("schema", .object [("enum", .array [.string "big"])])]])])])]),
      ("components", .object [("schemas", .object [("Pet", .object [
        ("oneOf", .array [.object [("$ref", .string "#/components/schemas/Pet")],
          .object [("enum", .array [.string "small"])]]),
        ("discriminator", .object [("propertyName", .string "size")])])])])]
    ∃ document api notices, Document.ofTree tree = .ok document ∧
      run ⟨document, Haskell.target⟩ = some ⟨.ok api, notices⟩ ∧ api.RefersToItself ∧
      api.models.names = ["Pet", "PetVariant22"] ∧
      api.inlineEnums = [⟨"PetVariant2", ["small"]⟩, ⟨"GetKindKind", ["big"]⟩] := by
  intro tree
  have hnames : ((Document.ofTree tree).toOption.bind fun document =>
      (run ⟨document, Haskell.target⟩).bind fun result =>
        result.outcome.toOption.map fun api => (api.models.names, api.inlineEnums)) =
      some (["Pet", "PetVariant22"], [⟨"PetVariant2", ["small"]⟩, ⟨"GetKindKind", ["big"]⟩]) := by
    decide +kernel
  obtain ⟨document, hdocument, hresult⟩ := Option.bind_eq_some_iff.1 hnames
  obtain ⟨⟨outcome, notices⟩, hrun, hapi⟩ := Option.bind_eq_some_iff.1 hresult
  obtain ⟨api, houtcome, hnames⟩ := Option.map_eq_some_iff.1 hapi
  obtain rfl : outcome = .ok api := Outcomes.toOption_eq_some_iff.1 houtcome
  obtain ⟨hmodels, henums⟩ := Prod.mk.inj hnames
  exact ⟨document, api, notices, Outcomes.toOption_eq_some_iff.1 hdocument, hrun,
    refersToItself_of_run_eq_ok hrun, hmodels, henums⟩

end Lowering

end ServantGen
