import ServantGen.Proofs.Ledger.Api
import ServantGen.Proofs.Lowering.Kinds
import ServantGen.Proofs.Lowering.Termination
import ServantGen.Proofs.Renaming.Schemas

/-!
# Interfaces for two targets

The order of an operation's steps, its route and the faults of a document do not depend on names.
They depend on what marks a placeholder, so the two targets share that. Lowering then fails with
the same error for both, goes on without end for both, or leaves interfaces that are alike.
-/

namespace ServantGen.Lowering

variable {document : Document} {target target' : Target} {known : Renamings}

/-! ## Parameters and routes -/

/-- Parameters that correspond, and bodies on both sides or on neither. -/
structure LoweredParameters.Alike (types names : Renaming)
    (lowered lowered' : LoweredParameters) : Prop where
  parameters : List.Forall₂ (Parameter.Alike types names) lowered.parameters lowered'.parameters
  body : Option.Rel (RequestBody.Alike types) lowered.body lowered'.body

section Steps

variable {recur recur' : TypeFinder} (hfind : FindTogether recur recur')
include hfind

theorem parameterType_together (parameter : Site) (hint hint' location : String) :
    Together Paired known (parameterType recur parameter hint location)
      (parameterType recur' parameter hint' location)
      fun more => DataType.Alike more.types := by
  unfold parameterType
  cases ParameterSite.schema? parameter with
  | some schema => exact hfind known schema hint hint' location
  | none => exact remarked_together _ _ _ _ fun _ _ => .primitive .any

theorem bodyParameter_together (operation operation' : String) (parameter : Site)
    (location : String) :
    Together Paired known (bodyParameter recur operation parameter location)
      (bodyParameter recur' operation' parameter location)
      fun more => RequestBody.Alike more.types :=
  (parameterType_together hfind parameter _ _ location).bind fun _ _ _ _ htype =>
    Together.pure ⟨htype, rfl, rfl, rfl⟩

theorem ownParameter_together (operation operation' : String) (place : Location) (parameter : Site)
    (location : String) {names : Renaming} {scope scope' : NameScope}
    (hheld : names.HeldIn scope scope') :
    Together Paired known
      (ownParameter ⟨document, target⟩ recur operation place parameter location scope)
      (ownParameter ⟨document, target'⟩ recur' operation' place parameter location scope')
      fun more result result' => ∃ own, names ≤ own ∧ own.HeldIn result.2 result'.2 ∧
        result.1.Alike more.types own result'.1 := by
  obtain ⟨own, hle, hnext, hpair⟩ := hheld.claimFresh target.reserved target'.reserved
    (ParameterSite.name parameter) (ParameterSite.name parameter)
    (target.identifier .parameter (ParameterSite.name parameter))
    (target'.identifier .parameter (ParameterSite.name parameter))
  refine (noted_together _ _ hpair).bind fun more name name' _ hname => ?_
  refine (parameterType_together hfind parameter _ _ location).bind ?_
  intro most type type' _ htype
  refine Together.pure ⟨own, hle, hnext, ?_⟩
  exact {
    name := hname
    rawName := rfl
    location := rfl
    required := rfl
    type := htype.ite_orNone _
    default := rfl
    description := rfl }

theorem lowerParameters_together (operation operation' location : String) {names : Renaming}
    {scope scope' : NameScope} (hheld : names.HeldIn scope scope') {body body' : Option RequestBody}
    (hbody : Option.Rel (RequestBody.Alike known.types) body body') (sites : List Site) :
    Together Paired known
      (lowerParameters ⟨document, target⟩ recur operation location scope body sites)
      (lowerParameters ⟨document, target'⟩ recur' operation' location scope' body' sites)
      fun more lowered lowered' => ∃ own, names ≤ own ∧
        lowered.Alike more.types own lowered' := by
  induction sites generalizing known names scope scope' body body' with
  | nil => exact Together.pure ⟨names, le_rfl, .nil, hbody⟩
  | cons parameter rest ih =>
    rw [lowerParameters_cons, lowerParameters_cons]
    cases parameterKind parameter with
    | unknown =>
      refine (remark_together _ _ _ _).bind fun more _ _ hle _ => ?_
      exact ih hheld (hbody.imp fun _ _ h => h.mono hle.1)
    | body =>
      cases hbody with
      | some h =>
        refine (remark_together _ _ _ _).bind fun more _ _ hle _ => ?_
        exact ih hheld (.some (h.mono hle.1))
      | none =>
        refine (bodyParameter_together hfind operation operation' parameter _).bind ?_
        intro more body body' _ hbody
        exact ih hheld (.some hbody)
    | own place =>
      refine (ownParameter_together hfind operation operation' place parameter _ hheld).bind ?_
      rintro more ⟨lowered, scope⟩ ⟨lowered', scope'⟩ hle ⟨own, hnames, hnext, hlowered⟩
      refine (ih hnext (hbody.imp fun _ _ h => h.mono hle.1)).bind ?_
      rintro most others others' hmost ⟨last, hlast, hothers⟩
      exact Together.pure ⟨last, le_trans hnames hlast,
        .cons (hlowered.mono hmost.1 hlast) hothers.parameters, hothers.body⟩

end Steps

/-- Only the raw name and the location of a parameter decide whether a placeholder is its own. -/
theorem find?_parameters_alike {types names : Renaming} {parameters parameters' : List Parameter}
    (h : List.Forall₂ (Parameter.Alike types names) parameters parameters') (name : String) :
    Option.Rel (Parameter.Alike types names)
      (parameters.find? fun p => p.location == .path && p.rawName == name)
      (parameters'.find? fun p => p.location == .path && p.rawName == name) := by
  induction h with
  | nil => exact .none
  | cons hfirst _ ih =>
    rw [List.find?_cons, List.find?_cons, hfirst.location, hfirst.rawName]
    split
    · exact .some hfirst
    · exact ih

theorem segmentOf_alike (hdelimiter : target'.delimiter = target.delimiter)
    (operation : OperationSite) {types names : Renaming} {parameters parameters' : List Parameter}
    (h : List.Forall₂ (Parameter.Alike types names) parameters parameters') {component : String}
    {segment segment' : Segment}
    (hsegment : segmentOf ⟨document, target⟩ operation parameters component = .ok segment)
    (hsegment' : segmentOf ⟨document, target'⟩ operation parameters' component = .ok segment') :
    segment.Alike types segment' := by
  unfold segmentOf at hsegment hsegment'
  dsimp only at hsegment hsegment'
  rw [hdelimiter] at hsegment'
  cases hname : target.delimiter.placeholder? component with
  | none =>
    rw [hname] at hsegment hsegment'
    obtain rfl := Except.ok.inj hsegment
    obtain rfl := Except.ok.inj hsegment'
    exact .literal component
  | some name =>
    rw [hname] at hsegment hsegment'
    dsimp only at hsegment hsegment'
    have hfound := find?_parameters_alike h name
    generalize parameters.find? (fun p => p.location == .path && p.rawName == name) = found
      at hfound hsegment
    generalize parameters'.find? (fun p => p.location == .path && p.rawName == name) = found'
      at hfound hsegment'
    cases hfound with
    | none => exact nomatch hsegment
    | some hparameter =>
      obtain rfl := Except.ok.inj hsegment
      obtain rfl := Except.ok.inj hsegment'
      exact .parameter name hparameter.type.stripOptional

theorem lowerRoute_together (hdelimiter : target'.delimiter = target.delimiter)
    (operation : OperationSite) {names : Renaming} {parameters parameters' : List Parameter}
    (h : List.Forall₂ (Parameter.Alike known.types names) parameters parameters') :
    TogetherOk Paired known (lowerRoute ⟨document, target⟩ operation parameters)
      (lowerRoute ⟨document, target'⟩ operation parameters')
      fun more route route' => List.Forall₂ (Segment.Alike more.types) route.segments
        route'.segments := by
  intro state state' hpaired route after route' after' hrun hrun'
  rw [lowerRoute_run] at hrun hrun'
  cases hmapped : (Text.splitOn '/' operation.path).mapM
      (segmentOf ⟨document, target⟩ operation parameters) with
  | error error => simp [hmapped] at hrun
  | ok segments =>
    cases hmapped' : (Text.splitOn '/' operation.path).mapM
        (segmentOf ⟨document, target'⟩ operation parameters') with
    | error error => simp [hmapped'] at hrun'
    | ok segments' =>
      rw [hmapped] at hrun
      rw [hmapped'] at hrun'
      obtain ⟨hroute, rfl⟩ := Prod.mk.inj (Option.some.inj hrun)
      obtain ⟨hroute', rfl⟩ := Prod.mk.inj (Option.some.inj hrun')
      obtain rfl := Except.ok.inj hroute
      obtain rfl := Except.ok.inj hroute'
      have hsegments := Outcomes.forall₂_of_mapM_eq_ok₂
        (fun _ _ _ _ => segmentOf_alike hdelimiter operation h) hmapped hmapped'
      exact ⟨known, le_rfl, ⟨hpaired.types, hpaired.functions, hpaired.models,
        hpaired.schemaNames, hpaired.inlineDepth⟩, Segment.Alike.ofSegments hsegments⟩

/-! ## Bodies, responses and operations -/

section Operations

variable {recur recur' : TypeFinder} (hfind : FindTogether recur recur')
include hfind

theorem bodyOf_together (operation : OperationSite) (id id' location : String)
    {body body' : Option RequestBody} (h : Option.Rel (RequestBody.Alike known.types) body body') :
    TogetherOk Paired known (bodyOf ⟨document, target⟩ recur operation id location body)
      (bodyOf ⟨document, target'⟩ recur' operation id' location body')
      fun more => Option.Rel (RequestBody.Alike more.types) := by
  cases h with
  | some h => exact TogetherOk.pure (.some h)
  | none =>
    refine TogetherOk.read fun body => ?_
    cases body with
    | none => exact TogetherOk.pure .none
    | some body =>
      dsimp only
      cases body.schema with
      | none => exact TogetherOk.pure .none
      | some schema =>
        refine (hfind known schema _ _ _).lift.bind fun more type type' _ htype => ?_
        exact TogetherOk.pure (.some ⟨htype, rfl, rfl, rfl⟩)

theorem responseType_together (response : ResponseSite) (hint hint' location : String) :
    Together Paired known (responseType recur response hint location)
      (responseType recur' response hint' location)
      fun more => Option.Rel (DataType.Alike more.types) := by
  unfold responseType
  cases response.schema? with
  | none => exact Together.pure .none
  | some schema =>
    exact (hfind known schema hint hint' location).bind fun _ _ _ _ htype =>
      Together.pure (.some htype)

theorem lowerHeaders_together (id id' location : String) (headers : List (String × Site)) :
    Together Paired known (lowerHeaders recur id location headers)
      (lowerHeaders recur' id' location headers)
      fun more => List.Forall₂ (ResponseHeader.Alike more.types) := by
  refine Together.mapM (fun _ _ _ _ hle h => h.mono hle.1) ?_
  rintro ⟨name, node⟩ - more -
  exact (hfind more _ _ _ location).bind fun _ _ _ _ htype => Together.pure ⟨rfl, htype, rfl⟩

theorem lowerResponse_together (id id' location : String) (response : ResponseSite) :
    TogetherOk Paired known (lowerResponse ⟨document, target⟩ recur id location response)
      (lowerResponse ⟨document, target'⟩ recur' id' location response)
      fun more => Option.Rel (Response.Alike more.types) := by
  unfold lowerResponse
  dsimp only
  cases Status.ofKey? response.status with
  | none =>
    refine (remark_together _ _ _ _).lift.bind fun more _ _ _ _ => ?_
    exact TogetherOk.pure .none
  | some status =>
    refine (responseType_together hfind response _ _ _).lift.bind ?_
    intro more type type' _ htype
    refine TogetherOk.read fun sites => ?_
    refine (lowerHeaders_together hfind id id' _ sites).lift.bind ?_
    intro most headers headers' hle hheaders
    exact TogetherOk.pure (.some ⟨rfl, rfl, htype.imp fun _ _ h => h.mono hle.1, hheaders⟩)

/-- An operation for two targets that mark placeholders alike. -/
theorem lowerOperation_together (hdelimiter : target'.delimiter = target.delimiter)
    (operation : OperationSite) :
    TogetherOk Paired known (lowerOperation ⟨document, target⟩ recur operation)
      (lowerOperation ⟨document, target'⟩ recur' operation)
      fun more => Operation.Alike more.types more.functions := by
  have hid : synthesizedId ⟨document, target'⟩ operation =
      synthesizedId ⟨document, target⟩ operation := by
    unfold synthesizedId
    rw [hdelimiter]
  unfold lowerOperation
  dsimp only
  rw [hid]
  refine (freshFunction_together _ _ _ _).lift.bind fun named id id' _ hname => ?_
  refine TogetherOk.read fun sites => ?_
  refine (lowerParameters_together hfind id id' _ (Renaming.heldIn_empty _ _) .none sites).lift.bind
    ?_
  rintro given lowered lowered' hgiven ⟨own, -, hlowered⟩
  refine (lowerRoute_together hdelimiter operation hlowered.parameters).bind ?_
  intro routed route route' hrouted hroute
  refine (bodyOf_together hfind operation id id' _
    (hlowered.body.imp fun _ _ h => h.mono hrouted.1)).bind ?_
  intro carried body body' hcarried hbody
  refine TogetherOk.read fun responses => ?_
  refine (TogetherOk.mapM (fun _ _ _ _ hle h => h.imp fun _ _ h => h.mono hle.1)
    fun response _ more _ => lowerResponse_together hfind id id' _ response).bind ?_
  intro last responses responses' hlast hresponses
  have hparameters := le_trans hrouted (le_trans hcarried hlast)
  refine TogetherOk.pure ?_
  exact {
    id := (le_trans hgiven hparameters).2 _ _ hname
    rawId := rfl
    method := rfl
    rawPath := rfl
    path := hroute.imp fun _ _ h => h.mono (le_trans hcarried hlast).1
    parameters := ⟨own, hlowered.parameters.imp fun _ _ h => h.mono hparameters.1 le_rfl⟩
    requestBody := hbody.imp fun _ _ h => h.mono hlast.1
    responses := List.rel_filterMap (fun _ _ h => h) hresponses
    tags := rfl
    summary := rfl
    description := rfl
    deprecated := rfl }

theorem mapM_lowerOperation_together (hdelimiter : target'.delimiter = target.delimiter)
    (sites : List OperationSite) :
    TogetherOk Paired known (sites.mapM (lowerOperation ⟨document, target⟩ recur))
      (sites.mapM (lowerOperation ⟨document, target'⟩ recur'))
      fun more => List.Forall₂ (Operation.Alike more.types more.functions) :=
  TogetherOk.mapM (fun _ _ _ _ hle h => h.mono hle.1 hle.2) fun site _ _ _ =>
    lowerOperation_together hfind hdelimiter site

end Operations

/-! ## Whole runs -/

theorem declareModels_together :
    Together PairedFirst known (declareModels ⟨document, target⟩)
      (declareModels ⟨document, target'⟩) fun _ _ _ => True :=
  Together.forM fun schema _ _ _ => declareModel_together schema.1

theorem lowerModels_together {recur recur' : TypeFinder} (hfind : FindTogether recur recur') :
    Together Paired known (lowerModels ⟨document, target⟩ recur)
      (lowerModels ⟨document, target'⟩ recur') fun _ _ _ => True :=
  Together.forM fun schema _ _ _ => lowerModel_together hfind schema.1 schema.2

/-- Interfaces that both targets receive are alike, the raw names of models apart. -/
theorem lowerWith_together {recur recur' : TypeFinder} (hfind : FindTogether recur recur')
    (hdelimiter : target'.delimiter = target.delimiter) {api api' : Api} {final final' : State}
    (hrun : (lowerWith ⟨document, target⟩ recur).run.run .initial = some (.ok api, final))
    (hrun' : (lowerWith ⟨document, target'⟩ recur').run.run .initial = some (.ok api', final')) :
    ∃ known : Renamings, api'.info = api.info ∧
      List.Forall₂ (Model.Alike known.types) api.models.models api'.models.models ∧
      List.Forall₂ (Operation.Alike known.types known.functions) api.operations
        api'.operations := by
  obtain ⟨sites, placed, filled, hstages⟩ := exists_stages hrun
  obtain ⟨sites', placed', filled', hstages'⟩ := exists_stages hrun'
  obtain rfl : sites = sites' := Except.ok.inj (hstages.read.symm.trans hstages'.read)
  obtain ⟨declared, -, hplaced, -⟩ := declareModels_together _ _ pairedFirst_initial _ _
    hstages.declare hstages'.declare
  obtain ⟨lowered, -, hfilled, -⟩ := lowerModels_together hfind _ _ hplaced.toPaired _ _
    hstages.lower hstages'.lower
  obtain ⟨known, -, hfinal, hoperations⟩ := mapM_lowerOperation_together hfind hdelimiter sites _ _
    hfilled _ _ _ _ hstages.operations hstages'.operations
  refine ⟨known, hstages'.info.trans hstages.info.symm, ?_, hoperations⟩
  rw [hstages.models, hstages'.models]
  exact hfinal.models

/-- The first models of an interface are those of the named schemas. -/
theorem rawNames_of_run_eq_ok {setting : Setting} {api : Api} {notices : List Notice}
    (h : run setting = some ⟨.ok api, notices⟩)
    (hkeys : setting.document.tree.hasDistinctKeys = true) :
    (api.models.models.take setting.document.schemas.length).map Model.rawName =
      setting.document.schemas.map Prod.fst := by
  obtain ⟨final, -, -, declared, added, claimed, haccount⟩ := account_of_run_eq_ok h hkeys
  rw [haccount.models, haccount.lowered.length_eq, List.take_left, ← List.forall₂_eq_eq_eq,
    List.forall₂_map_left_iff, List.forall₂_map_right_iff]
  exact (haccount.lowered.imp fun _ _ h => h.rawName).flip

/-- Faults do not depend on names. -/
theorem documentAgenda_eq (hdelimiter : target'.delimiter = target.delimiter) :
    documentAgenda ⟨document, target'⟩ = documentAgenda ⟨document, target⟩ := by
  have hoperation : operationAgenda ⟨document, target'⟩ = operationAgenda ⟨document, target⟩ := by
    funext operation
    unfold operationAgenda routeFaults
    rw [hdelimiter]
    rfl
  unfold documentAgenda operationsAgenda
  rw [hoperation]

/-- The error of a run is the first fault of the agenda. -/
theorem error?_of_run_eq_some {setting : Setting} {result : Result}
    (h : run setting = some result) :
    Outcomes.error? result.outcome = (documentAgenda setting).fault? := by
  obtain ⟨⟨outcome, final⟩, hrun, rfl⟩ := Option.map_eq_some_iff.1 h
  exact ((lowerWith_follows (answers_typeOf setting setting.depth)).result rfl hrun).2

theorem isSome_run_eq (hdelimiter : target'.delimiter = target.delimiter) :
    (run ⟨document, target'⟩).isSome = (run ⟨document, target⟩).isSome := by
  rw [Bool.eq_iff_iff, run, run, Option.isSome_map, Option.isSome_map, lowerApi, lowerApi,
    isSome_lowerWith_iff, isSome_lowerWith_iff, documentAgenda_eq hdelimiter]
  rfl

/-- What two runs on a document have in common: both go on without end, both fail with one error,
or both leave interfaces that differ in names only. -/
inductive RunsAlike (declared : Nat) : Option Result → Option Result → Prop
  | endless : RunsAlike declared none none
  | failed (error : BuildError) (notices notices' : List Notice) :
    RunsAlike declared (some ⟨.error error, notices⟩) (some ⟨.error error, notices'⟩)
  | lowered {api api' : Api} (notices notices' : List Notice) (types functions : Renaming)
    (h : api.Alike declared types functions api') :
    RunsAlike declared (some ⟨.ok api, notices⟩) (some ⟨.ok api', notices'⟩)

/-- Names never change the structure of an interface: for any two targets that mark placeholders
alike, whatever their casings and words are, a document is lowered to interfaces that differ in
names only, or to the same error, or to none. -/
theorem runs_alike (hkeys : document.tree.hasDistinctKeys = true)
    (hdelimiter : target'.delimiter = target.delimiter) :
    RunsAlike document.schemas.length (run ⟨document, target⟩) (run ⟨document, target'⟩) := by
  have hsome := @isSome_run_eq document _ _ hdelimiter
  cases hrun : run ⟨document, target⟩ with
  | none =>
    rw [hrun, Option.isSome_none, Option.isSome_eq_false_iff, Option.isNone_iff_eq_none] at hsome
    rw [hsome]
    exact .endless
  | some result =>
    rw [hrun, Option.isSome_some, Option.isSome_iff_exists] at hsome
    obtain ⟨result', hrun'⟩ := hsome
    have herror := (error?_of_run_eq_some hrun').trans
      ((congrArg Agenda.fault? (documentAgenda_eq hdelimiter)).trans
        (error?_of_run_eq_some hrun).symm)
    rw [hrun']
    obtain ⟨outcome, notices⟩ := result
    obtain ⟨outcome', notices'⟩ := result'
    cases outcome with
    | error error =>
      cases outcome' with
      | error error' =>
        obtain rfl : error' = error := Option.some.inj herror
        exact .failed error' notices notices'
      | ok api' => exact nomatch herror
    | ok api =>
      cases outcome' with
      | error error' => exact nomatch herror
      | ok api' =>
        obtain ⟨⟨_, final⟩, hlower, heq⟩ := Option.map_eq_some_iff.1 hrun
        obtain ⟨⟨_, final'⟩, hlower', heq'⟩ := Option.map_eq_some_iff.1 hrun'
        obtain ⟨rfl, -⟩ := Result.mk.inj heq
        obtain ⟨rfl, -⟩ := Result.mk.inj heq'
        obtain ⟨known, hinfo, hmodels, hoperations⟩ :=
          lowerWith_together (typeOf_together _) hdelimiter hlower hlower'
        refine .lowered notices notices' known.types known.functions ?_
        refine ⟨hinfo, hmodels, ?_, hoperations⟩
        exact (rawNames_of_run_eq_ok hrun' hkeys).trans (rawNames_of_run_eq_ok hrun hkeys).symm

/-- The second target has one name for all types and one for all values, and avoids one of the
numbered names. -/
theorem runs_alike_one_name :
    let home : Json := .object [("properties", .object [
      ("size", .object [("enum", .array [.string "s", .string "l"])])])]
    let tree : Json := .object [
      ("info", .object []),
      ("paths", .object [("/pets/\x7bid\x7d", .object [("get", .object [
        ("parameters", .array [
          .object [("name", .string "id"), ("in", .string "path"), ("schema",
            .object [("type", .string "string")])],
          .object [("name", .string "Id"), ("in", .string "query"), ("schema", home)]]),
        ("responses", .object [("200", .object [("content", .object [("application/json",
          .object [("schema", .object [("$ref", .string "#/components/schemas/Pet")])])])])])])])]),
      ("components", .object [("schemas", .object [
        ("Pet", .object [("oneOf", .array [.object [("type", .string "string")],
          .object [("$ref", .string "#/components/schemas/Home")]]),
          ("discriminator", .object [("propertyName", .string "kind")])]),
        ("Home", .object [("properties", .object [("a_b", home), ("aB", .object [])])])])])]
    let target := Haskell.target
    let target' : Target := { target with
      convention := { target.convention with typeCase := fun _ => "T", valueCase := fun _ => "v" }
      reservedWords := ["T3"] }
    ∃ document api api' notices notices', Document.ofTree tree = .ok document ∧
      document.tree.hasDistinctKeys = true ∧ target'.delimiter = target.delimiter ∧
      run ⟨document, target⟩ = some ⟨.ok api, notices⟩ ∧
      run ⟨document, target'⟩ = some ⟨.ok api', notices'⟩ ∧
      api.models.names = ["Pet", "Home", "PetVariant1", "HomeAB", "GetPetsIdId"] ∧
      api'.models.names = ["T", "T2", "T4", "T5", "T7"] ∧
      RunsAlike document.schemas.length (run ⟨document, target⟩) (run ⟨document, target'⟩) := by
  intro home tree target target'
  have hview : ((Document.ofTree tree).toOption.bind fun document =>
      (run ⟨document, target⟩).bind fun result => result.outcome.toOption.map
        fun api => api.models.names) =
      some ["Pet", "Home", "PetVariant1", "HomeAB", "GetPetsIdId"] := by
    decide +kernel
  have hview' : ((Document.ofTree tree).toOption.bind fun document =>
      (run ⟨document, target'⟩).bind fun result => result.outcome.toOption.map
        fun api => api.models.names) = some ["T", "T2", "T4", "T5", "T7"] := by
    decide +kernel
  have hkeys : tree.hasDistinctKeys = true := by decide +kernel
  obtain ⟨document, api, notices, hdocument, hrun, hnames⟩ := exists_run_of_view hview
  obtain ⟨other, api', notices', hother, hrun', hnames'⟩ := exists_run_of_view hview'
  obtain rfl : document = other := Except.ok.inj (hdocument.symm.trans hother)
  have htree : document.tree = tree := congrArg Document.tree (Document.eq_of_ofTree hdocument)
  have hdistinct : document.tree.hasDistinctKeys = true := htree ▸ hkeys
  exact ⟨document, api, api', notices, notices', hdocument, hdistinct, rfl, hrun, hrun', hnames,
    hnames', runs_alike hdistinct rfl⟩

end ServantGen.Lowering
