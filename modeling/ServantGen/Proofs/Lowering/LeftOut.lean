import ServantGen.Haskell.Lexical
import ServantGen.Proofs.Building
import ServantGen.Proofs.Lowering.Kinds
import ServantGen.Proofs.Lowering.Thorough
import ServantGen.Proofs.Lowering.TwoRuns
import ServantGen.Proofs.Route.Fidelity

/-!
# What is left out of operations is told

Every parameter of an operation either becomes a parameter of the lowered operation, or it is the
body, or it is left out and a warning says so; every response is either lowered or left out with a
warning. The warnings that tell of something left out come in the order of the document, one for
each part, and there are no others.
-/

namespace ServantGen.Lowering

/-! ## What is told -/

/-- The location of a parameter that travels by itself. -/
def ownLocation? : String → Option Location
  | "path" => some .path
  | "query" => some .query
  | "header" => some .header
  | "cookie" => some .cookie
  | _ => none

/-- Whether a parameter travels in the body, as such or as a field of a form. -/
def travelsInBody (parameter : Site) : Bool :=
  ParameterSite.location parameter == "body" || ParameterSite.location parameter == "formData"

/-- The name and the location of a parameter that travels by itself. -/
def ownPlace? (parameter : Site) : Option (String × Location) :=
  (ownLocation? (ParameterSite.location parameter)).map fun place =>
    (ParameterSite.name parameter, place)

/-- A warning on a part of the document that is left out. -/
def leftOut (message location : String) : Diagnostic :=
  ⟨.warning, .unsupportedSchema, phaseName, message, some location⟩

def parameterLocation (location : String) (parameter : Site) : String :=
  location ++ ".parameters." ++ ParameterSite.name parameter

def responseLocation (location : String) (response : ResponseSite) : String :=
  location ++ ".responses." ++ response.status

/-- The warning on a parameter, given the ones before it: its location is unknown, or it travels in
the body and is not the first that does. -/
def parameterWarning? (location : String) (before : List Site) (parameter : Site) :
    Option Diagnostic :=
  let name := ParameterSite.name parameter
  if travelsInBody parameter then
    if before.any travelsInBody then
      some (leftOut ("additional body parameter '" ++ name ++ "' skipped")
        (parameterLocation location parameter))
    else none
  else if (ownPlace? parameter).isSome then none
  else
    some (leftOut ("parameter '" ++ name ++ "' has unsupported location '" ++
      ParameterSite.location parameter ++ "'; skipped") (parameterLocation location parameter))

def parameterWarnings (location : String) (before : List Site) : List Site → List Diagnostic
  | [] => []
  | parameter :: rest =>
    (parameterWarning? location before parameter).toList ++
      parameterWarnings location (before ++ [parameter]) rest

def hasStatus (response : ResponseSite) : Bool :=
  (Status.ofKey? response.status).isSome

def responseWarnings (location : String) (responses : List ResponseSite) : List Diagnostic :=
  (responses.filter fun response => !hasStatus response).map fun response =>
    leftOut ("invalid response status '" ++ response.status ++ "'; skipped")
      (responseLocation location response)

def operationWarnings (document : Document) (site : OperationSite) : List Diagnostic :=
  parameterWarnings (operationLocation site) [] ((site.parameters document).toOption.getD []) ++
    responseWarnings (operationLocation site) ((site.responses document).toOption.getD [])

/-! ## Parameters -/

section Parameters

variable {setting : Setting} {find : TypeFinder}

/-- A location is one of the body, or that of a parameter that travels by itself, or none. -/
theorem ofName?_location (parameter : Site) :
    Location.ofName? (ParameterSite.location parameter) =
      if travelsInBody parameter then some .body
      else ownLocation? (ParameterSite.location parameter) := by
  unfold travelsInBody
  generalize ParameterSite.location parameter = text
  unfold Location.ofName?
  split <;> simp_all [ownLocation?]

theorem ownPlace?_eq_none {parameter : Site} (h : travelsInBody parameter = true) :
    ownPlace? parameter = none := by
  obtain hbody | hform : ParameterSite.location parameter = "body" ∨
      ParameterSite.location parameter = "formData" := by simpa [travelsInBody] using h
  · rw [ownPlace?, hbody]
    rfl
  · rw [ownPlace?, hform]
    rfl

theorem ownLocation?_ne_body (text : String) : ownLocation? text ≠ some .body := by
  unfold ownLocation?
  split <;> simp

theorem travelsInBody_of_ofName? {parameter : Site}
    (h : Location.ofName? (ParameterSite.location parameter) = some .body) :
    travelsInBody parameter = true := by
  by_contra hbody
  rw [ofName?_location, if_neg hbody] at h
  exact ownLocation?_ne_body _ h

/-- What travels by itself, and what has no known location, does not travel in the body. -/
theorem ownLocation?_of_ofName? {parameter : Site} {place : Option Location}
    (h : Location.ofName? (ParameterSite.location parameter) = place) (hne : place ≠ some .body) :
    travelsInBody parameter = false ∧ ownLocation? (ParameterSite.location parameter) = place := by
  rw [ofName?_location] at h
  split at h
  · exact absurd h.symm hne
  · rename_i hbody
    exact ⟨Bool.eq_false_iff.2 hbody, h⟩

theorem parameterType_thorough (hfind : ThoroughFinder find) (parameter : Site)
    (hint location : String) : Thorough (parameterType find parameter hint location) := by
  unfold parameterType
  split
  · exact hfind _ hint location
  · exact (Thorough.remark rfl location).bind fun _ => Omits.pure rfl

theorem bodyParameter_thorough (hfind : ThoroughFinder find) (operation : String)
    (parameter : Site) (location : String) :
    Thorough (bodyParameter find operation parameter location) :=
  (parameterType_thorough hfind parameter _ location).bind fun _ => Omits.pure rfl

theorem ownParameter_thorough (hfind : ThoroughFinder find) (operation : String)
    (place : Location) (parameter : Site) (location : String) (scope : NameScope) :
    Thorough (ownParameter setting find operation place parameter location scope) := by
  refine (Thorough.noted _ _).bind fun name => ?_
  exact (parameterType_thorough hfind parameter _ location).bind fun type => Omits.pure rfl

/-- A body is described by a parameter: it has the type that is found for the schema of the
parameter, any if there is none, and travels as JSON whatever the parameter says. -/
structure DescribedBy (find : TypeFinder) (operation location : String) (parameter : Site)
    (body : RequestBody) : Prop where
  type : ∀ schema, ParameterSite.schema? parameter = some schema →
    ∃ before after, (find schema (operation ++ " request")
      (parameterLocation location parameter)).run before = some (body.type, after)
  any : ParameterSite.schema? parameter = none → body.type = .any
  required : body.required = ParameterSite.required parameter
  contentType : body.contentType = jsonMediaType
  description : body.description = ParameterSite.description? parameter

structure MadeFromParameter (find : TypeFinder) (operation location : String) (parameter : Site)
    (body : RequestBody) : Prop extends DescribedBy find operation location parameter body where
  made : ∃ before after, (bodyParameter find operation parameter
    (parameterLocation location parameter)).run before = some (body, after)

theorem parameterType_returns (parameter : Site) (hint location : String) :
    Returns (parameterType find parameter hint location) fun type =>
      (∀ schema, ParameterSite.schema? parameter = some schema →
        ∃ before after, (find schema hint location).run before = some (type, after)) ∧
      (ParameterSite.schema? parameter = none → type = .any) := by
  unfold parameterType
  cases ParameterSite.schema? parameter with
  | none => exact (Returns.any _).bind fun _ _ => Returns.pure ⟨by simp, fun _ => rfl⟩
  | some schema =>
    refine (Returns.traced (find schema hint location)).mono_post fun type _ hrun => ⟨?_, by simp⟩
    rintro _ ⟨⟩
    exact hrun

theorem bodyParameter_made (operation location : String) (parameter : Site) :
    Returns (bodyParameter find operation parameter (parameterLocation location parameter))
      (MadeFromParameter find operation location parameter) := by
  have hbody : Returns (bodyParameter find operation parameter
      (parameterLocation location parameter)) (DescribedBy find operation location parameter) :=
    (parameterType_returns parameter _ _).bind fun _ htype =>
      Returns.pure ⟨htype.1, htype.2, rfl, rfl, rfl⟩
  exact hbody.and_traced.mono_post fun _ _ hmade => ⟨hmade.1, hmade.2⟩

/-- What becomes of parameters, given the ones before them and the body that one of these is. -/
structure Distributes (find : TypeFinder) (operation location : String)
    (body : Option RequestBody) (before rest : List Site) (told : List Diagnostic)
    (lowered : LoweredParameters) : Prop where
  told : told = parameterWarnings location before rest
  own : lowered.parameters.map (fun parameter => (parameter.rawName, parameter.location)) =
    rest.filterMap ownPlace?
  held : ∀ own, body = some own → lowered.body = some own
  made : body = none → ∀ first, rest.find? travelsInBody = some first →
    ∃ own, lowered.body = some own ∧ MadeFromParameter find operation location first own

namespace Distributes

variable {operation location : String} {body : Option RequestBody} {before rest : List Site}
variable {parameter : Site} {told : List Diagnostic} {lowered : LoweredParameters}

theorem nil : Distributes find operation location body before [] [] ⟨[], body⟩ where
  told := rfl
  own := rfl
  held _ h := h
  made _ _ h := by simp at h

/-- A parameter with an unknown location is left out. -/
theorem unknown (hbody : travelsInBody parameter = false)
    (hplace : ownLocation? (ParameterSite.location parameter) = none)
    (h : Distributes find operation location body (before ++ [parameter]) rest told lowered) :
    Distributes find operation location body before (parameter :: rest)
      ((⟨.unknownLocation (ParameterSite.name parameter) (ParameterSite.location parameter),
        parameterLocation location parameter⟩ : Notice).toDiagnostic :: told) lowered where
  told := by
    rw [parameterWarnings, ← h.told]
    simp only [parameterWarning?, hbody, ownPlace?, hplace]
    rfl
  own := by rw [List.filterMap_cons_none (by simp [ownPlace?, hplace]), h.own]
  held := h.held
  made hnone first hfirst := h.made hnone first (by simpa [hbody] using hfirst)

/-- A further parameter that travels in the body is left out. -/
theorem extra {held : RequestBody} (hbody : travelsInBody parameter = true)
    (hbefore : before.any travelsInBody = true)
    (h : Distributes find operation location (some held) (before ++ [parameter]) rest told
      lowered) :
    Distributes find operation location (some held) before (parameter :: rest)
      ((⟨.extraBody (ParameterSite.name parameter), parameterLocation location parameter⟩ :
        Notice).toDiagnostic :: told) lowered where
  told := by
    rw [parameterWarnings, ← h.told]
    simp only [parameterWarning?, hbody, hbefore]
    rfl
  own := by rw [List.filterMap_cons_none (ownPlace?_eq_none hbody), h.own]
  held := h.held
  made hnone := by simp at hnone

/-- The first parameter that travels in the body is the body. -/
theorem first {made : RequestBody} (hbody : travelsInBody parameter = true)
    (hbefore : before.any travelsInBody = false)
    (hmade : MadeFromParameter find operation location parameter made)
    (h : Distributes find operation location (some made) (before ++ [parameter]) rest told
      lowered) :
    Distributes find operation location none before (parameter :: rest) told lowered where
  told := by
    rw [parameterWarnings, ← h.told]
    simp [parameterWarning?, hbody, hbefore]
  own := by rw [List.filterMap_cons_none (ownPlace?_eq_none hbody), h.own]
  held := by simp
  made := by
    intro _ first hfirst
    obtain rfl : parameter = first := by simpa [hbody] using hfirst
    exact ⟨made, h.held made rfl, hmade⟩

/-- A parameter that travels by itself comes first. -/
theorem cons {own : Parameter} (hbody : travelsInBody parameter = false)
    (hplace : ownLocation? (ParameterSite.location parameter) = some own.location)
    (hname : own.rawName = ParameterSite.name parameter)
    (h : Distributes find operation location body (before ++ [parameter]) rest told lowered) :
    Distributes find operation location body before (parameter :: rest) told
      { lowered with parameters := own :: lowered.parameters } where
  told := by
    rw [parameterWarnings, ← h.told]
    simp [parameterWarning?, hbody, ownPlace?, hplace]
  own := by
    have hentry : ownPlace? parameter = some (own.rawName, own.location) := by
      simp [ownPlace?, hplace, hname]
    rw [List.filterMap_cons_some hentry, List.map_cons, h.own]
  held := h.held
  made hnone first hfirst := h.made hnone first (by simpa [hbody] using hfirst)

end Distributes

theorem lowerParameters_omits (hfind : ThoroughFinder find) (operation location : String)
    (scope : NameScope) {body : Option RequestBody} {before : List Site} (rest : List Site)
    (hbefore : body.isSome = before.any travelsInBody) :
    Omits (lowerParameters setting find operation location scope body rest)
      (Distributes find operation location body before rest) := by
  -- Whether there is a body so far is whether one of the parameters before travels in the body.
  induction rest generalizing scope body before with
  | nil => exact Omits.pure .nil
  | cons parameter rest ih =>
    rw [lowerParameters_cons]
    cases parameterKind parameter with
    | unknown hplace =>
      obtain ⟨hbody, hown⟩ := ownLocation?_of_ofName? hplace (by simp)
      have hmore : body.isSome = (before ++ [parameter]).any travelsInBody := by
        simp [hbefore, hbody]
      refine (Omits.remark rfl _).bind ?_
      rintro _ _ rfl
      exact (ih scope hmore).mono fun told lowered h => h.unknown hbody hown
    | body hplace =>
      have hbody := travelsInBody_of_ofName? hplace
      cases body with
      | some held =>
        refine (Omits.remark rfl _).bind ?_
        rintro _ _ rfl
        have hany : before.any travelsInBody = true := hbefore.symm
        have hmore : (some held).isSome = (before ++ [parameter]).any travelsInBody := by
          simp [hbody]
        exact (ih scope hmore).mono fun told lowered h => h.extra hbody hany
      | none =>
        have hany : before.any travelsInBody = false := hbefore.symm
        have hmade := (bodyParameter_thorough hfind operation parameter
          (parameterLocation location parameter)).and_returns (bodyParameter_made _ _ _)
        refine hmade.bind ?_
        rintro _ made ⟨rfl, hmade⟩
        have hmore : (some made).isSome = (before ++ [parameter]).any travelsInBody := by
          simp [hbody]
        exact (ih scope hmore).mono fun told lowered h => h.first hbody hany hmade
    | own place hplace hne =>
      obtain ⟨hbody, hown⟩ := ownLocation?_of_ofName? hplace (by simpa using hne)
      have hmore : body.isSome = (before ++ [parameter]).any travelsInBody := by
        simp [hbefore, hbody]
      have hlowered := (@ownParameter_thorough setting find hfind operation place parameter
        (parameterLocation location parameter) scope).and_returns
          (ownParameter_returns operation place parameter _ scope)
      refine hlowered.bind ?_
      rintro _ ⟨lowered, scope⟩ ⟨rfl, hlocation, hname⟩
      refine (ih scope hmore).bind fun told others h => Omits.pure ?_
      rw [List.append_nil]
      exact h.cons hbody (hown.trans (congrArg some hlocation.symm)) hname

end Parameters

/-! ## Bodies and responses -/

section Responses

variable {setting : Setting} {find : TypeFinder}

theorem lowerRoute_omits (operation : OperationSite) (parameters : List Parameter) :
    OmitsOk (lowerRoute setting operation parameters) fun new _ => new = [] := by
  intro told state hstate
  rw [lowerRoute_run]
  cases (Text.splitOn '/' operation.path).mapM (segmentOf setting operation parameters) with
  | error error => exact ⟨[], by rwa [List.append_nil], by simp⟩
  | ok segments =>
    have hmixed : omissions (mixedNotices setting operation) = [] := by
      rw [omissions, List.filter_eq_nil_iff.2, List.map_nil]
      intro notice hnotice
      obtain ⟨component, -, rfl⟩ := List.mem_map.1 hnotice
      exact Bool.false_ne_true
    refine ⟨[], ?_, fun _ _ => rfl⟩
    rw [HasTold, omissions_append, hmixed, hstate]

/-- A parameter that is the body stays the body. -/
theorem bodyOf_omits (hfind : ThoroughFinder find) (operation : OperationSite)
    (id location : String) (parameter : Option RequestBody) :
    OmitsOk (bodyOf setting find operation id location parameter) fun new result =>
      new = [] ∧ ∀ own, parameter = some own → result = some own := by
  cases parameter with
  | some own => exact OmitsOk.pure ⟨rfl, fun _ h => h⟩
  | none =>
    refine (OmitsOk.orFail location _).before fun body _ => ?_
    cases body with
    | none => exact OmitsOk.pure ⟨rfl, by simp⟩
    | some body =>
      dsimp only
      cases body.schema with
      | none => exact OmitsOk.pure ⟨rfl, by simp⟩
      | some schema =>
        refine (Omits.lift (hfind schema _ _)).bind ?_
        rintro _ type rfl
        exact OmitsOk.pure ⟨rfl, by simp⟩

structure LowersResponse (setting : Setting) (find : TypeFinder) (id location : String)
    (entry : ResponseSite) (response : Response) : Prop where
  status : Status.ofKey? entry.status = some response.status
  description : response.description = entry.description?
  made : ∃ before after, (lowerResponse setting find id location entry).run.run before =
    some (.ok (some response), after)

/-- A response is lowered if its key is a status. -/
structure AnswersEntry (setting : Setting) (find : TypeFinder) (id location : String)
    (entry : ResponseSite) (result : Option Response) : Prop where
  lowered : hasStatus entry = true →
    ∃ response, result = some response ∧ LowersResponse setting find id location entry response
  skipped : hasStatus entry = false → result = none

theorem responseWarnings_eq_flatMap (location : String) (responses : List ResponseSite) :
    responseWarnings location responses =
      responses.flatMap fun response => responseWarnings location [response] := by
  induction responses with
  | nil => rfl
  | cons response rest ih =>
    rw [List.flatMap_cons, ← ih, ← List.singleton_append, responseWarnings, responseWarnings,
      responseWarnings, List.filter_append, List.map_append]

theorem responseType_thorough (hfind : ThoroughFinder find) (response : ResponseSite)
    (hint location : String) : Thorough (responseType find response hint location) := by
  unfold responseType
  split
  · exact Omits.pure rfl
  · exact (hfind _ hint location).bind fun type => Omits.pure rfl

theorem lowerHeaders_thorough (hfind : ThoroughFinder find) (id location : String)
    (headers : List (String × Site)) : Thorough (lowerHeaders find id location headers) :=
  Thorough.mapM fun _ => (hfind _ _ location).bind fun _ => Omits.pure rfl

theorem lowerResponse_omits (hfind : ThoroughFinder find) (id location : String)
    (entry : ResponseSite) :
    OmitsOk (lowerResponse setting find id location entry) fun new result =>
      new = responseWarnings location [entry] ∧
        AnswersEntry setting find id location entry result := by
  have hresult : OmitsOk (lowerResponse setting find id location entry) fun new result =>
      new = responseWarnings location [entry] ∧
        (∀ status, Status.ofKey? entry.status = some status → ∃ response, result = some response ∧
          response.status = status ∧ response.description = entry.description?) ∧
        (Status.ofKey? entry.status = none → result = none) := by
    unfold lowerResponse
    dsimp only
    cases hstatus : Status.ofKey? entry.status with
    | none =>
      refine (Omits.lift (Omits.remark rfl _)).bind ?_
      rintro _ _ rfl
      refine OmitsOk.pure ⟨?_, by simp, fun _ => rfl⟩
      have hskipped : (!hasStatus entry) = true := by simp [hasStatus, hstatus]
      rw [responseWarnings, List.filter_cons, if_pos hskipped]
      rfl
    | some status =>
      refine (Omits.lift (responseType_thorough hfind entry _ _)).bind ?_
      rintro _ type rfl
      refine (OmitsOk.orFail _ _).before fun sites _ => ?_
      refine (Omits.lift (lowerHeaders_thorough hfind id _ sites)).bind ?_
      rintro _ headers rfl
      refine OmitsOk.pure ⟨?_, ?_, by simp⟩
      · simp [responseWarnings, hasStatus, hstatus]
      · rintro _ ⟨⟩
        exact ⟨_, rfl, rfl, rfl⟩
  refine (hresult.and_returns (Returns.traced _)).mono ?_
  rintro new _ ⟨hresult, hmade⟩ result rfl
  obtain ⟨htold, hlowered, hskipped⟩ := hresult result rfl
  refine ⟨htold, fun hstatus => ?_, fun hnone => hskipped (by simpa [hasStatus] using hnone)⟩
  obtain ⟨status, hstatus⟩ := Option.isSome_iff_exists.1 hstatus
  obtain ⟨response, rfl, rfl, hdescription⟩ := hlowered status hstatus
  exact ⟨response, rfl, hstatus, hdescription, hmade⟩

/-- The responses that are lowered are those whose key is a status, in order. -/
theorem forall₂_of_answers {id location : String} {entries : List ResponseSite}
    {results : List (Option Response)}
    (h : List.Forall₂ (AnswersEntry setting find id location) entries results) :
    List.Forall₂ (LowersResponse setting find id location) (entries.filter hasStatus)
      (results.filterMap fun result => result) := by
  induction h with
  | nil => exact .nil
  | @cons entry result entries results hfirst hrest ih =>
    cases hstatus : hasStatus entry with
    | true =>
      obtain ⟨response, rfl, hlowered⟩ := hfirst.lowered hstatus
      rw [List.filter_cons_of_pos hstatus]
      exact .cons hlowered ih
    | false =>
      obtain rfl := hfirst.skipped hstatus
      rw [List.filter_cons_of_neg (by simp [hstatus])]
      exact ih

end Responses

/-! ## Operations -/

/-- The parameters and responses of an operation in a document, and what became of them. -/
structure AccountsFor (setting : Setting) (find : TypeFinder) (site : OperationSite)
    (operation : Operation) (parameters : List Site) (responses : List ResponseSite) : Prop where
  readParameters : site.parameters setting.document = .ok parameters
  readResponses : site.responses setting.document = .ok responses
  /-- The parameters that travel by themselves are lowered in order. -/
  own : operation.parameters.map (fun parameter => (parameter.rawName, parameter.location)) =
    parameters.filterMap ownPlace?
  /-- The first parameter that travels in the body is the body. -/
  body : ∀ first, parameters.find? travelsInBody = some first →
    ∃ made, operation.requestBody = some made ∧
      MadeFromParameter find operation.id (operationLocation site) first made
  /-- The responses whose key is a status are lowered in order. -/
  answers : List.Forall₂ (LowersResponse setting find operation.id (operationLocation site))
    (responses.filter hasStatus) operation.responses

section Operations

variable {setting : Setting} {find : TypeFinder}

theorem lowerOperation_omits (hfind : ThoroughFinder find) (site : OperationSite) :
    OmitsOk (lowerOperation setting find site) fun new operation =>
      new = operationWarnings setting.document site ∧
        ∃ parameters responses, AccountsFor setting find site operation parameters responses := by
  refine (Omits.lift (Thorough.claimed _ _)).bind ?_
  rintro _ id rfl
  refine (OmitsOk.orFail _ _).before fun parameters hparameters => ?_
  have hparts := @lowerParameters_omits setting find hfind id (operationLocation site) .empty none
    [] parameters rfl
  refine (Omits.lift hparts).bind ?_
  intro told lowered hlowered
  refine (lowerRoute_omits site lowered.parameters).bind ?_
  rintro _ route rfl
  refine (bodyOf_omits hfind site id _ lowered.body).bind ?_
  rintro _ requestBody ⟨rfl, hbody⟩
  refine (OmitsOk.orFail _ _).before fun responses hresponses => ?_
  refine (OmitsOk.mapM fun entry => lowerResponse_omits hfind id _ entry).bind ?_
  rintro _ results ⟨rfl, hresults⟩
  refine OmitsOk.pure ⟨?_, parameters, responses, ?_⟩
  · rw [operationWarnings, hparameters, hresponses]
    simp only [List.nil_append, List.append_nil, hlowered.told, Except.toOption, Option.getD_some,
      responseWarnings_eq_flatMap _ responses]
  · refine ⟨hparameters, hresponses, hlowered.own, fun first hfirst => ?_,
      forall₂_of_answers hresults⟩
    obtain ⟨made, hmade, hfrom⟩ := hlowered.made rfl first hfirst
    exact ⟨made, hbody made hmade, hfrom⟩

/-- When a document is lowered to an interface, every parameter and every response of its operations
is accounted for, and the warnings on what is left out are those on the other ones, in order. -/
theorem accounts_of_run_eq_ok {api : Api} {notices : List Notice}
    (h : run setting = some ⟨.ok api, notices⟩) :
    ∃ sites, setting.document.operations = .ok sites ∧
      List.Forall₂ (fun site operation => ∃ parameters responses,
        AccountsFor setting (typeOf setting setting.depth) site operation parameters responses)
        sites api.operations ∧
      omissions notices = sites.flatMap (operationWarnings setting.document) := by
  obtain ⟨⟨outcome, final⟩, hrun, hresult⟩ := Option.map_eq_some_iff.1 h
  obtain rfl : outcome = .ok api := congrArg Result.outcome hresult
  obtain rfl : final.notices = notices := congrArg Result.notices hresult
  obtain ⟨sites, placed, filled, hstages⟩ := exists_stages hrun
  have hfind := typeOf_thorough setting setting.depth
  have hstart : HasTold [] State.initial := rfl
  obtain ⟨_, hplaced, rfl⟩ := (declareModels_thorough setting []).result hstart hstages.declare
  obtain ⟨_, hfilled, rfl⟩ := (lowerModels_thorough hfind _).result hplaced hstages.lower
  have hoperations := @OmitsOk.mapM _ _ sites (lowerOperation setting _) _ _ fun site =>
    lowerOperation_omits hfind site
  obtain ⟨told, htold, hright⟩ := (hoperations _).result hfilled hstages.operations
  obtain ⟨rfl, haccounts⟩ := hright api.operations rfl
  exact ⟨sites, hstages.read, haccounts, htold⟩

/-- Parameters of every sort, one of which takes the place of another, and responses of which one
has a key that is no status. -/
theorem accounts_of_run_eq_ok_mixed :
    let parameter (name location : String) : Json :=
      .object [("name", .string name), ("in", .string location), ("type", .string "string")]
    let tree : Json := .object [("info", .object []), ("paths", .object [
      ("/pets", .object [
        ("parameters", .array [parameter "tag" "query", parameter "pet" "body"]),
        ("post", .object [
          ("parameters", .array [parameter "tag" "header", parameter "tag" "querry",
            parameter "photo" "formData", parameter "pet" "body"]),
          ("responses", .object [
            ("2XX", .object []), ("7", .object []), ("default", .object [])])])])])]
    ∃ document api notices, Document.ofTree tree = .ok document ∧
      run ⟨document, Haskell.target⟩ = some ⟨.ok api, notices⟩ ∧
      (api.operations.map fun operation =>
        (operation.parameters.map fun own => (own.rawName, own.location),
          operation.responses.map Response.status)) =
        [([("tag", .query), ("tag", .header)], [.range 2, .default])] ∧
      omissions notices = [
        leftOut "parameter 'tag' has unsupported location 'querry'; skipped"
          "paths./pets.post.parameters.tag",
        leftOut "additional body parameter 'photo' skipped" "paths./pets.post.parameters.photo",
        leftOut "invalid response status '7'; skipped" "paths./pets.post.responses.7"] ∧
      ∃ sites, document.operations = .ok sites ∧
        List.Forall₂ (fun site operation => ∃ parameters responses,
          AccountsFor ⟨document, Haskell.target⟩
            (typeOf ⟨document, Haskell.target⟩ (Setting.depth ⟨document, Haskell.target⟩))
            site operation parameters responses) sites api.operations ∧
        omissions notices = sites.flatMap (operationWarnings document) := by
  intro parameter tree
  have hview : ((Document.ofTree tree).toOption.bind fun document =>
      (run ⟨document, Haskell.target⟩).bind fun result => result.outcome.toOption.map fun api =>
        api.operations.map fun operation =>
          (operation.parameters.map fun own => (own.rawName, own.location),
            operation.responses.map Response.status)) =
      some [([("tag", .query), ("tag", .header)], [.range 2, .default])] := by
    decide +kernel
  have hwarnings : ((Document.ofTree tree).toOption.bind fun document =>
      document.operations.toOption.map fun sites => sites.flatMap (operationWarnings document)) =
      some [
        leftOut "parameter 'tag' has unsupported location 'querry'; skipped"
          "paths./pets.post.parameters.tag",
        leftOut "additional body parameter 'photo' skipped" "paths./pets.post.parameters.photo",
        leftOut "invalid response status '7'; skipped" "paths./pets.post.responses.7"] := by
    decide +kernel
  obtain ⟨document, api, notices, hdocument, hrun, hoperations⟩ := exists_run_of_view hview
  obtain ⟨sites, hsites, haccounts, htold⟩ := accounts_of_run_eq_ok hrun
  refine ⟨document, api, notices, hdocument, hrun, hoperations, htold.trans ?_, sites, hsites,
    haccounts, htold⟩
  simpa [hdocument, hsites, Except.toOption] using hwarnings

end Operations

end ServantGen.Lowering
