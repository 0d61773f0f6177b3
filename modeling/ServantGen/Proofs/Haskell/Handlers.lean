import ServantGen.Proofs.Haskell.PathParts
import ServantGen.Proofs.Haskell.Tokens
import ServantGen.Proofs.Haskell.Words
import ServantGen.Settings

/-!
# Routes and their handlers

The server library reads a route type from left to right: every token but a fixed component is one
argument of the handler, and the last one is what the handler answers. The handler types that are
generated are read in the same way out of the generated routes: there is one token for each
parameter of an operation and one for all its cookies, and no argument is lost or moved.
-/

namespace ServantGen.Haskell

/-! ## Endpoints -/

section Endpoints

variable (context : RenderContext) (operation : Operation)

/-- The parts of an endpoint that are read as tokens: all but the root marker. -/
def tokenParts : List RoutePart :=
  operation.path.steps.map (stepPart context operation) ++ otherParts context operation

/-- The root marker of an endpoint, where it is written. -/
def markerParts : List RoutePart :=
  if operation.path.isRoot && context.target.rootMarker != "" then
    [.marker context.target.rootMarker]
  else []

variable {context operation}

/-- Where there is a root marker, it comes first. -/
theorem parts_eq_markerParts_append (h : operation.path.RootAlone) :
    (endpointOf context operation).1.parts =
      markerParts context operation ++ tokenParts context operation := by
  have hparts : (endpointOf context operation).1.parts =
      (endpointOf context operation).1.pathParts ++ otherParts context operation := by
    rw [pathParts_endpointOf, parts_endpointOf]
  rw [hparts, tokenParts, ← List.append_assoc]
  congr 1
  unfold markerParts
  obtain hroot | hroot := h
  · have hsteps : operation.path.steps = [] := by simp [Route.steps, hroot]
    have hisRoot : operation.path.isRoot = true := by simp [Route.isRoot, hroot]
    rw [pathParts_of_root context operation hroot, hsteps, hisRoot]
    by_cases hmarker : context.target.rootMarker = "" <;> simp [hmarker]
  · have hisRoot : operation.path.isRoot = false := by
      rw [Route.isRoot, beq_eq_false_iff_ne]
      intro heq
      exact hroot (heq ▸ List.mem_cons_self)
    rw [pathParts_of_no_root context operation hroot, hisRoot]
    simp

/-- The last part is what is answered. -/
theorem exists_tokenParts_eq (context : RenderContext) (operation : Operation) :
    ∃ before result, tokenParts context operation =
      before ++ [.verb operation.method (successStatus operation) result] := by
  obtain ⟨result, hverb⟩ : ∃ result, (verbPart context operation).1 =
      .verb operation.method (successStatus operation) result :=
    verbPart_cases (fun _ => ⟨_, rfl⟩) fun _ _ => ⟨_, rfl⟩
  rw [tokenParts, otherParts, List.map_append, List.map_singleton, hverb, ← List.append_assoc]
  exact ⟨_, result, rfl⟩

theorem tokenParts_ne_nil : tokenParts context operation ≠ [] := by
  obtain ⟨before, result, hparts⟩ := exists_tokenParts_eq context operation
  simp [hparts]

/-- The types of the routes are those of its steps. -/
theorem mem_types_of_mem_steps {route : Route} {name : String} {type : DataType}
    (h : Segment.parameter name type ∈ route.steps) : type ∈ route.types := by
  obtain ⟨segment, hmem, hstep⟩ := List.mem_flatMap.1 h
  cases segment with
  | literal text => simp at hstep
  | parameter own ownType =>
    obtain ⟨rfl, rfl⟩ : name = own ∧ type = ownType := by simpa using hstep
    exact List.mem_filterMap.2 ⟨_, hmem, rfl⟩
  | root => simp at hstep

/-- A property of types that parts keep: text has it, and what is taken out of a type that has it
has it as well. -/
structure IsKept (P : DataType → Prop) : Prop where
  string : P .string
  stripOptional : ∀ {type : DataType}, P type → P type.stripOptional
  item : ∀ {item : DataType}, P (.array item) → P item

theorem isKept_hasWords : IsKept HasWords :=
  ⟨hasWords_string, HasWords.stripOptional, fun h => ⟨h.models, h.enums⟩⟩

namespace IsKept

variable {P : DataType → Prop} (hkept : IsKept P)
include hkept

theorem wireType {type : DataType} (h : P type) (models : ModelTable) (subject : String) :
    P (Haskell.wireType models type subject).1 := by
  unfold Haskell.wireType
  dsimp only
  split
  · exact hkept.string
  · split
    · exact hkept.stripOptional h
    · exact hkept.string

theorem stepPart (h : ∀ type ∈ operation.path.types, P type) {step : Segment}
    (hstep : step ∈ operation.path.steps) :
    ∀ type ∈ (Haskell.stepPart context operation step).types, P type := by
  cases step with
  | literal component => simp [Haskell.stepPart, RoutePart.types]
  | parameter name type =>
    have htype := h type (mem_types_of_mem_steps hstep)
    exact List.forall_mem_singleton.2 (hkept.wireType htype _ _)
  | root =>
    obtain ⟨segment, -, hroot⟩ := List.mem_flatMap.1 hstep
    exact absurd hroot segment.root_notMem_steps

theorem queryPart {parameter : Parameter} (h : P parameter.type) :
    ∀ type ∈ (Haskell.queryPart context operation parameter).1.types, P type := by
  refine queryPart_cases parameter (fun item hitem subject => ?_) fun subject => ?_
  · have hinner := hkept.stripOptional h
    rw [hitem] at hinner
    exact List.forall_mem_singleton.2 (hkept.wireType (hkept.item hinner) _ _)
  · exact List.forall_mem_singleton.2 (hkept.wireType h _ _)

theorem headerPart {parameter : Parameter} (h : P parameter.type) :
    ∀ type ∈ (Haskell.headerPart context operation parameter).1.types, P type :=
  List.forall_mem_singleton.2 (hkept.wireType h _ _)

theorem bodyParts (h : ∀ body ∈ operation.requestBody, P body.type) :
    ∀ part ∈ Haskell.bodyParts operation, ∀ type ∈ part.1.types, P type :=
  forall_mem_bodyParts fun body hbody =>
    List.forall_mem_singleton.2 (hkept.stripOptional (h body hbody))

theorem verbPart (h : ∀ response ∈ operation.responses, (∀ type ∈ response.type.toList, P type) ∧
      ∀ header ∈ response.headers, P header.type) :
    ∀ type ∈ (Haskell.verbPart context operation).1.types, P type := by
  refine verbPart_cases (fun _ => by simp [RoutePart.types]) fun response hresponse => ?_
  have hmem : response ∈ operation.responses := by
    obtain hfound | ⟨-, hfound⟩ := Option.or_eq_some_iff.1 hresponse
    · exact List.mem_of_find?_eq_some hfound
    · exact List.mem_of_find?_eq_some hfound
  obtain ⟨htype, hheaders⟩ := h response hmem
  refine List.forall_mem_append.2 ⟨htype, ?_⟩
  simp only [headerTypes, List.map_map, List.forall_mem_map]
  exact fun header hheader => hkept.wireType (hheaders header hheader) _ _

/-- The parts of an operation have the property if its types have it. -/
theorem tokenParts (htypes : ∀ type ∈ Api.operationTypes operation, P type)
    (hroute : ∀ type ∈ operation.path.types, P type) :
    ∀ part ∈ Haskell.tokenParts context operation, ∀ type ∈ part.types, P type := by
  simp only [Api.operationTypes, List.forall_mem_append, List.forall_mem_map,
    List.forall_mem_flatMap] at htypes
  obtain ⟨⟨hparameters, hbody⟩, hresponses⟩ := htypes
  have hin : ∀ location, ∀ parameter ∈ operation.parametersIn location, P parameter.type :=
    fun location parameter hmem => hparameters parameter (List.mem_of_mem_filter hmem)
  simp only [Haskell.tokenParts, otherParts, List.map_append, List.map_map,
    List.forall_mem_append, List.forall_mem_map, List.forall_mem_singleton, List.map_cons,
    List.map_nil]
  refine ⟨fun step hstep => hkept.stepPart hroute hstep, ⟨⟨⟨?_, ?_⟩, ?_⟩, ?_⟩, ?_⟩
  · exact fun parameter hmem => hkept.queryPart (hin _ parameter hmem)
  · exact fun parameter hmem => hkept.headerPart (hin _ parameter hmem)
  · exact forall_mem_cookieParts (by simp [RoutePart.types])
  · refine hkept.bodyParts fun body hmem => hbody _ ?_
    simpa using ⟨body, hmem, rfl⟩
  · exact hkept.verbPart hresponses

end IsKept

/-- The root marker is no token. -/
theorem ne_marker_of_mem_tokenParts :
    ∀ part ∈ tokenParts context operation, ∀ text, part ≠ .marker text := by
  simp only [tokenParts, otherParts, List.map_append, List.map_map, List.forall_mem_append,
    List.forall_mem_map, List.forall_mem_singleton, List.map_cons, List.map_nil,
    Function.comp_apply]
  refine ⟨fun step hstep => ?_, ⟨⟨⟨fun parameter _ => ?_, fun _ _ => ?_⟩, ?_⟩, ?_⟩, ?_⟩
  · cases step with
    | literal component => simp [stepPart]
    | parameter name type => simp [stepPart]
    | root =>
      obtain ⟨segment, -, hroot⟩ := List.mem_flatMap.1 hstep
      exact absurd hroot segment.root_notMem_steps
  · exact queryPart_cases parameter (by simp) (by simp)
  · simp [headerPart]
  · exact forall_mem_cookieParts (by simp)
  · exact forall_mem_bodyParts (by simp)
  · exact verbPart_cases (by simp) (by simp)

/-- The parts of an operation are readable if its types are. -/
theorem readable_tokenParts (htypes : ∀ type ∈ Api.operationTypes operation, HasWords type)
    (hroute : ∀ type ∈ operation.path.types, HasWords type) :
    ∀ part ∈ tokenParts context operation, part.Readable := fun part hpart =>
  ⟨isKept_hasWords.tokenParts htypes hroute part hpart, ne_marker_of_mem_tokenParts part hpart⟩

/-- The names in an operation and where its values travel; all cookies in one header. -/
def sentNames (operation : Operation) : List (Location × String) :=
  operation.path.parameters.map (Location.path, ·) ++
    (operation.parametersIn .query).map (fun parameter => (.query, parameter.rawName)) ++
    (operation.parametersIn .header).map (fun parameter => (.header, parameter.rawName)) ++
    if (operation.parametersIn .cookie).isEmpty then [] else [(.header, "Cookie")]

theorem filterMap_name?_steps (route : Route) :
    (route.steps.map (stepPart context operation)).filterMap RoutePart.name? =
      route.parameters.map (Location.path, ·) := by
  obtain ⟨segments⟩ := route
  simp only [Route.steps, Route.parameters]
  induction segments with
  | nil => rfl
  | cons segment segments ih =>
    rw [List.flatMap_cons, List.map_append, List.filterMap_append, ih, List.filterMap_cons]
    cases segment with
    | literal text => simp [stepPart, RoutePart.name?]
    | parameter name type => simp [stepPart, RoutePart.name?]
    | root => simp

/-- Every parameter is in one part, and all cookies together are in one. -/
theorem filterMap_name?_tokenParts :
    (tokenParts context operation).filterMap RoutePart.name? = sentNames operation := by
  have hquery : ∀ parameter, (queryPart context operation parameter).1.name? =
      some (.query, parameter.rawName) :=
    fun parameter => queryPart_cases parameter (fun _ _ _ => rfl) fun _ => rfl
  have hheader : ∀ parameter, (headerPart context operation parameter).1.name? =
      some (.header, parameter.rawName) := fun _ => rfl
  have hcookies : (cookieParts operation).filterMap (fun part => part.1.name?) =
      if (operation.parametersIn .cookie).isEmpty then [] else [(.header, "Cookie")] := by
    unfold cookieParts
    split <;> rfl
  have hbody : (bodyParts operation).filterMap (fun part => part.1.name?) = [] :=
    List.filterMap_eq_nil_iff.2 (forall_mem_bodyParts fun _ _ => rfl)
  have hverb : (verbPart context operation).1.name? = none :=
    verbPart_cases (fun _ => rfl) fun _ _ => rfl
  rw [tokenParts, List.filterMap_append, filterMap_name?_steps, sentNames, otherParts,
    List.filterMap_map]
  simp [List.filterMap_map, hquery, hheader, hcookies, hbody, hverb]

end Endpoints

/-! ## The handler answers the route -/

/-- The tokens of a route and the type of its handler, cut into arguments. -/
structure Answers (operation : Operation) (tokens arguments : List (List String)) : Prop where
  /-- The handler has the arguments of the tokens, in order. -/
  arguments : arguments = tokens.filterMap argumentOf?
  /-- Every token has an argument but fixed components. -/
  silent : ∀ token ∈ tokens,
    argumentOf? token = none ↔ ∃ component, token = [literal component]
  /-- There is one token for each parameter, and one for all cookies. -/
  names : tokens.filterMap tokenName? =
    (sentNames operation).map fun (location, name) => (location, literal name)
  /-- The last token is what is answered. -/
  verb : ∃ result, tokens.getLast? = some ("Verb" :: ("'" ++ operation.method.name) ::
    Text.decimal (successStatus operation) :: "'" :: "[" :: "JSON" :: "]" :: result)

/-- What stands in front of the first token of a route. -/
def markerText (context : RenderContext) (operation : Operation) : String :=
  if operation.path.isRoot && context.target.rootMarker != "" then
    context.target.rootMarker ++ " :> "
  else ""

section Answering

variable {context : RenderContext} {operation : Operation}

/-- The route is the marker, where there is one, and the tokens. -/
theorem route_eq_markerText_append (h : operation.path.RootAlone) :
    (endpointOf context operation).1.route = markerText context operation ++
      Text.join " :> " ((tokenParts context operation).map RoutePart.text) := by
  rw [Endpoint.route, parts_eq_markerParts_append h, markerParts, markerText]
  split
  · cases hparts : tokenParts context operation with
    | nil => exact absurd hparts tokenParts_ne_nil
    | cons part parts =>
      simp only [List.singleton_append, List.map_cons, Text.join, String.intercalate_cons_cons]
      rfl
  · simp

theorem handler_eq_join (h : operation.path.RootAlone) :
    (endpointOf context operation).1.handler =
      Text.join " -> " ((tokenParts context operation).filterMap RoutePart.argument?) := by
  rw [Endpoint.handler, parts_eq_markerParts_append h, List.filterMap_append]
  unfold markerParts
  split <;> rfl

/-- Where all parts are readable, the tokens are those of the parts. -/
theorem splitOuter_tokens (h : ∀ part ∈ tokenParts context operation, part.Readable) :
    splitOuter ":>" 0 (lexemes (Text.join " :> "
      ((tokenParts context operation).map RoutePart.text))) =
      (tokenParts context operation).map fun part => lexemes part.text := by
  rw [splitOuter_lexemes_join (by decide) (by decide) (by decide)
    (by simpa using tokenParts_ne_nil), List.map_map]
  · rfl
  · rw [List.forall_mem_map]
    exact fun part hpart => RoutePart.phraseText_text (h part hpart)

theorem splitOuter_arguments (h : ∀ part ∈ tokenParts context operation, part.Readable) :
    splitOuter "->" 0 (lexemes (Text.join " -> "
      ((tokenParts context operation).filterMap RoutePart.argument?))) =
      ((tokenParts context operation).filterMap RoutePart.argument?).map lexemes := by
  obtain ⟨before, result, hparts⟩ := exists_tokenParts_eq context operation
  have hanswer : (tokenParts context operation).filterMap RoutePart.argument? ≠ [] := by
    simp [hparts, RoutePart.argument?]
  refine splitOuter_lexemes_join (by decide) (by decide) (by decide) hanswer ?_
  intro argument hargument
  obtain ⟨part, hpart, heq⟩ := List.mem_filterMap.1 hargument
  exact RoutePart.phraseText_argument (h part hpart) argument heq

/-- Where all parts are readable, the arguments are those of the tokens. -/
theorem answers_of_readable (h : ∀ part ∈ tokenParts context operation, part.Readable) :
    Answers operation
      (splitOuter ":>" 0 (lexemes (Text.join " :> "
        ((tokenParts context operation).map RoutePart.text))))
      (splitOuter "->" 0 (lexemes (Text.join " -> "
        ((tokenParts context operation).filterMap RoutePart.argument?)))) := by
  obtain ⟨before, result, hparts⟩ := exists_tokenParts_eq context operation
  rw [splitOuter_tokens h, splitOuter_arguments h]
  exact {
    arguments := by
      rw [List.filterMap_map, List.map_filterMap]
      refine List.filterMap_congr fun part hpart => ?_
      exact (RoutePart.argumentOf?_text (h part hpart)).symm
    silent := by
      rw [List.forall_mem_map]
      intro part hpart
      exact RoutePart.argumentOf?_eq_none_iff (h part hpart)
    names := by
      rw [List.filterMap_map, ← filterMap_name?_tokenParts, List.map_filterMap]
      refine List.filterMap_congr fun part hpart => ?_
      exact RoutePart.tokenName?_text (h part hpart)
    verb := by
      refine ⟨lexemes result.text, ?_⟩
      rw [hparts, List.map_append, List.map_singleton, List.getLast?_concat,
        RoutePart.lexemes_text]
      rfl }

end Answering

open Lowering (run Notice)

/-- Whatever document an interface was lowered from, and whatever was set for the target, the type
of every handler is what the server library reads out of the route: behind the root marker, where
there is one, each token but a fixed component is one argument in its place. -/
theorem handler_answers_route {document : Document} {settings : TargetSettings} {api : Api}
    {notices : List Notice}
    (h : run ⟨document, settings.apply target⟩ = some ⟨.ok api, notices⟩)
    (hkeys : document.tree.hasDistinctKeys = true) {operation : Operation}
    (hmem : operation ∈ api.operations) :
    ∃ route, (endpointOf ⟨api, settings.apply target⟩ operation).1.route =
        markerText ⟨api, settings.apply target⟩ operation ++ route ∧
      Answers operation (splitOuter ":>" 0 (lexemes route))
        (splitOuter "->" 0 (lexemes
          (endpointOf ⟨api, settings.apply target⟩ operation).1.handler)) := by
  have hlegible := Lowering.legible_of_run_eq_ok h hkeys rfl
  have halone := hlegible.routes operation hmem
  refine ⟨_, route_eq_markerText_append halone, ?_⟩
  rw [handler_eq_join halone]
  exact answers_of_readable (readable_tokenParts (hlegible.operationTypes hmem)
    (hlegible.routeTypes hmem))

/-- A root route with a marker, and parameters of every kind. -/
theorem handler_answers_route_root :
    let parameter (name place : String) (required : Bool) (schema : Entries Json) : Json :=
      .object [("name", .string name), ("in", .string place), ("required", .bool required),
        ("schema", .object schema)]
    let strings : Json := .object [("type", .string "string")]
    let tree : Json := .object [
      ("info", .object []),
      ("paths", .object [("/", .object [("put", .object [
        ("operationId", .string "put all"),
        ("parameters", .array [
          parameter "ids" "query" true [("type", .string "array"), ("items", strings)],
          parameter "size -> :> \"" "query" true [("enum", .array [.string "big"])],
          parameter "page" "query" false [("type", .string "integer")],
          parameter "X-Map" "header" true [("additionalProperties", strings)],
          parameter "Cookie" "header" false [("type", .string "string")],
          parameter "a" "cookie" true [("type", .string "string")],
          parameter "b" "cookie" false [("type", .string "string")]]),
        ("requestBody", .object [("content", .object [("application/json", .object [
          ("schema", .object [("additionalProperties", strings)])])])]),
        ("responses", .object [("200", .object [
          ("headers", .object [("X-Total", .object [("schema", strings)])]),
          ("content", .object [("application/json", .object [
            ("schema", .object [("type", .string "array"), ("items", .object [
              ("additionalProperties", strings)])])])])])])])])])]
    let settings : TargetSettings := { rootMarker := some "Root" }
    let route := "Root :> QueryParams \"ids\" Text :> " ++
        "QueryParam' '[Required, Strict] \"size -> :> \\\"\" PutAllSize :> " ++
        "QueryParam \"page\" Int :> Header' '[Required, Strict] \"X-Map\" Text :> " ++
        "Header \"Cookie\" Text :> Header \"Cookie\" Text :> " ++
        "ReqBody' '[Optional, Strict] '[JSON] (Map Text Text) :> " ++
        "Verb 'PUT 200 '[JSON] (Headers '[Header \"X-Total\" Text] [Map Text Text])"
    let handler := "[Text] -> PutAllSize -> Maybe Int -> Text -> Maybe Text -> Maybe Text -> " ++
        "Maybe (Map Text Text) -> m (Headers '[Header \"X-Total\" Text] [Map Text Text])"
    ∃ document api notices operation, Document.ofTree tree = .ok document ∧
      tree.hasDistinctKeys = true ∧
      run ⟨document, settings.apply target⟩ = some ⟨.ok api, notices⟩ ∧
      operation ∈ api.operations ∧
      (∃ route, (endpointOf ⟨api, settings.apply target⟩ operation).1.route =
          markerText ⟨api, settings.apply target⟩ operation ++ route ∧
        Answers operation (splitOuter ":>" 0 (lexemes route))
          (splitOuter "->" 0 (lexemes
            (endpointOf ⟨api, settings.apply target⟩ operation).1.handler))) ∧
      (endpointOf ⟨api, settings.apply target⟩ operation).1.route = route ∧
      (endpointOf ⟨api, settings.apply target⟩ operation).1.handler = handler := by
  intro parameter strings tree settings route handler
  have hview : ((Document.ofTree tree).toOption.bind fun document =>
      (run ⟨document, settings.apply target⟩).bind fun result => result.outcome.toOption.map
        fun api => api.operations.map fun operation =>
          let endpoint := (endpointOf ⟨api, settings.apply target⟩ operation).1
          (endpoint.route, endpoint.handler)) = some [(route, handler)] := by
    decide +kernel
  have hkeys : tree.hasDistinctKeys = true := by decide +kernel
  obtain ⟨document, api, notices, hdocument, hrun, htexts⟩ := Lowering.exists_run_of_view hview
  obtain rfl := Document.eq_of_ofTree hdocument
  obtain ⟨operation, hoperation, htext⟩ := List.map_eq_singleton_iff.1 htexts
  have hmem : operation ∈ api.operations := hoperation ▸ List.mem_cons_self
  obtain ⟨hroute, hhandler⟩ := Prod.mk.inj htext
  exact ⟨_, api, notices, operation, hdocument, hkeys, hrun, hmem,
    handler_answers_route hrun hkeys hmem, hroute, hhandler⟩

end ServantGen.Haskell
