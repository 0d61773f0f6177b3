import ServantGen.Haskell.Package
import ServantGen.Lowering.Run
import ServantGen.Proofs.Haskell.PathParts
import ServantGen.Proofs.Lowering.Contract
import ServantGen.Proofs.Outcomes
import ServantGen.Settings

/-!
# A route from the document to the generated code

The components of a raw path become segments, the segments a normal form, and the normal form
the first parts of an endpoint. Each stage is compared with the steps of the route: a step is
what one component of the raw path becomes, and each step is written as one part. So whatever
slashes the raw path has and whatever marks its placeholders, no component is lost, added or
moved on the way.
-/

namespace ServantGen

/-! ## Components and placeholders -/

def rawComponents (path : String) : List String :=
  (Text.splitOn '/' path).filter (· ≠ "")

/-- No component of a raw path holds a slash. -/
theorem isSlash_eq_false_of_mem_splitOn {path component : String}
    (h : component ∈ Text.splitOn '/' path) :
    ∀ c ∈ component.toList, Segment.isSlash c = false := by
  obtain ⟨piece, hpiece, rfl⟩ := List.mem_map.1 h
  intro c hc
  rw [String.toList_ofList] at hc
  exact Text.isBreak_eq_false_of_mem_splitBy hpiece hc

namespace Delimiter

/-- A placeholder is a name between the two marks. -/
theorem eq_of_placeholder?_eq_some {delimiter : Delimiter} {component name : String}
    (h : delimiter.placeholder? component = some name) :
    component = delimiter.opening ++ name ++ delimiter.closing ∧ name ≠ "" := by
  unfold placeholder? at h
  simp only [Option.bind_eq_bind] at h
  split at h
  · simp at h
  · obtain ⟨rest, hrest, h⟩ := Option.bind_eq_some_iff.1 h
    obtain ⟨inner, hinner, h⟩ := Option.bind_eq_some_iff.1 h
    rw [Text.stripStart?_eq_some_iff] at hrest
    rw [Text.stripEnd?_eq_some_iff] at hinner
    split at h
    · simp at h
    · rename_i hplain
      obtain rfl := Option.some.inj h
      constructor
      · rw [← String.toList_inj]
        simp [hrest, hinner]
      · intro hempty
        simp_all

theorem ne_empty_of_placeholder?_eq_some {delimiter : Delimiter} {component name : String}
    (h : delimiter.placeholder? component = some name) : component ≠ "" := by
  obtain ⟨rfl, hname⟩ := eq_of_placeholder?_eq_some h
  simp [hname]

end Delimiter

/-- The components of a segment as a document with these marks writes them. -/
def Segment.written (delimiter : Delimiter) (segment : Segment) : List String :=
  match segment with
  | .literal _ => segment.components
  | .parameter name _ => [delimiter.opening ++ name ++ delimiter.closing]
  | .root => []

/-- Fixed text of one component is listed as itself. -/
theorem Segment.written_literal_of_mem {delimiter : Delimiter} {segment : Segment}
    {component : String} (h : component ∈ segment.components) :
    (Segment.literal component).written delimiter = [component] := by
  cases segment with
  | literal text =>
    have hslash := isSlash_eq_false_of_mem_splitOn (List.mem_filter.1 h).1
    have hchars : component.toList ≠ [] := by simpa using ne_empty_of_mem_components h
    change (Segment.literal component).components = [component]
    rw [components_literal, Text.pieces_of_no_break hslash hchars]
    simp
  | parameter name type => simp [components] at h
  | root => simp [components] at h

/-- A segment is listed as its steps are. -/
theorem Segment.written_steps (delimiter : Delimiter) (segment : Segment) :
    segment.steps.flatMap (written delimiter) = segment.written delimiter := by
  cases segment with
  | literal text =>
    rw [steps_literal, List.flatMap_map]
    rw [List.flatMap_congr fun component h => written_literal_of_mem h]
    simp [written]
  | parameter name type => simp
  | root => rfl

theorem Route.written_steps (delimiter : Delimiter) (route : Route) :
    route.steps.flatMap (Segment.written delimiter) =
      route.segments.flatMap (Segment.written delimiter) := by
  rw [Route.steps, List.flatMap_assoc]
  exact List.flatMap_congr fun segment _ => Segment.written_steps delimiter segment

/-! ## Lowering a raw path -/

/-- The parameter of a path that a placeholder of this name is bound to. -/
def boundParameter? (parameters : List Parameter) (name : String) : Option Parameter :=
  parameters.find? fun p => p.location == .path && p.rawName == name

/-- The step that a component becomes: a component that is no placeholder stays fixed text, and
a placeholder is bound to the first path parameter of its name. -/
inductive StandsFor (delimiter : Delimiter) (parameters : List Parameter) :
    String → Segment → Prop where
  | literal {component : String} (plain : delimiter.placeholder? component = none) :
      StandsFor delimiter parameters component (.literal component)
  | parameter {component name : String} {parameter : Parameter}
      (placeholder : delimiter.placeholder? component = some name)
      (bound : boundParameter? parameters name = some parameter) :
      StandsFor delimiter parameters component (.parameter name parameter.type.stripOptional)

namespace StandsFor

variable {delimiter : Delimiter} {parameters : List Parameter}

/-- A component and its step are written alike. -/
theorem written_eq {component : String} {step : Segment}
    (h : StandsFor delimiter parameters component step)
    (hslash : ∀ c ∈ component.toList, Segment.isSlash c = false) (hne : component ≠ "") :
    step.written delimiter = [component] := by
  cases h with
  | literal plain =>
    have hmem : component ∈ (Segment.literal component).components := by
      have hchars : component.toList ≠ [] := by simpa using hne
      simp [Segment.components_literal, Text.pieces_of_no_break hslash hchars]
    exact Segment.written_literal_of_mem hmem
  | parameter placeholder bound =>
    rw [(Delimiter.eq_of_placeholder?_eq_some placeholder).1]
    rfl

/-- The steps of the segment for a component: itself, unless the component is empty. -/
theorem steps_eq {component : String} {segment : Segment}
    (h : StandsFor delimiter parameters component segment)
    (hslash : ∀ c ∈ component.toList, Segment.isSlash c = false) :
    segment.steps = if component = "" then [] else [segment] := by
  cases h with
  | literal plain =>
    split
    · rename_i hempty
      subst hempty
      rfl
    · rename_i hne
      exact Segment.steps_literal_of_no_slash hslash hne
  | parameter placeholder bound =>
    rw [if_neg (Delimiter.ne_empty_of_placeholder?_eq_some placeholder)]
    rfl

/-- Empty components have no step, so the steps stand for the others. -/
theorem forall₂_steps {components : List String} {segments : List Segment}
    (h : List.Forall₂ (StandsFor delimiter parameters) components segments)
    (hslash : ∀ component ∈ components, ∀ c ∈ component.toList, Segment.isSlash c = false) :
    List.Forall₂ (StandsFor delimiter parameters) (components.filter (· ≠ ""))
      (segments.flatMap Segment.steps) := by
  induction h with
  | nil => exact .nil
  | @cons component segment components segments hhead htail ih =>
    rw [List.forall_mem_cons] at hslash
    have hrest := ih hslash.2
    rw [List.flatMap_cons, hhead.steps_eq hslash.1]
    by_cases hempty : component = ""
    · simpa [hempty] using hrest
    · simpa [hempty] using List.Forall₂.cons hhead hrest

theorem flatMap_written {components : List String} {steps : List Segment}
    (h : List.Forall₂ (StandsFor delimiter parameters) components steps)
    (hparts : ∀ component ∈ components,
      (∀ c ∈ component.toList, Segment.isSlash c = false) ∧ component ≠ "") :
    steps.flatMap (Segment.written delimiter) = components := by
  induction h with
  | nil => rfl
  | cons hhead htail ih =>
    obtain ⟨hfirst, hrest⟩ := List.forall_mem_cons.1 hparts
    rw [List.flatMap_cons, hhead.written_eq hfirst.1 hfirst.2, ih hrest, List.singleton_append]

end StandsFor

namespace Lowering

theorem standsFor_of_segmentOf_eq_ok {setting : Setting} {operation : OperationSite}
    {parameters : List Parameter} {component : String} {segment : Segment}
    (h : segmentOf setting operation parameters component = .ok segment) :
    StandsFor setting.target.delimiter parameters component segment := by
  unfold segmentOf at h
  cases hname : setting.target.delimiter.placeholder? component with
  | none =>
    simp only [hname] at h
    obtain rfl := Except.ok.inj h
    exact .literal hname
  | some name =>
    simp only [hname] at h
    cases hfound : parameters.find? fun p => p.location == .path && p.rawName == name with
    | none => simp [hfound] at h
    | some parameter =>
      simp only [hfound] at h
      obtain rfl := Except.ok.inj h
      exact .parameter hname hfound

/-- Remarks on the elements of a list are added in their order. -/
theorem forM_remark {α : Type} (remarkOf : α → Remark) (location : String) (items : List α)
    (state : State) :
    (items.forM fun item => (remark (remarkOf item) location : OperationM Unit)).run.run state =
      some (.ok (), { state with
        notices := state.notices ++ items.map fun item => ⟨remarkOf item, location⟩ }) := by
  induction items generalizing state with
  | nil => simp
  | cons item items ih =>
    change (items.forM fun item => (remark (remarkOf item) location : OperationM Unit)).run.run
      { state with notices := state.notices ++ [⟨remarkOf item, location⟩] } = _
    rw [ih]
    simp

/-- The remarks on the components of a raw path that mix text and a placeholder. -/
def mixedNotices (setting : Setting) (operation : OperationSite) : List Notice :=
  ((Text.splitOn '/' operation.path).filter (isMixed setting)).map fun component =>
    ⟨.mixedComponent component, operationLocation operation⟩

/-- The route of an operation is found without looking at the state; only remarks are added. -/
theorem lowerRoute_run (setting : Setting) (operation : OperationSite)
    (parameters : List Parameter) (state : State) :
    (lowerRoute setting operation parameters).run.run state =
      match (Text.splitOn '/' operation.path).mapM (segmentOf setting operation parameters) with
      | .error error => some (.error error, state)
      | .ok segments => some (.ok (Route.ofSegments segments),
          { state with notices := state.notices ++ mixedNotices setting operation }) := by
  unfold lowerRoute
  dsimp only
  generalize (Text.splitOn '/' operation.path).mapM (segmentOf setting operation parameters) =
    outcome
  cases outcome with
  | error error => rfl
  | ok segments =>
    change (do
      ((Text.splitOn '/' operation.path).filter (isMixed setting)).forM fun component =>
        (remark (.mixedComponent component) (operationLocation operation) : OperationM Unit)
      pure (Route.ofSegments segments) : OperationM Route).run.run state = _
    rw [OperationM.run_bind, forM_remark]
    rfl

end Lowering

/-! ## From the raw path to the route type -/

/-- A route that tells the components of a raw path, each in its place. -/
structure Route.Tells (route : Route) (delimiter : Delimiter) (parameters : List Parameter)
    (path : String) : Prop where
  /-- Listing the route gives the components back. -/
  listed : route.segments.flatMap (Segment.written delimiter) = rawComponents path
  /-- A step is a parameter exactly where the component is a placeholder. -/
  steps : List.Forall₂ (StandsFor delimiter parameters) (rawComponents path) route.steps

/-- An operation whose endpoint writes the components of a raw path, each as one part. -/
structure Operation.WritesPath (operation : Operation) (context : RenderContext)
    (path : String) : Prop where
  /-- The route type begins with the tokens of the path, each with an arrow behind it, and what
  is written behind them is no part of the path. -/
  route : ∃ others : List Haskell.RoutePart, others ≠ [] ∧ (∀ part ∈ others, part.isPath = false) ∧
    (Haskell.endpointOf context operation).1.parts =
      (Haskell.endpointOf context operation).1.pathParts ++ others ∧
    (Haskell.endpointOf context operation).1.route =
      String.join ((Haskell.endpointOf context operation).1.pathTokens.map (· ++ " :> ")) ++
        Text.join " :> " (others.map Haskell.RoutePart.text)
  /-- A literal for each component of fixed text, a capture for each placeholder. -/
  tokens : rawComponents path ≠ [] →
    (Haskell.endpointOf context operation).1.pathTokens =
      operation.path.steps.map (Haskell.stepToken context operation)
  /-- Without a component there is nothing but the root marker, if one is set. -/
  root : rawComponents path = [] →
    (Haskell.endpointOf context operation).1.pathTokens =
      if context.target.rootMarker = "" then [] else [context.target.rootMarker]
  /-- No component is written as the empty literal. -/
  noEmpty : .literal "" ∉ (Haskell.endpointOf context operation).1.parts
  /-- No token is the empty literal but a root marker that is this text. -/
  emptyToken : Haskell.literal "" ∈ (Haskell.endpointOf context operation).1.pathTokens ↔
    rawComponents path = [] ∧ context.target.rootMarker = Haskell.literal ""

theorem Route.tells_of_mapM_segmentOf {setting : Lowering.Setting} {operation : OperationSite}
    {parameters : List Parameter} {segments : List Segment}
    (h : (Text.splitOn '/' operation.path).mapM
      (Lowering.segmentOf setting operation parameters) = .ok segments) :
    (Route.ofSegments segments).Tells setting.target.delimiter parameters operation.path := by
  have hslash := fun component => @isSlash_eq_false_of_mem_splitOn operation.path component
  have hstands := (Outcomes.forall₂_of_mapM_eq_ok h).imp
    fun _ _ => Lowering.standsFor_of_segmentOf_eq_ok
  have hsteps := StandsFor.forall₂_steps hstands hslash
  rw [← Route.steps_ofSegments] at hsteps
  refine ⟨?_, hsteps⟩
  rw [← Route.written_steps]
  apply StandsFor.flatMap_written hsteps
  intro component hmem
  obtain ⟨hsplit, hne⟩ := List.mem_filter.1 hmem
  exact ⟨hslash component hsplit, by simpa using hne⟩

/-- An endpoint writes a raw path when its route is a normal form that tells the path. -/
theorem Operation.writesPath_of_tells {operation : Operation} {segments : List Segment}
    {delimiter : Delimiter} {parameters : List Parameter} {path : String}
    (hpath : operation.path = Route.ofSegments segments)
    (h : operation.path.Tells delimiter parameters path) (context : RenderContext) :
    operation.WritesPath context path := by
  have hnil : rawComponents path = [] ↔ segments.flatMap Segment.steps = [] := by
    rw [← Route.steps_ofSegments, ← hpath, ← List.length_eq_zero_iff, h.steps.length_eq,
      List.length_eq_zero_iff]
  have hparts : rawComponents path ≠ [] →
      (Haskell.endpointOf context operation).1.pathParts =
        operation.path.steps.map (Haskell.stepPart context operation) := by
    intro hne
    apply Haskell.pathParts_of_no_root
    rw [hpath]
    exact Route.root_notMem_ofSegments (mt hnil.2 hne)
  have hroot : rawComponents path = [] →
      (Haskell.endpointOf context operation).1.pathParts =
        if context.target.rootMarker = "" then [] else [.marker context.target.rootMarker] := by
    intro hempty
    apply Haskell.pathParts_of_root
    rw [hpath]
    exact Route.segments_ofSegments_of_no_steps (hnil.1 hempty)
  have htokens : rawComponents path ≠ [] →
      (Haskell.endpointOf context operation).1.pathTokens =
        operation.path.steps.map (Haskell.stepToken context operation) := by
    intro hne
    rw [Haskell.Endpoint.pathTokens, hparts hne, List.map_map]
    exact List.map_congr_left fun step _ => Haskell.text_stepPart context operation step
  have hmarker : rawComponents path = [] →
      (Haskell.endpointOf context operation).1.pathTokens =
        if context.target.rootMarker = "" then [] else [context.target.rootMarker] := by
    intro hempty
    rw [Haskell.Endpoint.pathTokens, hroot hempty]
    split <;> rfl
  refine ⟨⟨_, Haskell.otherParts_ne_nil context operation,
    Haskell.isPath_eq_false_of_mem_otherParts context operation,
    Haskell.parts_eq_pathParts_append context operation,
    Haskell.route_endpointOf context operation⟩, htokens, hmarker, ?_, ?_⟩
  · intro hmem
    have hpart : .literal "" ∈ (Haskell.endpointOf context operation).1.pathParts :=
      List.mem_filter.2 ⟨hmem, rfl⟩
    by_cases hempty : rawComponents path = []
    · rw [hroot hempty] at hpart
      split at hpart <;> simp at hpart
    · rw [hparts hempty] at hpart
      exact Haskell.literal_empty_notMem_map_stepPart context operation operation.path hpart
  · by_cases hempty : rawComponents path = []
    · rw [hmarker hempty, and_iff_right hempty]
      split
      · rename_i hunset
        simp [hunset, Haskell.literal]
      · rw [List.mem_singleton, eq_comm]
    · refine iff_of_false (fun hmem => ?_) fun h => hempty h.1
      rw [htokens hempty] at hmem
      obtain ⟨step, hstep, heq⟩ := List.mem_map.1 hmem
      obtain ⟨segment, -, hsegment⟩ := List.mem_flatMap.1 hstep
      refine Haskell.stepToken_ne_literal_empty ?_ ?_ heq
      · exact fun h => segment.root_notMem_steps (h ▸ hsegment)
      · exact fun h => operation.path.literal_empty_notMem_steps (h ▸ hstep)

namespace Lowering

/-- Whenever the route of an operation can be lowered, it tells the components of the raw path,
and every endpoint made from it writes them one for one and in order. -/
theorem lowerRoute_tells_and_writes (setting : Setting) (operation : OperationSite)
    (parameters : List Parameter) {state after : State} {route : Route}
    (h : (lowerRoute setting operation parameters).run.run state = some (.ok route, after)) :
    route.Tells setting.target.delimiter parameters operation.path ∧
      ∀ (context : RenderContext) (lowered : Operation), lowered.path = route →
        lowered.WritesPath context operation.path := by
  rw [lowerRoute_run] at h
  cases hsegments : (Text.splitOn '/' operation.path).mapM
      (segmentOf setting operation parameters) with
  | error error => simp [hsegments] at h
  | ok segments =>
    simp only [hsegments, Option.some.injEq, Prod.mk.injEq, Except.ok.injEq] at h
    obtain ⟨rfl, -⟩ := h
    have htells := Route.tells_of_mapM_segmentOf hsegments
    refine ⟨htells, ?_⟩
    intro context lowered hpath
    exact Operation.writesPath_of_tells hpath (hpath ▸ htells) context

/-- Doubled slashes, a mark without an end and a component that only mentions the mark. -/
theorem lowerRoute_tells_and_writes_colon :
    let setting : Setting := ⟨default, { Haskell.target with delimiter := ⟨":", ""⟩ }⟩
    let operation : OperationSite := ⟨"/users//:id/x:y/", .get, default, default⟩
    let id : Parameter := ⟨"id", "id", .path, true, .string, none, none⟩
    let route : Route := ⟨[.literal "users", .parameter "id" .string, .literal "x:y"]⟩
    (∃ after, (lowerRoute setting operation [id]).run.run .initial = some (.ok route, after)) ∧
      route.Tells setting.target.delimiter [id] operation.path ∧
      ∀ (context : RenderContext) (lowered : Operation), lowered.path = route →
        lowered.WritesPath context operation.path := by
  intro setting operation id route
  have hsegments : (Text.splitOn '/' operation.path).mapM (segmentOf setting operation [id]) =
      .ok [.literal "", .literal "users", .literal "", .parameter "id" .string, .literal "x:y",
        .literal ""] := by
    decide +kernel
  have hroute : Route.ofSegments [.literal "", .literal "users", .literal "",
      .parameter "id" .string, .literal "x:y", .literal ""] = route := by
    decide +kernel
  have hrun := lowerRoute_run setting operation [id] .initial
  rw [hsegments] at hrun
  simp only [hroute] at hrun
  exact ⟨⟨_, hrun⟩, lowerRoute_tells_and_writes setting operation [id] hrun⟩

/-- A root marker is written as it stands: one that is the empty literal is a token of the path. -/
theorem pathTokens_of_quoted_marker :
    let tree : Json := .object [
      ("info", .object []),
      ("paths", .object [("/", .object [("get", .object [])])])]
    let settings : TargetSettings := { rootMarker := some "\"\"" }
    let target := settings.apply Haskell.target
    ((Document.ofTree tree).toOption.bind fun document =>
      (run ⟨document, target⟩).bind fun result => result.outcome.toOption.map fun api =>
        api.operations.map fun operation =>
          let endpoint := (Haskell.endpointOf ⟨api, target⟩ operation).1
          (operation.rawPath, endpoint.pathTokens, endpoint.route)) =
      some [("/", [Haskell.literal ""], "\"\" :> Verb 'GET 200 '[JSON] NoContent")] := by
  decide +kernel

end Lowering

end ServantGen
