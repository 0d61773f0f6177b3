import Mathlib.Data.List.Basic
import ServantGen.Haskell.Endpoint
import ServantGen.Proofs.Route.Steps

/-!
# The path of an endpoint

The first parts of an endpoint are made from the segments of its route: one part for each step,
or the root marker alone. No part behind them belongs to the path.
-/

namespace ServantGen.Haskell

def RoutePart.isPath : RoutePart → Bool
  | .literal _ | .marker _ | .capture .. => true
  | .queryList .. | .value .. | .cookies | .body .. | .verb .. => false

def Endpoint.pathParts (endpoint : Endpoint) : List RoutePart :=
  endpoint.parts.filter RoutePart.isPath

/-- The path of an endpoint as it is written in the route type. -/
def Endpoint.pathTokens (endpoint : Endpoint) : List String :=
  endpoint.pathParts.map RoutePart.text

section Cases

/-! ## What the parts of an operation are -/

variable {context : RenderContext} {operation : Operation}

/-- A query parameter is sent as a list, if it is an array behind an option, or as a value. -/
@[elab_as_elim]
theorem queryPart_cases {motive : NotedPart → Prop} (parameter : Parameter)
    (list : ∀ item, parameter.type.stripOptional = .array item → ∀ subject,
      motive (.queryList parameter.rawName (wireType context.api.models item subject).1,
        (wireType context.api.models item subject).2))
    (value : ∀ subject,
      motive (.value .query parameter.rawName
          (wireType context.api.models parameter.type subject).1 parameter.required,
        (wireType context.api.models parameter.type subject).2)) :
    motive (queryPart context operation parameter) := by
  unfold queryPart
  dsimp only
  split
  · rename_i item hitem
    exact list item hitem _
  · exact value _

/-- The verb tells what a successful response carries, if there is one. -/
@[elab_as_elim]
theorem verbPart_cases {motive : NotedPart → Prop}
    (silent : operation.successResponse? = none →
      motive (.verb operation.method (successStatus operation) ⟨none, []⟩, []))
    (answer : ∀ response, operation.successResponse? = some response →
      motive (.verb operation.method (successStatus operation)
          ⟨response.type, (headerTypes context operation response.headers).map Prod.fst⟩,
        (headerTypes context operation response.headers).flatMap Prod.snd)) :
    motive (verbPart context operation) := by
  unfold verbPart
  split
  · exact silent ‹_›
  · exact answer _ ‹_›

theorem forall_mem_cookieParts {P : NotedPart → Prop} (h : P (.cookies, [])) :
    ∀ part ∈ cookieParts operation, P part := by
  unfold cookieParts
  split
  · simp
  · exact List.forall_mem_singleton.2 h

theorem forall_mem_bodyParts {P : NotedPart → Prop}
    (h : ∀ body ∈ operation.requestBody, P (.body body.type.stripOptional body.required, [])) :
    ∀ part ∈ bodyParts operation, P part := by
  unfold bodyParts
  split
  · exact List.forall_mem_singleton.2 (h _ ‹_›)
  · simp

end Cases

section Tokens

variable (context : RenderContext) (operation : Operation)

def stepPart : Segment → RoutePart
  | .literal component => .literal component
  | .parameter name type =>
    .capture name
      (wireType context.api.models type (subjectOf operation "path parameter" name)).1
  | .root => .marker context.target.rootMarker

theorem isPath_stepPart (step : Segment) : (stepPart context operation step).isPath = true := by
  cases step <;> rfl

/-- A segment other than the root becomes one part for each of its steps. -/
theorem segmentParts_of_ne_root {segment : Segment} (h : segment ≠ .root) :
    (segmentParts context operation segment).map Prod.fst =
      segment.steps.map (stepPart context operation) := by
  cases segment with
  | literal text =>
    rw [Segment.steps_literal, List.map_map]
    simp only [segmentParts, List.map_map]
    rfl
  | parameter name type => rfl
  | root => exact absurd rfl h

def otherParts : List RoutePart :=
  ((operation.parametersIn .query).map (queryPart context operation) ++
    (operation.parametersIn .header).map (headerPart context operation) ++
    cookieParts operation ++ bodyParts operation ++ [verbPart context operation]).map Prod.fst

theorem isPath_eq_false_of_mem_otherParts :
    ∀ part ∈ otherParts context operation, part.isPath = false := by
  simp only [otherParts, List.forall_mem_map, List.forall_mem_append, List.forall_mem_singleton]
  refine ⟨⟨⟨⟨fun parameter _ => ?_, fun _ _ => rfl⟩, ?_⟩, ?_⟩, ?_⟩
  · exact queryPart_cases parameter (fun _ _ _ => rfl) fun _ => rfl
  · exact forall_mem_cookieParts rfl
  · exact forall_mem_bodyParts fun _ _ => rfl
  · exact verbPart_cases (fun _ => rfl) fun _ _ => rfl

theorem parts_endpointOf :
    (endpointOf context operation).1.parts =
      operation.path.segments.flatMap (fun segment =>
        (segmentParts context operation segment).map Prod.fst) ++
        otherParts context operation := by
  simp only [endpointOf, routeParts, otherParts, List.append_assoc, List.map_append,
    List.map_flatMap]

/-- The path of an endpoint is what its segments become, and it comes first. -/
theorem pathParts_endpointOf :
    (endpointOf context operation).1.pathParts =
      operation.path.segments.flatMap fun segment =>
        (segmentParts context operation segment).map Prod.fst := by
  have hother : (otherParts context operation).filter RoutePart.isPath = [] := by
    rw [List.filter_eq_nil_iff]
    intro part hmem
    simp [isPath_eq_false_of_mem_otherParts context operation part hmem]
  rw [Endpoint.pathParts, parts_endpointOf, List.filter_append, hother, List.append_nil,
    List.filter_eq_self]
  intro part hmem
  obtain ⟨segment, -, hpart⟩ := List.mem_flatMap.1 hmem
  by_cases hroot : segment = .root
  · subst hroot
    unfold segmentParts at hpart
    dsimp only at hpart
    split at hpart
    · simp at hpart
    · obtain rfl := List.mem_singleton.1 hpart
      rfl
  · rw [segmentParts_of_ne_root context operation hroot] at hpart
    obtain ⟨step, -, rfl⟩ := List.mem_map.1 hpart
    exact isPath_stepPart context operation step

/-- The parts of the path come before all others. -/
theorem parts_eq_pathParts_append : (endpointOf context operation).1.parts =
    (endpointOf context operation).1.pathParts ++ otherParts context operation := by
  rw [pathParts_endpointOf, parts_endpointOf]

/-- There is always the part of the verb behind the path. -/
theorem otherParts_ne_nil : otherParts context operation ≠ [] := by
  simp [otherParts]

/-- The route type is written from the tokens of the path, each with an arrow behind it, and the
other parts. -/
theorem route_endpointOf : (endpointOf context operation).1.route =
    String.join ((endpointOf context operation).1.pathTokens.map (· ++ " :> ")) ++
      Text.join " :> " ((otherParts context operation).map RoutePart.text) := by
  rw [Endpoint.route, parts_eq_pathParts_append, List.map_append, Endpoint.pathTokens,
    Text.join_append _ _ (by simpa using otherParts_ne_nil context operation)]

theorem pathParts_of_no_root (h : Segment.root ∉ operation.path.segments) :
    (endpointOf context operation).1.pathParts =
      operation.path.steps.map (stepPart context operation) := by
  rw [pathParts_endpointOf, Route.steps, List.map_flatMap]
  apply List.flatMap_congr
  intro segment hmem
  exact segmentParts_of_ne_root context operation fun hroot => h (hroot ▸ hmem)

theorem pathParts_of_root (h : operation.path.segments = [.root]) :
    (endpointOf context operation).1.pathParts =
      if context.target.rootMarker = "" then [] else [.marker context.target.rootMarker] := by
  rw [pathParts_endpointOf, h, List.flatMap_singleton]
  unfold segmentParts
  dsimp only
  split <;> rfl

/-- The text of a step in the route type: a literal, or the capture of a parameter. -/
def stepToken : Segment → String
  | .literal component => literal component
  | .parameter name type =>
    "Capture " ++ literal name ++ " " ++ atomText
      (wireType context.api.models type (subjectOf operation "path parameter" name)).1
  | .root => context.target.rootMarker

theorem text_stepPart (step : Segment) :
    (stepPart context operation step).text = stepToken context operation step := by
  cases step <;> rfl

end Tokens

theorem escapeChar_ne_nil (c : Char) : escapeChar c ≠ [] := by
  unfold escapeChar
  split
  iterate 5 simp
  split <;> simp

/-- Only the empty text has the empty literal. -/
theorem literal_ne_literal_empty {text : String} (h : text ≠ "") : literal text ≠ literal "" := by
  intro heq
  have hbody : literalBody text.toList = [] := by
    have hchars := congrArg String.toList heq
    simpa [literal, literalBody] using hchars
  apply h
  rw [← String.toList_eq_nil_iff]
  cases hcs : text.toList with
  | nil => rfl
  | cons c rest =>
    rw [hcs] at hbody
    cases rest with
    | nil => exact absurd hbody (escapeChar_ne_nil c)
    | cons d rest =>
      simp only [literalBody, List.append_eq_nil_iff] at hbody
      exact absurd hbody.1.1 (escapeChar_ne_nil c)

theorem literal_empty_notMem_map_stepPart (context : RenderContext)
    (operation : Operation) (route : Route) :
    .literal "" ∉ route.steps.map (stepPart context operation) := by
  intro hmem
  obtain ⟨step, hstep, heq⟩ := List.mem_map.1 hmem
  cases step with
  | literal component =>
    obtain rfl := RoutePart.literal.inj heq
    exact route.literal_empty_notMem_steps hstep
  | parameter name type => simp [stepPart] at heq
  | root => simp [stepPart] at heq

theorem stepToken_ne_literal_empty {context : RenderContext} {operation : Operation}
    {step : Segment} (hroot : step ≠ .root) (hempty : step ≠ .literal "") :
    stepToken context operation step ≠ literal "" := by
  cases step with
  | literal component => exact literal_ne_literal_empty fun h => hempty (h ▸ rfl)
  | parameter name type =>
    -- A capture starts with a letter, a literal with a quote.
    intro heq
    have hchars := congrArg (fun text => text.toList.head?) heq
    simp [stepToken, literal] at hchars
  | root => exact absurd rfl hroot

end ServantGen.Haskell
