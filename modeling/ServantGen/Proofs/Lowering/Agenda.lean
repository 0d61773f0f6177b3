import ServantGen.Lowering.Run
import ServantGen.Proofs.Lowering.Calls
import ServantGen.Proofs.Lowering.Kinds
import ServantGen.Proofs.Outcomes
import ServantGen.Proofs.Route.Fidelity

/-!
# The agenda of a document

What lowering does to a document has an order that the document alone decides: calls for types,
and faults at which it stops. The agenda lists them. Lowering follows it: there is a result
exactly when the calls before the first fault are answered, and the result is that fault or,
without one, an interface.
-/

namespace ServantGen.Lowering

/-- An item of an agenda: a call for a type, or a fault. -/
inductive Item where
  | call (call : Call)
  | fault (error : BuildError)

/-- What lowering does in order. -/
abbrev Agenda := List Item

namespace Agenda

def fault? : Agenda → Option BuildError
  | [] => none
  | .call _ :: rest => fault? rest
  | .fault error :: _ => some error

def calls : Agenda → List Call
  | [] => []
  | .call call :: rest => call :: calls rest
  | .fault _ :: _ => []

def ofCalls (calls : List Call) : Agenda :=
  calls.map .call

def ofFaults (errors : List BuildError) : Agenda :=
  errors.map .fault

theorem fault?_append (left right : Agenda) :
    fault? (left ++ right) = (fault? left).or (fault? right) := by
  induction left with
  | nil => rfl
  | cons item rest ih =>
    cases item with
    | call call => exact ih
    | fault error => rfl

theorem calls_append_of_none {left : Agenda} (h : fault? left = none) (right : Agenda) :
    calls (left ++ right) = calls left ++ calls right := by
  induction left with
  | nil => rfl
  | cons item rest ih =>
    cases item with
    | call call => exact congrArg (call :: ·) (ih h)
    | fault error => simp [fault?] at h

theorem calls_append_of_some {left : Agenda} {error : BuildError} (h : fault? left = some error)
    (right : Agenda) : calls (left ++ right) = calls left := by
  induction left with
  | nil => simp [fault?] at h
  | cons item rest ih =>
    cases item with
    | call call => exact congrArg (call :: ·) (ih h)
    | fault error => rfl

theorem fault?_flatMap {α : Type} (agenda : α → Agenda) (items : List α) :
    fault? (items.flatMap agenda) = items.findSome? fun item => fault? (agenda item) := by
  induction items with
  | nil => rfl
  | cons item rest ih =>
    rw [List.flatMap_cons, fault?_append, ih, List.findSome?_cons]
    cases fault? (agenda item) <;> rfl

@[simp] theorem fault?_ofCalls (calls : List Call) : fault? (ofCalls calls) = none := by
  induction calls with
  | nil => rfl
  | cons call rest ih => exact ih

@[simp] theorem calls_ofCalls (list : List Call) : calls (ofCalls list) = list := by
  induction list with
  | nil => rfl
  | cons call rest ih => exact congrArg (call :: ·) ih

@[simp] theorem fault?_ofFaults (errors : List BuildError) :
    fault? (ofFaults errors) = errors.head? := by
  cases errors <;> rfl

@[simp] theorem calls_ofFaults (errors : List BuildError) : calls (ofFaults errors) = [] := by
  cases errors <;> rfl

/-- Go on with what was read, or stop where it cannot be read. -/
def reading {α : Type} (location : String) (outcome : Except ReadError α)
    (next : α → Agenda) : Agenda :=
  match outcome with
  | .ok value => next value
  | .error error => ofFaults [(BuildError.ofReadError error).located location]

end Agenda

/-! ## Computations that follow an agenda -/

variable {α β : Type} {document : Document} {answered : Call → Prop}

/-- From a state in which no reference is being followed, there is a result exactly when the
calls of the agenda are answered. It is the fault of the agenda, or else right. -/
def Follows (document : Document) (answered : Call → Prop) (agenda : Agenda) (m : OperationM α)
    (right : α → Prop) : Prop :=
  Contract (¬ ∀ call ∈ agenda.calls, answered call) (Following document 0) m.run
    fun outcome after => (∀ call ∈ agenda.calls, answered call) ∧ Following document 0 after ∧
      Outcomes.error? outcome = agenda.fault? ∧ ∀ value, outcome = .ok value → right value

namespace Follows

variable {agenda agenda' : Agenda} {m : OperationM α} {right : α → Prop}

theorem pure {value : α} (h : right value) :
    Follows document answered [] (pure value) right := by
  refine Contract.pure fun state hstate => ⟨by simp [Agenda.calls], hstate, rfl, ?_⟩
  rintro _ ⟨⟩
  exact h

theorem lift {m : SchemaM α} {calls : List Call}
    (h : Finishes document 0 m (∀ call ∈ calls, answered call))
    (hright : Contract True (fun _ => True) m fun value _ => right value) :
    Follows document answered (.ofCalls calls) (liftM m) right := by
  intro state hstate
  have hrun : (liftM m : OperationM α).run.run state =
      (Except.ok <$> m : SchemaM (Except BuildError α)).run state := rfl
  rw [hrun, StateT.run_map, Agenda.calls_ofCalls, Agenda.fault?_ofCalls]
  cases hm : m.run state with
  | none => exact h.no_result hstate hm
  | some result =>
    obtain ⟨value, after⟩ := result
    obtain ⟨hcalls, hafter⟩ := h.result hstate hm
    refine ⟨hcalls, hafter, rfl, ?_⟩
    rintro _ ⟨⟩
    exact hright.result trivial hm

theorem bind {next : α → OperationM β} {last : β → Prop}
    (first : Follows document answered agenda m right)
    (second : ∀ value, right value → Follows document answered agenda' (next value) last) :
    Follows document answered (agenda ++ agenda') (m >>= next) last := by
  intro state hstate
  rw [OperationM.run_bind]
  cases hrun : m.run.run state with
  | none =>
    have hstuck := first.no_result hstate hrun
    intro hcalls
    refine hstuck fun call hcall => hcalls call ?_
    cases hfault : agenda.fault? with
    | none =>
      rw [Agenda.calls_append_of_none hfault]
      exact List.mem_append_left _ hcall
    | some error => rwa [Agenda.calls_append_of_some hfault]
  | some result =>
    obtain ⟨outcome, middle⟩ := result
    obtain ⟨hcalls, hmiddle, hfault, hvalue⟩ := first.result hstate hrun
    cases outcome with
    | error error =>
      -- The second step is not reached, and its part of the agenda lies behind the fault.
      rw [Outcomes.error?_error] at hfault
      refine ⟨?_, hmiddle, ?_, by simp⟩
      · rwa [Agenda.calls_append_of_some hfault.symm]
      · rw [Agenda.fault?_append, ← hfault]
        rfl
    | ok value =>
      rw [Outcomes.error?_ok] at hfault
      rw [Agenda.calls_append_of_none hfault.symm, Agenda.fault?_append, ← hfault,
        Option.none_or]
      refine (second value (hvalue value rfl)).consequence ?_ (fun _ h => h) ?_ middle hmiddle
      · exact fun hstuck h => hstuck fun call hcall => h call (List.mem_append_right _ hcall)
      · rintro outcome after ⟨hmore, hafter⟩
        exact ⟨List.forall_mem_append.2 ⟨hcalls, hmore⟩, hafter⟩

/-- A last step without an agenda of its own adds nothing. -/
theorem before {next : α → OperationM β} {last : β → Prop}
    (first : Follows document answered agenda m right)
    (second : ∀ value, right value → Follows document answered [] (next value) last) :
    Follows document answered agenda (m >>= next) last := by
  have hbind := first.bind second
  rwa [List.append_nil] at hbind

theorem finish {change : α → β} {last : β → Prop} (h : Follows document answered agenda m right)
    (hlast : ∀ value, right value → last (change value)) :
    Follows document answered agenda (do return change (← m)) last :=
  h.before fun value hvalue => Follows.pure (hlast value hvalue)

/-- A lifted computation that takes no calls adds nothing to the agenda. -/
theorem after {m : SchemaM α} {next : α → OperationM β} {last : β → Prop}
    (first : Finishes document 0 m True)
    (second : ∀ value, Follows document answered agenda (next value) last) :
    Follows document answered agenda (liftM m >>= next) last := by
  have hlift : Follows document answered (.ofCalls []) (liftM m) fun _ => True :=
    lift (first.congr (by simp)) (Contract.any _ _)
  exact hlift.bind fun value _ => second value

theorem read {location : String} {outcome : Except ReadError α} {agenda : α → Agenda}
    {next : α → OperationM β} {last : β → Prop}
    (h : ∀ value, outcome = .ok value →
      Follows document answered (agenda value) (next value) last) :
    Follows document answered (.reading location outcome agenda)
      (orFail location outcome >>= next) last := by
  cases outcome with
  | ok value => exact h value rfl
  | error error =>
    refine fun state hstate => ⟨?_, hstate, rfl, by simp⟩
    simp [Agenda.reading, Agenda.calls, Agenda.ofFaults]

theorem mapM {items : List α} {each : α → Agenda} {action : α → OperationM β}
    (h : ∀ item ∈ items, Follows document answered (each item) (action item) fun _ => True) :
    Follows document answered (items.flatMap each) (items.mapM action) fun _ => True := by
  induction items with
  | nil => exact Follows.pure trivial
  | cons item items ih =>
    obtain ⟨hitem, hitems⟩ := List.forall_mem_cons.1 h
    rw [List.mapM_cons, List.flatMap_cons]
    refine hitem.bind ?_
    intro value _
    exact (ih hitems).finish fun _ _ => trivial

end Follows

/-! ## The agenda of an operation -/

def parameterCalls (parameter : Site) : List Call :=
  ((ParameterSite.schema? parameter).map fun schema => ⟨schema, 0⟩).toList

def isInBody (parameter : Site) : Bool :=
  Location.ofName? (ParameterSite.location parameter) == some .body

def binds (name : String) (parameter : Site) : Bool :=
  Location.ofName? (ParameterSite.location parameter) == some .path &&
    ParameterSite.name parameter == name

/-- The calls for the parameters of an operation. Of those that travel in the body, only the
first has a type, and none when there is a body already. -/
def parametersCalls : Bool → List Site → List Call
  | _, [] => []
  | hasBody, parameter :: rest =>
    match Location.ofName? (ParameterSite.location parameter) with
    | none => parametersCalls hasBody rest
    | some .body =>
      if hasBody then parametersCalls true rest
      else parameterCalls parameter ++ parametersCalls true rest
    | some _ => parameterCalls parameter ++ parametersCalls hasBody rest

/-- The first of some parameters calls for its type unless it is left out. -/
theorem parametersCalls_cons (hasBody : Bool) (parameter : Site) (rest : List Site) :
    parametersCalls hasBody (parameter :: rest) =
      match parameterKind parameter with
      | .unknown _ => parametersCalls hasBody rest
      | .body _ =>
        if hasBody then parametersCalls true rest
        else parameterCalls parameter ++ parametersCalls true rest
      | .own _ _ _ => parameterCalls parameter ++ parametersCalls hasBody rest := by
  cases parameterKind parameter with
  | own place hplace hbody =>
    cases place with
    | body => contradiction
    | _ => simp only [parametersCalls, hplace]
  | _ => simp only [parametersCalls, *]

def placeholders (delimiter : Delimiter) (path : String) : List String :=
  (Text.splitOn '/' path).filterMap delimiter.placeholder?

/-- The faults of a route: its placeholders without a path parameter of their name. -/
def routeFaults (setting : Setting) (operation : OperationSite) (parameters : List Site) :
    List BuildError :=
  ((placeholders setting.target.delimiter operation.path).filter fun name =>
    !parameters.any (binds name)).map
      (.unboundPathParameter operation.method.name operation.path)

def bodyAgenda (setting : Setting) (operation : OperationSite) (parameters : List Site) : Agenda :=
  if parameters.any isInBody then []
  else
    .reading (operationLocation operation) (operation.requestBody? setting.document) fun body =>
      .ofCalls ((body.bind BodySite.schema).map fun schema => ⟨schema, 0⟩).toList

/-- The agenda of a response: nothing when its key is no status. -/
def responseAgenda (setting : Setting) (location : String) (response : ResponseSite) : Agenda :=
  match Status.ofKey? response.status with
  | none => []
  | some _ =>
    .ofCalls (response.schema?.map fun schema => ⟨schema, 0⟩).toList ++
      .reading (location ++ ".responses." ++ response.status) (response.headers setting.document)
        fun headers => .ofCalls (headers.map fun (_, node) => ⟨(node.get? "schema").getD node, 0⟩)

def operationAgenda (setting : Setting) (operation : OperationSite) : Agenda :=
  let location := operationLocation operation
  .reading location (operation.parameters setting.document) fun parameters =>
    .ofCalls (parametersCalls false parameters) ++
      (.ofFaults (routeFaults setting operation parameters) ++
        (bodyAgenda setting operation parameters ++
          .reading location (operation.responses setting.document) fun responses =>
            responses.flatMap (responseAgenda setting location)))

section Operations

variable {setting : Setting} {find : TypeFinder}

theorem parameterType_finishes (hfind : Answers document answered find) (parameter : Site)
    (hint location : String) :
    Finishes document 0 (parameterType find parameter hint location)
      (∀ call ∈ parameterCalls parameter, answered call) := by
  unfold parameterType parameterCalls
  cases ParameterSite.schema? parameter with
  | some schema =>
    exact (hfind.site 0 schema hint location).congr List.forall_mem_singleton.symm
  | none =>
    exact (remarked_finishes _ _ _).congr (by simp)

theorem ownParameter_finishes (hfind : Answers document answered find) (operation : String)
    (place : Location) (parameter : Site) (location : String) (scope : NameScope) :
    Finishes document 0 (ownParameter setting find operation place parameter location scope)
      (∀ call ∈ parameterCalls parameter, answered call) := by
  refine (noted_finishes _ _).after ?_
  intro name
  exact (parameterType_finishes hfind parameter _ location).before fun _ => Finishes.pure _

theorem lowerParameters_finishes (hfind : Answers document answered find)
    (operation location : String) (scope : NameScope) (body : Option RequestBody)
    (sites : List Site) :
    Finishes document 0 (lowerParameters setting find operation location scope body sites)
      (∀ call ∈ parametersCalls body.isSome sites, answered call) := by
  induction sites generalizing scope body with
  | nil => exact (Finishes.pure _).congr (by simp [parametersCalls])
  | cons parameter rest ih =>
    rw [lowerParameters_cons, parametersCalls_cons]
    cases parameterKind parameter with
    | unknown => exact (remark_finishes _ _).after fun _ => ih scope body
    | body =>
      cases body with
      | some held => exact (remark_finishes _ _).after fun _ => ih scope (some held)
      | none =>
        refine Finishes.congr ?_ List.forall_mem_append.symm
        refine Finishes.bind ?_ fun body => ih scope (some body)
        exact (parameterType_finishes hfind parameter _ _).before fun _ => Finishes.pure _
    | own place =>
      refine Finishes.congr ?_ List.forall_mem_append.symm
      refine (ownParameter_finishes hfind operation place parameter _ scope).bind ?_
      rintro ⟨lowered, scope⟩
      exact (ih scope body).before fun _ => Finishes.pure _

/-- Which placeholders lowered parameters bind, and whether one of them is the body. -/
structure LoweredFrom (body : Bool) (sites : List Site) (lowered : LoweredParameters) : Prop where
  bound : ∀ name, (lowered.parameters.any fun p => p.location == .path && p.rawName == name) =
    sites.any (binds name)
  body : lowered.body.isSome = (body || sites.any isInBody)

theorem LoweredFrom.cons_own {body : Bool} {parameter : Site} {rest : List Site} {own : Parameter}
    {others : LoweredParameters}
    (hplace : Location.ofName? (ParameterSite.location parameter) = some own.location)
    (hbody : own.location ≠ .body) (hname : own.rawName = ParameterSite.name parameter)
    (h : LoweredFrom body rest others) :
    LoweredFrom body (parameter :: rest)
      { others with parameters := own :: others.parameters } where
  bound name := by
    rw [List.any_cons, List.any_cons, h.bound name, binds, hplace, hname, Option.some_beq_some]
  body := by
    have hnot : isInBody parameter = false := by
      rw [isInBody, hplace, Option.some_beq_some]
      exact beq_eq_false_iff_ne.2 hbody
    rw [List.any_cons, hnot, Bool.false_or]
    exact h.body

theorem ownParameter_returns (operation : String) (place : Location) (parameter : Site)
    (location : String) (scope : NameScope) :
    Contract True (fun _ => True)
      (ownParameter setting find operation place parameter location scope)
      fun result _ => result.1.location = place ∧
        result.1.rawName = ParameterSite.name parameter := by
  refine (Contract.any _ _).bind ?_
  intro name
  refine (Contract.any _ _).bind ?_
  intro type
  exact Contract.pure fun _ _ => ⟨rfl, rfl⟩

theorem lowerParameters_returns (operation location : String) (scope : NameScope)
    (body : Option RequestBody) (sites : List Site) :
    Contract True (fun _ => True)
      (lowerParameters setting find operation location scope body sites)
      fun lowered _ => LoweredFrom body.isSome sites lowered := by
  induction sites generalizing scope body with
  | nil => exact Contract.pure fun _ _ => ⟨by simp, by simp⟩
  | cons parameter rest ih =>
    rw [lowerParameters_cons]
    cases parameterKind parameter with
    | unknown hplace =>
      refine (Contract.any _ _).bind fun _ => (ih scope body).mono_post ?_
      intro lowered _ h
      exact ⟨by simp [h.bound, binds, hplace], by simp [h.body, isInBody, hplace]⟩
    | body hplace =>
      cases body with
      | some held =>
        refine (Contract.any _ _).bind fun _ => (ih scope (some held)).mono_post ?_
        intro lowered _ h
        exact ⟨by simp [h.bound, binds, hplace], by simp [h.body]⟩
      | none =>
        refine (Contract.any _ _).bind fun made => (ih scope (some made)).mono_post ?_
        intro lowered _ h
        exact ⟨by simp [h.bound, binds, hplace], by simp [h.body, isInBody, hplace]⟩
    | own place hplace hbody =>
      refine (ownParameter_returns operation place parameter _ scope).bind ?_
      rintro ⟨own, scope⟩
      refine Contract.with_entry ?_
      rintro entry ⟨rfl, hname⟩
      refine ((ih scope body).mono_pre fun _ _ => trivial).bind ?_
      intro others
      exact Contract.pure fun _ h => LoweredFrom.cons_own hplace hbody hname h

/-- A component fails when it is a placeholder without a path parameter of its name. -/
theorem error?_segmentOf (operation : OperationSite) (parameters : List Parameter)
    (component : String) :
    Outcomes.error? (segmentOf setting operation parameters component) =
      ((setting.target.delimiter.placeholder? component).filter fun name =>
        !parameters.any fun p => p.location == .path && p.rawName == name).map
          (.unboundPathParameter operation.method.name operation.path) := by
  unfold segmentOf
  cases setting.target.delimiter.placeholder? component with
  | none => rfl
  | some name =>
    simp only [Option.filter_some, ← List.isSome_find?]
    cases parameters.find? fun p => p.location == .path && p.rawName == name <;> rfl

/-- The fault of a route is that of its first placeholder which no parameter binds. -/
theorem head?_routeFaults (operation : OperationSite) {sites : List Site}
    {parameters : List Parameter}
    (hbound : ∀ name, (parameters.any fun p => p.location == .path && p.rawName == name) =
      sites.any (binds name)) :
    (routeFaults setting operation sites).head? = Outcomes.error?
      ((Text.splitOn '/' operation.path).mapM (segmentOf setting operation parameters)) := by
  rw [Outcomes.error?_mapM, routeFaults, placeholders]
  induction Text.splitOn '/' operation.path with
  | nil => rfl
  | cons component rest ih =>
    rw [List.findSome?_cons, error?_segmentOf, ← ih]
    cases hname : setting.target.delimiter.placeholder? component with
    | none => rw [List.filterMap_cons_none hname]; rfl
    | some name =>
      rw [List.filterMap_cons_some hname, List.filter_cons, Option.filter_some, hbound name]
      cases sites.any (binds name) <;> rfl

theorem lowerRoute_follows (operation : OperationSite) {sites : List Site}
    {parameters : List Parameter}
    (hbound : ∀ name, (parameters.any fun p => p.location == .path && p.rawName == name) =
      sites.any (binds name)) :
    Follows document answered (.ofFaults (routeFaults setting operation sites))
      (lowerRoute setting operation parameters) fun _ => True := by
  intro state hstate
  have hfault := @head?_routeFaults setting operation _ _ hbound
  rw [lowerRoute_run, Agenda.fault?_ofFaults, Agenda.calls_ofFaults, hfault]
  cases (Text.splitOn '/' operation.path).mapM (segmentOf setting operation parameters) with
  | error error => exact ⟨by simp, hstate, rfl, by simp⟩
  | ok segments => exact ⟨by simp, hstate.of_eq rfl rfl, rfl, by simp⟩

theorem bodyOf_follows (hfind : Answers setting.document answered find)
    (operation : OperationSite) (id : String) {sites : List Site} {body : Option RequestBody}
    (hbody : body.isSome = sites.any isInBody) :
    Follows setting.document answered (bodyAgenda setting operation sites)
      (bodyOf setting find operation id (operationLocation operation) body) fun _ => True := by
  unfold bodyAgenda bodyOf
  rw [← hbody]
  cases body with
  | some body => exact Follows.pure trivial
  | none =>
    refine Follows.read ?_
    rintro (_ | body) -
    · exact Follows.pure trivial
    · simp only [Option.bind_some]
      cases body.schema with
      | none => exact Follows.pure trivial
      | some schema =>
        refine (Follows.lift ?_ (Contract.any _ _)).finish fun _ _ => trivial
        exact (hfind.site 0 schema _ _).congr List.forall_mem_singleton.symm

theorem responseType_finishes (hfind : Answers document answered find) (response : ResponseSite)
    (hint location : String) :
    Finishes document 0 (responseType find response hint location)
      (∀ call ∈ (response.schema?.map fun schema => (⟨schema, 0⟩ : Call)).toList,
        answered call) := by
  unfold responseType
  cases response.schema? with
  | none => exact (Finishes.pure _).congr (by simp)
  | some schema =>
    refine Finishes.congr ?_ List.forall_mem_singleton.symm
    exact (hfind.site 0 schema hint location).before fun _ => Finishes.pure _

theorem lowerHeaders_finishes (hfind : Answers document answered find) (id location : String)
    (headers : List (String × Site)) :
    Finishes document 0 (lowerHeaders find id location headers)
      (∀ call ∈ headers.map fun (_, node) => (⟨(node.get? "schema").getD node, 0⟩ : Call),
        answered call) := by
  refine Finishes.congr (Finishes.mapM ?_) List.forall_mem_map.symm
  rintro ⟨name, node⟩ -
  exact (hfind.site 0 _ _ location).before fun _ => Finishes.pure _

theorem lowerResponse_follows (hfind : Answers setting.document answered find)
    (id location : String) (response : ResponseSite) :
    Follows setting.document answered (responseAgenda setting location response)
      (lowerResponse setting find id location response) fun _ => True := by
  unfold lowerResponse responseAgenda
  dsimp only
  cases Status.ofKey? response.status with
  | none => exact Follows.after (remark_finishes _ _) fun _ => Follows.pure trivial
  | some status =>
    refine (Follows.lift (responseType_finishes hfind response _ _) (Contract.any _ _)).bind ?_
    intro type _
    refine Follows.read ?_
    intro headers _
    exact (Follows.lift (lowerHeaders_finishes hfind id _ headers) (Contract.any _ _)).finish
      fun _ _ => trivial

/-- Lowering an operation follows its agenda. -/
theorem lowerOperation_follows (hfind : Answers setting.document answered find)
    (operation : OperationSite) :
    Follows setting.document answered (operationAgenda setting operation)
      (lowerOperation setting find operation) fun _ => True := by
  refine Follows.after (claimed_finishes _ _) ?_
  intro id
  refine Follows.read ?_
  intro sites _
  refine (Follows.lift (lowerParameters_finishes hfind id _ .empty none sites)
    (lowerParameters_returns id _ .empty none sites)).bind ?_
  intro lowered hlowered
  refine (lowerRoute_follows operation hlowered.bound).bind ?_
  intro route _
  refine (bodyOf_follows hfind operation id hlowered.body).bind ?_
  intro body _
  refine Follows.read ?_
  intro responses _
  exact (Follows.mapM fun response _ => lowerResponse_follows hfind id _ response).finish
    fun _ _ => trivial

end Operations

/-! ## The agenda of a document -/

def schemasCalls (document : Document) : List Call :=
  document.schemas.flatMap (modelCalls document 0 ·.2)

def operationsAgenda (setting : Setting) : Agenda :=
  match setting.document.operations with
  | .ok operations => operations.flatMap (operationAgenda setting)
  | .error error => .ofFaults [.ofReadError error]

/-- The agenda of a document: its named schemas, then its operations. -/
def documentAgenda (setting : Setting) : Agenda :=
  .ofCalls (schemasCalls setting.document) ++ operationsAgenda setting

section Document

variable {setting : Setting} {find : TypeFinder}

theorem lowerOperations_follows (hfind : Answers setting.document answered find) :
    Follows setting.document answered (operationsAgenda setting) (lowerOperations setting find)
      fun _ => True := by
  unfold lowerOperations operationsAgenda
  cases setting.document.operations with
  | ok operations => exact Follows.mapM fun operation _ => lowerOperation_follows hfind operation
  | error error => exact fun state hstate => ⟨by simp, hstate, rfl, by simp⟩

/-- Lowering a document follows its agenda. -/
theorem lowerWith_follows (hfind : Answers setting.document answered find) :
    Contract (¬ ∀ call ∈ (documentAgenda setting).calls, answered call) (· = State.initial)
      (lowerWith setting find).run fun outcome _ =>
        (∀ call ∈ (documentAgenda setting).calls, answered call) ∧
          Outcomes.error? outcome = (documentAgenda setting).fault? := by
  have hdeclare := (declareModels_following setting).consequence
    (False.elim : False → ¬ ∀ call ∈ (documentAgenda setting).calls, answered call)
    (fun _ h => h) fun _ _ h => h
  refine Contract.bindOutcome (Contract.lift hdeclare) ?_
  intro _
  have hlast : ∀ operations : List Operation, Follows setting.document answered [] (do
      let state ← get
      let info := setting.document.info
      return (⟨⟨info.title, info.version, info.description⟩, state.models, operations⟩ : Api))
      fun _ => True :=
    fun operations state hstate => ⟨by simp [Agenda.calls], hstate, rfl, by simp⟩
  have hrest : Follows setting.document answered (documentAgenda setting) _ fun _ => True :=
    (Follows.lift (lowerModels_finishes hfind) (Contract.any _ _)).bind fun _ _ =>
      (lowerOperations_follows hfind).before fun operations _ => hlast operations
  refine Contract.mono_post hrest ?_
  exact fun _ _ h => ⟨h.1, h.2.2.1⟩

end Document

end ServantGen.Lowering
