import ServantGen.Pipeline
import ServantGen.Proofs.Lowering.Termination

/-!
# When an interface can be made

Making an interface fails for reasons that are all about the frame of the document: its required
parts, and the path items, parameters, bodies, responses and headers that have to resolve. Types
of schemas never fail. What the agenda of an operation holds is here restated as conditions on
the document, and the error of a failed run is found in the document: it is the fault of the
first operation that does not meet the conditions.
-/

namespace ServantGen

/-! ## Conditions -/

/-- A chain of references from a site ends at a node. -/
def Document.Resolves (document : Document) (site : Site) : Prop :=
  ∃ target, document.resolve site = .ok target

structure OperationSite.Lowerable (document : Document) (delimiter : Delimiter)
    (operation : OperationSite) : Prop where
  /-- The parameters of the path item and of the operation resolve. -/
  parameters : ∀ site ∈ operation.declaredParameters, document.Resolves site
  /-- Every placeholder of the path has a path parameter of its name. -/
  placeholders : ∀ merged, operation.parameters document = .ok merged →
    ∀ name ∈ Lowering.placeholders delimiter operation.path, ∃ parameter ∈ merged,
      ParameterSite.location parameter = "path" ∧ ParameterSite.name parameter = name
  /-- The body resolves, unless a parameter is the body. -/
  body : ∀ merged, operation.parameters document = .ok merged →
    (∀ parameter ∈ merged, ParameterSite.location parameter ≠ "body" ∧
      ParameterSite.location parameter ≠ "formData") →
    ∀ site, operation.node.get? "requestBody" = some site → document.Resolves site
  /-- The responses resolve. -/
  responses : ∀ entry ∈ operation.node.membersAt "responses", document.Resolves entry.2
  /-- The headers of every response whose key is a status resolve. -/
  headers : ∀ entry ∈ operation.node.membersAt "responses",
    (Status.ofKey? entry.1).isSome = true → ∀ node, document.resolve entry.2 = .ok node →
      ∀ header ∈ node.membersAt "headers", document.Resolves header.2

/-- All that making an interface needs of a tree. -/
structure Json.Buildable (tree : Json) (delimiter : Delimiter) : Prop where
  root : tree.isObject = true
  info : (tree.get? "info").any Json.isObject = true
  paths : (tree.get? "paths").any Json.isObject = true
  /-- Every path item resolves to an object. -/
  items : ∀ entry ∈ (Site.root tree).membersAt "paths",
    ∃ item, Pointer.resolve tree entry.2 = .ok item ∧ item.node.isObject = true
  operations : ∀ document operations, Document.ofTree tree = .ok document →
    document.operations = .ok operations → ∀ operation ∈ operations,
      operation.Lowerable document delimiter

/-! ## Reading -/

section Reading

variable {document : Document} {operation : OperationSite}

theorem Site.isSome_members? (site : Site) : site.members?.isSome = site.node.isObject := by
  obtain ⟨address, node⟩ := site
  cases node <;> rfl

theorem Document.exists_ofTree_iff (tree : Json) :
    (∃ document, ofTree tree = .ok document) ↔ tree.isObject = true ∧
      (tree.get? "info").any Json.isObject = true ∧
      (tree.get? "paths").any Json.isObject = true := by
  have hpaths : (((Site.root tree).get? "paths").bind Site.members?).isSome =
      (tree.get? "paths").any Json.isObject := by
    rw [Site.get?, Site.step?, Site.root, Json.step?]
    cases tree.get? "paths" with
    | none => rfl
    | some node => exact Site.isSome_members? _
  rw [← hpaths]
  unfold ofTree
  cases tree.isObject <;> cases (tree.get? "info").any Json.isObject <;>
    cases ((Site.root tree).get? "paths").bind Site.members? <;> simp

theorem Document.exists_pathOperations_iff (path : String) (site : Site) :
    (∃ operations, document.pathOperations path site = .ok operations) ↔
      ∃ item, Pointer.resolve document.tree site = .ok item ∧ item.node.isObject = true := by
  unfold pathOperations
  cases Pointer.resolve document.tree site with
  | error reference => simp
  | ok item =>
    have hmembers := Site.isSome_members? item
    cases hitem : item.members? <;> rw [hitem] at hmembers <;> simp [← hmembers, hitem]

theorem Document.exists_operations_iff :
    (∃ operations, document.operations = .ok operations) ↔ ∀ entry ∈ document.paths,
      ∃ item, Pointer.resolve document.tree entry.2 = .ok item ∧ item.node.isObject = true := by
  refine Iff.trans Outcomes.exists_map_eq_ok_iff (Outcomes.exists_mapM_eq_ok_iff.trans ?_)
  exact forall₂_congr fun entry _ => exists_pathOperations_iff entry.1 entry.2

theorem OperationSite.exists_parameters_iff :
    (∃ merged, operation.parameters document = .ok merged) ↔
      ∀ site ∈ operation.declaredParameters, document.Resolves site :=
  Iff.trans Outcomes.exists_map_eq_ok_iff Outcomes.exists_mapM_eq_ok_iff

theorem OperationSite.exists_requestBody?_iff :
    (∃ body, operation.requestBody? document = .ok body) ↔
      ∀ site, operation.node.get? "requestBody" = some site → document.Resolves site := by
  unfold requestBody?
  cases operation.node.get? "requestBody" with
  | none => simp
  | some site =>
    refine Iff.trans Outcomes.exists_map_eq_ok_iff ?_
    simp [Document.Resolves]

theorem OperationSite.exists_responses_iff :
    (∃ responses, operation.responses document = .ok responses) ↔
      ∀ entry ∈ operation.node.membersAt "responses", document.Resolves entry.2 := by
  refine Iff.trans Outcomes.exists_mapM_eq_ok_iff ?_
  exact forall₂_congr fun entry _ => Outcomes.exists_map_eq_ok_iff

theorem ResponseSite.exists_headers_iff {response : ResponseSite} :
    (∃ headers, response.headers document = .ok headers) ↔
      ∀ entry ∈ response.node.membersAt "headers", document.Resolves entry.2 := by
  refine Iff.trans Outcomes.exists_mapM_eq_ok_iff ?_
  exact forall₂_congr fun entry _ => Outcomes.exists_map_eq_ok_iff

end Reading

/-! ## Faults of operations -/

namespace Lowering

variable {setting : Setting} {operation : OperationSite}

theorem Agenda.fault?_reading_eq_none_iff {α : Type} {location : String}
    {outcome : Except ReadError α} {next : α → Agenda} :
    (Agenda.reading location outcome next).fault? = none ↔
      ∃ value, outcome = .ok value ∧ (next value).fault? = none := by
  cases outcome with
  | ok value => simp [Agenda.reading]
  | error error => simp [Agenda.reading]

theorem binds_iff {name : String} {parameter : Site} :
    binds name parameter = true ↔
      ParameterSite.location parameter = "path" ∧ ParameterSite.name parameter = name := by
  unfold binds Location.ofName?
  split <;> simp_all

theorem isInBody_iff {parameter : Site} :
    isInBody parameter = true ↔ ParameterSite.location parameter = "body" ∨
      ParameterSite.location parameter = "formData" := by
  unfold isInBody Location.ofName?
  split <;> simp_all

theorem routeFaults_eq_nil_iff {merged : List Site} :
    routeFaults setting operation merged = [] ↔
      ∀ name ∈ placeholders setting.target.delimiter operation.path, ∃ parameter ∈ merged,
        ParameterSite.location parameter = "path" ∧ ParameterSite.name parameter = name := by
  rw [routeFaults, List.map_eq_nil_iff, List.filter_eq_nil_iff]
  refine forall₂_congr fun name _ => ?_
  rw [Bool.not_eq_true', Bool.not_eq_false, List.any_eq_true]
  simp only [binds_iff]

theorem fault?_bodyAgenda_eq_none_iff {merged : List Site} :
    (bodyAgenda setting operation merged).fault? = none ↔
      ((∀ parameter ∈ merged, ParameterSite.location parameter ≠ "body" ∧
          ParameterSite.location parameter ≠ "formData") →
        ∀ site, operation.node.get? "requestBody" = some site →
          setting.document.Resolves site) := by
  rw [← OperationSite.exists_requestBody?_iff]
  have hbody : (∀ parameter ∈ merged, ParameterSite.location parameter ≠ "body" ∧
      ParameterSite.location parameter ≠ "formData") ↔ merged.any isInBody = false := by
    rw [List.any_eq_false]
    simp only [isInBody_iff, not_or, ne_eq]
  rw [hbody]
  unfold bodyAgenda
  cases merged.any isInBody with
  | true => simp [Agenda.fault?]
  | false => simp [Agenda.fault?_reading_eq_none_iff]

theorem fault?_responseAgenda_eq_none_iff {location : String} {response : ResponseSite} :
    (responseAgenda setting location response).fault? = none ↔
      ((Status.ofKey? response.status).isSome = true →
        ∀ header ∈ response.node.membersAt "headers", setting.document.Resolves header.2) := by
  rw [← ResponseSite.exists_headers_iff]
  unfold responseAgenda
  cases Status.ofKey? response.status with
  | none => simp [Agenda.fault?]
  | some status => simp [Agenda.fault?_append, Agenda.fault?_reading_eq_none_iff]

theorem fault?_responses_eq_none_iff {location : String} {responses : List ResponseSite}
    (h : operation.responses setting.document = .ok responses) :
    Agenda.fault? (responses.flatMap (responseAgenda setting location)) = none ↔
      ∀ entry ∈ operation.node.membersAt "responses", (Status.ofKey? entry.1).isSome = true →
        ∀ node, setting.document.resolve entry.2 = .ok node →
          ∀ header ∈ node.membersAt "headers", setting.document.Resolves header.2 := by
  rw [Agenda.fault?_flatMap, List.findSome?_eq_none_iff]
  simp only [fault?_responseAgenda_eq_none_iff]
  refine (Outcomes.forall_mem_mapM_iff h).trans (forall₂_congr fun entry _ => ?_)
  constructor
  · intro hall hstatus node hnode
    exact hall ⟨entry.1, node⟩ (by simp [hnode]) hstatus
  · intro hall response hresponse hstatus
    obtain ⟨node, hnode, rfl⟩ := Outcomes.exists_of_map_eq_ok hresponse
    exact hall hstatus node hnode

/-- The agenda of an operation has no fault exactly when the operation can be lowered. -/
theorem fault?_operationAgenda_eq_none_iff :
    (operationAgenda setting operation).fault? = none ↔
      operation.Lowerable setting.document setting.target.delimiter := by
  unfold operationAgenda
  simp only [Agenda.fault?_reading_eq_none_iff, Agenda.fault?_append, Option.or_eq_none_iff,
    Agenda.fault?_ofCalls, Agenda.fault?_ofFaults, List.head?_eq_none_iff, true_and,
    routeFaults_eq_nil_iff, fault?_bodyAgenda_eq_none_iff]
  constructor
  · rintro ⟨merged, hmerged, hplaceholders, hbody, responses, hresponses, hheaders⟩
    refine ⟨OperationSite.exists_parameters_iff.1 ⟨merged, hmerged⟩, ?_, ?_,
      OperationSite.exists_responses_iff.1 ⟨responses, hresponses⟩,
      (fault?_responses_eq_none_iff hresponses).1 hheaders⟩
    · intro other hother
      obtain rfl := Except.ok.inj (hmerged.symm.trans hother)
      exact hplaceholders
    · intro other hother
      obtain rfl := Except.ok.inj (hmerged.symm.trans hother)
      exact hbody
  · intro h
    obtain ⟨merged, hmerged⟩ := OperationSite.exists_parameters_iff.2 h.parameters
    obtain ⟨responses, hresponses⟩ := OperationSite.exists_responses_iff.2 h.responses
    exact ⟨merged, hmerged, h.placeholders merged hmerged, h.body merged hmerged, responses,
      hresponses, (fault?_responses_eq_none_iff hresponses).2 h.headers⟩

/-- Wherever lowering an operation ends, it ends with the error. -/
def FailsWith (setting : Setting) (operation : OperationSite) (error : BuildError) : Prop :=
  ∀ depth state outcome after, Following setting.document 0 state →
    (lowerOperation setting (typeOf setting depth) operation).run.run state =
      some (outcome, after) → outcome = .error error

theorem failsWith_of_fault? {error : BuildError}
    (h : (operationAgenda setting operation).fault? = some error) :
    FailsWith setting operation error := by
  intro depth state outcome after hstate hrun
  have hfollows := lowerOperation_follows (answers_typeOf setting depth) operation
  obtain ⟨-, -, hfault, -⟩ := hfollows.result hstate hrun
  rw [h] at hfault
  cases outcome with
  | ok lowered => simp at hfault
  | error own => exact congrArg Except.error (Option.some.inj hfault)

/-- The fault of a document that can be read is that of its first operation with one. -/
theorem fault?_documentAgenda {operations : List OperationSite}
    (h : setting.document.operations = .ok operations) :
    (documentAgenda setting).fault? = operations.findSome? fun operation =>
      (operationAgenda setting operation).fault? := by
  rw [documentAgenda, Agenda.fault?_append, Agenda.fault?_ofCalls, Option.none_or,
    operationsAgenda, h]
  exact Agenda.fault?_flatMap _ _

/-- When lowering ends it ends with the fault of the document, if there is one. -/
theorem exists_run_eq_some (hpaths : setting.document.PathsInTree) (hends : Ends setting) :
    ∃ outcome notices, run setting = some ⟨outcome, notices⟩ ∧
      Outcomes.error? outcome = (documentAgenda setting).fault? := by
  obtain ⟨⟨outcome, notices⟩, hrun⟩ := Option.isSome_iff_exists.1 (isSome_run_of_ends hpaths hends)
  refine ⟨outcome, notices, hrun, ?_⟩
  obtain ⟨⟨own, after⟩, hlower, hresult⟩ := Option.map_eq_some_iff.1 hrun
  obtain rfl : own = outcome := congrArg Result.outcome hresult
  have hfollows := lowerWith_follows (answers_typeOf setting setting.depth)
  exact (hfollows.result rfl hlower).2

/-- A run that was computed: an interface of which a view is known. -/
theorem exists_run_of_view {γ : Type} {tree : Json} {target : Target}
    {view : Document → Api → γ} {value : γ}
    (h : ((Document.ofTree tree).toOption.bind fun document =>
      (run ⟨document, target⟩).bind fun result =>
        result.outcome.toOption.map (view document)) = some value) :
    ∃ document api notices, Document.ofTree tree = .ok document ∧
      run ⟨document, target⟩ = some ⟨.ok api, notices⟩ ∧ view document api = value := by
  obtain ⟨document, hdocument, hresult⟩ := Option.bind_eq_some_iff.1 h
  obtain ⟨⟨outcome, notices⟩, hrun, hview⟩ := Option.bind_eq_some_iff.1 hresult
  obtain ⟨api, houtcome, hvalue⟩ := Option.map_eq_some_iff.1 hview
  obtain rfl : outcome = .ok api := Outcomes.toOption_eq_some_iff.1 houtcome
  exact ⟨document, api, notices, Outcomes.toOption_eq_some_iff.1 hdocument, hrun, hvalue⟩

end Lowering

/-! ## Building -/

/-- Without plugins and further phases: reading, then lowering. -/
theorem buildApi_eq (tree : Json) (target : Target) :
    buildApi tree target =
      match Document.ofTree tree with
      | .error error => .error ⟨.failed (.build (.ofReadError error)), []⟩
      | .ok document =>
        match document.operations with
        | .error error => .error ⟨.failed (.build (.ofReadError error)), []⟩
        | .ok _ =>
          match Lowering.run ⟨document, target⟩ with
          | none => .error ⟨.endless, []⟩
          | some ⟨.ok api, notices⟩ => .ok ⟨api, notices.map Lowering.Notice.toDiagnostic⟩
          | some ⟨.error error, notices⟩ => .error ⟨.failed (.build error),
              notices.map Lowering.Notice.toDiagnostic ++
                [error.toDiagnostic Lowering.phaseName]⟩ := by
  unfold buildApi buildApiWith runPhases readPhase lowerPhase Phase.runWith
  cases Document.ofTree tree with
  | error error => rfl
  | ok document =>
    have hread : (Except.ok document >>= Document.operations) = document.operations := rfl
    simp only [hread, pure_bind]
    cases document.operations with
    | error error => rfl
    | ok operations =>
      cases Lowering.run ⟨document, target⟩ with
      | none => rfl
      | some result =>
        obtain ⟨outcome, notices⟩ := result
        cases outcome <;> rfl

/-- Without plugins nothing but the document and the target matters. -/
theorem buildApiWith_nil {σ : Type} (tree : Json) (target : Target) (own : σ) :
    buildApiWith tree target ([] : List (Plugin σ)) own = (buildApi tree target, own) := by
  unfold buildApi buildApiWith runPhases readPhase lowerPhase Phase.runWith
  cases Document.ofTree tree with
  | error error => rfl
  | ok document =>
    have hread : (Except.ok document >>= Document.operations) = document.operations := rfl
    simp only [hread, pure_bind]
    cases document.operations with
    | error error => rfl
    | ok operations =>
      cases Lowering.run ⟨document, target⟩ with
      | none => rfl
      | some result =>
        obtain ⟨outcome, notices⟩ := result
        cases outcome <;> rfl

/-- A document whose operations can be read fails with the fault of its first operation with
one, and otherwise becomes an interface. -/
theorem buildApi_of_operations {tree : Json} {target : Target} {document : Document}
    {operations : List OperationSite} (hdocument : Document.ofTree tree = .ok document)
    (hoperations : document.operations = .ok operations)
    (hends : Lowering.Ends ⟨document, target⟩) :
    match operations.findSome? fun operation =>
        (Lowering.operationAgenda ⟨document, target⟩ operation).fault? with
    | none => ∃ built, buildApi tree target = .ok built
    | some error => ∃ failure, buildApi tree target = .error failure ∧
        failure.reason = .failed (.build error) := by
  obtain ⟨outcome, notices, hrun, hfault⟩ :=
    Lowering.exists_run_eq_some (Document.pathsInTree_of_ofTree hdocument) hends
  rw [Lowering.fault?_documentAgenda hoperations] at hfault
  rw [← hfault, buildApi_eq, hdocument]
  simp only [hoperations, hrun]
  cases outcome with
  | ok api => exact ⟨_, rfl⟩
  | error error => exact ⟨_, rfl, rfl⟩

section Building

variable {tree : Json} {target : Target} {document : Document} {operations : List OperationSite}

theorem lowerable_iff {operation : OperationSite} :
    operation.Lowerable document target.delimiter ↔
      (Lowering.operationAgenda ⟨document, target⟩ operation).fault? = none :=
  (@Lowering.fault?_operationAgenda_eq_none_iff ⟨document, target⟩ operation).symm

theorem exists_operations_of_buildApi {built : BuiltApi} (h : buildApi tree target = .ok built) :
    ∃ document operations, Document.ofTree tree = .ok document ∧
      document.operations = .ok operations := by
  rw [buildApi_eq] at h
  cases hdocument : Document.ofTree tree with
  | error error => simp [hdocument] at h
  | ok document =>
    cases hoperations : document.operations with
    | error error => simp [hdocument, hoperations] at h
    | ok operations => exact ⟨document, operations, rfl, hoperations⟩

/-- An interface that is made comes from lowering, and so does all that is recorded with it. -/
theorem exists_run_of_buildApi {built : BuiltApi} (h : buildApi tree target = .ok built) :
    ∃ document notices, Document.ofTree tree = .ok document ∧
      Lowering.run ⟨document, target⟩ = some ⟨.ok built.api, notices⟩ ∧
      built.diagnostics = notices.map Lowering.Notice.toDiagnostic := by
  obtain ⟨document, operations, hdocument, hoperations⟩ := exists_operations_of_buildApi h
  rw [buildApi_eq, hdocument] at h
  simp only [hoperations] at h
  cases hrun : Lowering.run ⟨document, target⟩ with
  | none => simp [hrun] at h
  | some result =>
    obtain ⟨outcome, notices⟩ := result
    cases outcome with
    | error error => simp [hrun] at h
    | ok api =>
      simp only [hrun] at h
      obtain rfl := Except.ok.inj h
      exact ⟨document, notices, hdocument, hrun, rfl⟩

theorem exists_operations_of_buildable {delimiter : Delimiter} (h : tree.Buildable delimiter) :
    ∃ document operations, Document.ofTree tree = .ok document ∧
      document.operations = .ok operations := by
  obtain ⟨document, hdocument⟩ := (Document.exists_ofTree_iff tree).2 ⟨h.root, h.info, h.paths⟩
  obtain rfl := Document.eq_of_ofTree hdocument
  have hitems : ∃ operations, (⟨tree, (Site.root tree).membersAt "paths"⟩ : Document).operations =
      .ok operations := Document.exists_operations_iff.2 h.items
  obtain ⟨operations, hoperations⟩ := hitems
  exact ⟨_, operations, hdocument, hoperations⟩

/-- What is left to ask of a tree whose operations can be read. -/
theorem buildable_iff (hdocument : Document.ofTree tree = .ok document)
    (hoperations : document.operations = .ok operations) {delimiter : Delimiter} :
    tree.Buildable delimiter ↔
      ∀ operation ∈ operations, operation.Lowerable document delimiter := by
  refine ⟨fun h => h.operations document operations hdocument hoperations, fun h => ?_⟩
  obtain ⟨hroot, hinfo, hpaths⟩ := (Document.exists_ofTree_iff tree).1 ⟨document, hdocument⟩
  have hitems := Document.exists_operations_iff.1 ⟨operations, hoperations⟩
  refine ⟨hroot, hinfo, hpaths, ?_, ?_⟩
  · rwa [Document.eq_of_ofTree hdocument] at hitems
  · intro other more hother hmore
    obtain rfl := Except.ok.inj (hdocument.symm.trans hother)
    obtain rfl := Except.ok.inj (hoperations.symm.trans hmore)
    exact h

theorem exists_buildApi_iff (hdocument : Document.ofTree tree = .ok document)
    (hoperations : document.operations = .ok operations)
    (hends : Lowering.Ends ⟨document, target⟩) :
    (∃ built, buildApi tree target = .ok built) ↔
      ∀ operation ∈ operations, operation.Lowerable document target.delimiter := by
  simp only [lowerable_iff, ← List.findSome?_eq_none_iff]
  have hresult := buildApi_of_operations hdocument hoperations hends
  cases hfault : operations.findSome? fun operation =>
      (Lowering.operationAgenda ⟨document, target⟩ operation).fault? with
  | none => exact iff_of_true (by simpa only [hfault] using hresult) rfl
  | some error =>
    rw [hfault] at hresult
    obtain ⟨failure, hfailure, -⟩ := hresult
    exact iff_of_false (by simp [hfailure]) (by simp)

/-- A failed run has the fault of the first operation that cannot be lowered. -/
theorem exists_fault_of_buildApi (hdocument : Document.ofTree tree = .ok document)
    (hoperations : document.operations = .ok operations)
    (hends : Lowering.Ends ⟨document, target⟩) {failure : RunFailure}
    (hfailure : buildApi tree target = .error failure) :
    ∃ before operation after error, operations = before ++ operation :: after ∧
      (∀ earlier ∈ before, earlier.Lowerable document target.delimiter) ∧
      ¬ operation.Lowerable document target.delimiter ∧
      (Lowering.operationAgenda ⟨document, target⟩ operation).fault? = some error ∧
      Lowering.FailsWith ⟨document, target⟩ operation error ∧
      failure.reason = .failed (.build error) := by
  have hresult := buildApi_of_operations hdocument hoperations hends
  cases hfault : operations.findSome? fun operation =>
      (Lowering.operationAgenda ⟨document, target⟩ operation).fault? with
  | none =>
    rw [hfault] at hresult
    obtain ⟨built, hbuilt⟩ := hresult
    simp [hfailure] at hbuilt
  | some error =>
    rw [hfault] at hresult
    obtain ⟨own, hown, herror⟩ := hresult
    obtain rfl := Except.error.inj (hfailure.symm.trans hown)
    obtain ⟨before, operation, after, rfl, hoperation, hbefore⟩ :=
      List.findSome?_eq_some_iff.1 hfault
    refine ⟨before, operation, after, error, rfl, ?_, ?_, hoperation,
      Lowering.failsWith_of_fault? hoperation, herror⟩
    · exact fun earlier hmem => lowerable_iff.2 (hbefore earlier hmem)
    · rw [lowerable_iff, hoperation]
      simp

end Building

/-- Where lowering ends, an interface is made exactly when the tree meets the conditions. A
document whose operations can be read fails only with the fault of the first operation that does
not meet them. -/
theorem buildApi_ok_iff_buildable (tree : Json) (target : Target)
    (hends : ∀ document, Document.ofTree tree = .ok document →
      Lowering.Ends ⟨document, target⟩) :
    ((∃ built, buildApi tree target = .ok built) ↔ tree.Buildable target.delimiter) ∧
    ∀ document operations failure, Document.ofTree tree = .ok document →
      document.operations = .ok operations → buildApi tree target = .error failure →
      ∃ before operation after error, operations = before ++ operation :: after ∧
        (∀ earlier ∈ before, earlier.Lowerable document target.delimiter) ∧
        ¬ operation.Lowerable document target.delimiter ∧
        (Lowering.operationAgenda ⟨document, target⟩ operation).fault? = some error ∧
        Lowering.FailsWith ⟨document, target⟩ operation error ∧
        failure.reason = .failed (.build error) := by
  refine ⟨⟨?_, ?_⟩, ?_⟩
  · rintro ⟨built, hbuilt⟩
    obtain ⟨document, operations, hdocument, hoperations⟩ := exists_operations_of_buildApi hbuilt
    rw [buildable_iff hdocument hoperations]
    exact (exists_buildApi_iff hdocument hoperations (hends document hdocument)).1 ⟨built, hbuilt⟩
  · intro h
    obtain ⟨document, operations, hdocument, hoperations⟩ := exists_operations_of_buildable h
    rw [buildable_iff hdocument hoperations] at h
    exact (exists_buildApi_iff hdocument hoperations (hends document hdocument)).2 h
  · intro document operations failure hdocument hoperations hfailure
    exact exists_fault_of_buildApi hdocument hoperations (hends document hdocument) hfailure

/-- References that lead nowhere do no harm in a schema, in a body that a parameter replaces and
in the headers of a response that is left out. -/
theorem buildApi_ok_iff_buildable_hidden :
    let nowhere : Json := .object [("$ref", .string "#/nowhere")]
    let tree : Json := .object [("info", .object []), ("paths", .object [("/\x7bid\x7d", .object [
      ("parameters", .array [
        .object [("name", .string "id"), ("in", .string "path"), ("schema", nowhere)],
        .object [("name", .string "form"), ("in", .string "formData")]]),
      ("post", .object [("requestBody", nowhere), ("responses", .object [
        ("none", .object [("headers", .object [("h", nowhere)])])])])])])]
    (∀ document, Document.ofTree tree = .ok document →
      Lowering.Ends ⟨document, Haskell.target⟩) ∧
    (∃ built, buildApi tree Haskell.target = .ok built) ∧ tree.Buildable .braces := by
  intro nowhere tree
  have hends : ∀ document, Document.ofTree tree = .ok document →
      Lowering.Ends ⟨document, Haskell.target⟩ := by
    intro document hdocument
    rw [Document.eq_of_ofTree hdocument]
    exact ⟨8, by decide +kernel⟩
  have hbuilt : (buildApi tree Haskell.target).toOption.isSome = true := by
    decide +kernel
  obtain ⟨built, hbuilt⟩ := Option.isSome_iff_exists.1 hbuilt
  have hok := Outcomes.toOption_eq_some_iff.1 hbuilt
  obtain ⟨hiff, -⟩ := buildApi_ok_iff_buildable tree Haskell.target hends
  exact ⟨hends, ⟨built, hok⟩, hiff.1 ⟨built, hok⟩⟩

end ServantGen
