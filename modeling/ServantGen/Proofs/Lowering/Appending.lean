import ServantGen.Proofs.Document.Appending
import ServantGen.Proofs.Ledger.Api
import ServantGen.Proofs.Lowering.Kinds
import ServantGen.Proofs.Lowering.Termination
import ServantGen.Proofs.Lowering.TwoRuns

/-!
# Appending an operation renames nothing

What lowering keeps flows forward in the order of the document: what is claimed, added and remarked
for an operation depends on what stands before it and on nothing behind it. So a path that is put
behind the others leaves the operations, the models and the notices that were there as they are.
Two things depend on the size of the whole document and have to be shown not to matter: how deep
properties are gathered, and how deep the recursion over schemas may go.
-/

namespace ServantGen.Lowering

variable {document other : Document}

/-! ## Gathering properties -/

namespace Gathered

def unvisited (document : Document) (visited : List Address) : List Site :=
  document.tree.sites.filter fun site => !visited.contains site.address

theorem length_unvisited_le {visited more : List Address} (h : visited ⊆ more) :
    (unvisited document more).length ≤ (unvisited document visited).length := by
  refine (List.monotone_filter_right _ fun site hsite => ?_).length_le
  simp only [Bool.not_eq_true', ← Bool.not_eq_true, List.contains_iff_mem] at hsite ⊢
  exact fun hmem => hsite (h hmem)

/-- A visit leaves fewer sites to be visited. -/
theorem length_unvisited_cons_lt {site : Site} {visited : List Address}
    (hsite : site ∈ document.tree.sites) (hnew : site.address ∉ visited) :
    (unvisited document (site.address :: visited)).length <
      (unvisited document visited).length := by
  have hfilter : unvisited document (site.address :: visited) =
      (unvisited document visited).filter fun own => own.address ≠ site.address := by
    rw [unvisited, unvisited, List.filter_filter]
    refine List.filter_congr fun own _ => ?_
    by_cases heq : own.address = site.address <;> simp [heq]
  rw [hfilter]
  refine List.length_filter_lt_length_iff_exists.2 ⟨site, ?_, by simp⟩
  exact List.mem_filter.2 ⟨hsite, by simpa using hnew⟩

/-- What was visited stays visited. -/
theorem visited_subset_gather (depth : Nat) (site : Site) (gathered : Gathered) :
    gathered.visited ⊆ (gather document depth site gathered).visited := by
  induction depth generalizing site gathered with
  | zero => exact List.Subset.refl _
  | succ depth ih =>
    unfold gather
    split
    · exact List.Subset.refl _
    · rename_i schema _
      split
      · exact List.Subset.refl _
      · refine List.Subset.trans (List.subset_cons_self schema.address _) ?_
        refine List.foldlRecOn (motive := fun more : Gathered =>
          schema.address :: gathered.visited ⊆ more.visited) _ _ (List.Subset.refl _) ?_
        exact fun more hmore part _ => List.Subset.trans hmore (ih part more)

/-- Parts are gathered alike if each of them is, whatever was gathered before. -/
theorem foldl_congr {parts : List Site} {step step' : Gathered → Site → Gathered}
    {P : Gathered → Prop} (hstep : ∀ part ∈ parts, ∀ gathered, P gathered →
      step gathered part = step' gathered part ∧ P (step gathered part))
    {gathered : Gathered} (h : P gathered) :
    parts.foldl step gathered = parts.foldl step' gathered := by
  induction parts generalizing gathered with
  | nil => rfl
  | cons part parts ih =>
    obtain ⟨hpart, hparts⟩ := List.forall_mem_cons.1 hstep
    obtain ⟨heq, hnext⟩ := hpart gathered h
    rw [List.foldl_cons, List.foldl_cons, ← heq]
    exact ih hparts hnext

/-- Any depth beyond the number of sites that were not visited gathers the same. -/
theorem gather_eq_of_lt {depth depth' : Nat} {site : Site} {gathered : Gathered}
    (hsite : site ∈ document.tree.sites)
    (h : (unvisited document gathered.visited).length < depth)
    (h' : (unvisited document gathered.visited).length < depth') :
    gather document depth site gathered = gather document depth' site gathered := by
  induction depth generalizing depth' site gathered with
  | zero => omega
  | succ depth ih =>
    obtain ⟨less, rfl⟩ := Nat.exists_eq_succ_of_ne_zero (Nat.ne_zero_of_lt h')
    unfold gather
    cases hresolve : document.resolve site with
    | error error => rfl
    | ok schema =>
      have hschema := Document.mem_of_resolve hsite hresolve
      dsimp only
      split
      · rfl
      · rename_i hnew
        have hfewer := length_unvisited_cons_lt hschema hnew
        refine congrArg (addOwn schema) ?_
        refine foldl_congr (P := fun more => (unvisited document more.visited).length ≤
          (unvisited document (schema.address :: gathered.visited)).length) ?_ le_rfl
        intro part hpart more hmore
        refine ⟨ih (Site.mem_of_itemsAt hschema hpart) (by omega) (by omega), ?_⟩
        exact (length_unvisited_le (visited_subset_gather depth part more)).trans hmore

end Gathered

end ServantGen.Lowering

namespace ServantGen.Document.FoundIn

open Lowering Gathered

variable {document other : Document} (h : document.FoundIn other)
include h

theorem gather_eq (depth : Nat) {site : Site} (gathered : Gathered)
    (hsite : site ∈ document.tree.sites) :
    gather other depth site gathered = gather document depth site gathered := by
  induction depth generalizing site gathered with
  | zero => rfl
  | succ depth ih =>
    unfold gather
    rw [h.resolve_eq hsite]
    cases hresolve : document.resolve site with
    | error error => rfl
    | ok schema =>
      have hschema := mem_of_resolve hsite hresolve
      dsimp only
      split
      · rfl
      · refine congrArg (addOwn schema) (foldl_congr (P := fun _ => True) ?_ trivial)
        exact fun part hpart more _ => ⟨ih more (Site.mem_of_itemsAt hschema hpart), trivial⟩

/-- The properties of a schema are the same in a larger document. -/
theorem properties_eq {schema : Site} (hschema : schema ∈ document.tree.sites) :
    Lowering.properties other schema = Lowering.properties document schema := by
  have hall : (unvisited document Gathered.empty.visited).length ≤ document.tree.nodeCount := by
    rw [← Json.length_sites]
    exact List.length_filter_le _ _
  have hsize := h.size
  unfold Lowering.properties
  rw [h.gather_eq _ _ hschema]
  exact gather_eq_of_lt hschema (by omega) (by omega)

end ServantGen.Document.FoundIn

namespace ServantGen.Lowering

variable {document other : Document} {target : Target} {recur recur' : TypeFinder}

/-! ## Steps of the recursion -/

/-- Two ways of finding types agree on the schemas of a document. -/
def FindAlike (document : Document) (recur recur' : TypeFinder) : Prop :=
  ∀ site ∈ document.tree.sites, ∀ hint location,
    Agree (recur site hint location) (recur' site hint location)

section Steps

variable (h : document.FoundIn other) (hrecur : FindAlike document recur recur')
include hrecur

include h in
theorem refType_agree {schema : Site} (hschema : schema ∈ document.tree.sites) {reference : String}
    (hreference : schema.reference? = some reference) (hint location : String) :
    Agree (refType ⟨document, target⟩ recur reference hint location)
      (refType ⟨other, target⟩ recur' reference hint location) := by
  refine Agree.after fun state => ?_
  cases schemaModel? state.schemaNames reference with
  | some model => exact Agree.refl _
  | none =>
    dsimp only
    rw [h.finds schema hschema reference hreference]
    cases hfind : Pointer.find? document.tree reference with
    | none => exact Agree.refl _
    | some found =>
      dsimp only
      split
      · exact Agree.refl _
      · refine Agree.after fun _ => ?_
        exact (hrecur found (Pointer.mem_of_find? hfind) hint location).before

theorem fieldsOf_agree (model location : String) (required : List String) (scope : NameScope)
    {properties : List (String × Site)} (hproperties : Gathered.InDocument document properties) :
    Agree (fieldsOf ⟨document, target⟩ recur model location required scope properties)
      (fieldsOf ⟨other, target⟩ recur' model location required scope properties) := by
  induction properties generalizing scope with
  | nil => exact Agree.refl _
  | cons property rest ih =>
    obtain ⟨hproperty, hrest⟩ := List.forall_mem_cons.1 hproperties
    refine Agree.after fun name => ?_
    refine (hrecur property.2 hproperty _ _).bind fun type => ?_
    exact (ih _ hrest).before

include h in
theorem recordFields_agree (model : String) {schema : Site} (hschema : schema ∈ document.tree.sites)
    (location : String) :
    Agree (recordFields ⟨document, target⟩ recur model schema location)
      (recordFields ⟨other, target⟩ recur' model schema location) := by
  unfold recordFields
  dsimp only
  rw [h.properties_eq hschema]
  exact fieldsOf_agree hrecur model location _ _ (inDocument_properties hschema)

theorem variantOf_agree (model location : String) (position : Nat) {alternative : Site}
    (halternative : alternative ∈ document.tree.sites) :
    Agree (variantOf ⟨document, target⟩ recur model location position alternative)
      (variantOf ⟨other, target⟩ recur' model location position alternative) := by
  refine Agree.after fun state => ?_
  split
  · exact Agree.refl _
  · exact (hrecur alternative halternative _ location).before

theorem variantsOf_agree (model location : String) (position : Nat) {alternatives : List Site}
    (halternatives : ∀ alternative ∈ alternatives, alternative ∈ document.tree.sites) :
    Agree (variantsOf ⟨document, target⟩ recur model location position alternatives)
      (variantsOf ⟨other, target⟩ recur' model location position alternatives) := by
  induction alternatives generalizing position with
  | nil => exact Agree.refl _
  | cons alternative rest ih =>
    obtain ⟨hfirst, hrest⟩ := List.forall_mem_cons.1 halternatives
    refine (variantOf_agree hrecur model location position hfirst).bind fun variant => ?_
    exact (ih (position + 1) hrest).before

include h in
theorem shapeOf_agree (name : String) {schema : Site} (hschema : schema ∈ document.tree.sites)
    (location : String) :
    Agree (shapeOf ⟨document, target⟩ recur name schema location)
      (shapeOf ⟨other, target⟩ recur' name schema location) := by
  rw [shapeOf_eq, shapeOf_eq]
  cases shapeKind schema with
  | reference reference hreference =>
    exact (refType_agree h hrecur hschema hreference name location).before
  | enum values => exact Agree.refl _
  | record => exact (recordFields_agree h hrecur name hschema location).before
  | union alternatives _ _ _ halternatives =>
    refine Agree.before (variantsOf_agree hrecur name location 1 ?_)
    exact fun alternative => mem_of_alternatives? hschema halternatives
  | empty => exact Agree.refl _
  | type => exact (hrecur schema hschema name location).before

include h in
theorem modelOf_agree (name raw : String) {schema : Site} (hschema : schema ∈ document.tree.sites)
    (location : String) :
    Agree (modelOf ⟨document, target⟩ recur name raw schema location)
      (modelOf ⟨other, target⟩ recur' name raw schema location) :=
  (shapeOf_agree h hrecur name hschema location).before

include h in
theorem hoist_agree {schema : Site} (hschema : schema ∈ document.tree.sites)
    (hint location : String) :
    Agree (hoist ⟨document, target⟩ recur schema hint location)
      (hoist ⟨other, target⟩ recur' schema hint location) := by
  refine Agree.after fun name => ?_
  refine Agree.after fun _ => ?_
  exact (modelOf_agree h hrecur name hint hschema location).before

theorem plainType_agree {schema : Site} (hschema : schema ∈ document.tree.sites)
    (hint location : String) :
    Agree (plainType recur schema hint location) (plainType recur' schema hint location) := by
  rw [plainType_eq, plainType_eq]
  cases plainKind schema with
  | array items _ hitems => exact (hrecur items (Site.mem_of_get? hschema hitems) _ location).before
  | map value _ _ hvalue => exact (hrecur value (Site.mem_of_get? hschema hvalue) _ location).before
  | _ => exact Agree.refl _

include h in
theorem coreType_agree {schema : Site} (hschema : schema ∈ document.tree.sites)
    (hint location : String) :
    Agree (coreType ⟨document, target⟩ recur schema hint location)
      (coreType ⟨other, target⟩ recur' schema hint location) := by
  rw [coreType_eq, coreType_eq]
  cases typeKind schema with
  | reference reference hreference => exact refType_agree h hrecur hschema hreference hint location
  | enum values => exact Agree.refl _
  | object => exact hoist_agree h hrecur hschema hint location
  | part part _ _ hparts =>
    exact hrecur part (mem_of_parts? hschema hparts List.mem_cons_self) hint location
  | plain => exact plainType_agree hrecur hschema hint location

end Steps

/-- However deep either recursion may go, the types that both find are the same. -/
theorem typeOf_findAlike (h : document.FoundIn other) (depth depth' : Nat) :
    FindAlike document (typeOf ⟨document, target⟩ depth) (typeOf ⟨other, target⟩ depth') := by
  induction depth generalizing depth' with
  | zero => exact fun _ _ _ _ => Agree.of_eq_none fun _ => rfl
  | succ depth ih =>
    intro site hsite hint location
    cases depth' with
    | zero => exact (Agree.of_eq_none fun _ => rfl).symm
    | succ depth' => exact (coreType_agree h (ih depth') hsite hint location).before

/-! ## Reading operations -/

section Reading

variable {operation : OperationSite} (h : document.FoundIn other)
  (hoperation : operation.InTree document.tree)
include h hoperation

theorem parameters_eq : operation.parameters other = operation.parameters document := by
  unfold OperationSite.parameters
  have hresolved : operation.declaredParameters.mapM other.resolve =
      operation.declaredParameters.mapM document.resolve := by
    refine Outcomes.mapM_congr fun parameter hparameter => h.resolve_eq ?_
    obtain hitem | hnode := List.mem_append.1 hparameter
    · exact Site.mem_of_itemsAt hoperation.item hitem
    · exact Site.mem_of_itemsAt hoperation.node hnode
  rw [hresolved]

theorem requestBody?_eq : operation.requestBody? other = operation.requestBody? document := by
  unfold OperationSite.requestBody?
  cases hbody : operation.node.get? "requestBody" with
  | none => rfl
  | some site =>
    dsimp only
    rw [h.resolve_eq (Site.mem_of_get? hoperation.node hbody)]

theorem responses_eq : operation.responses other = operation.responses document := by
  refine Outcomes.mapM_congr ?_
  rintro ⟨status, site⟩ hsite
  dsimp only
  rw [h.resolve_eq (Site.mem_of_membersAt hoperation.node hsite)]

omit hoperation in
theorem headers_eq {response : ResponseSite} (hresponse : response.node ∈ document.tree.sites) :
    response.headers other = response.headers document := by
  refine Outcomes.mapM_congr ?_
  rintro ⟨name, site⟩ hsite
  dsimp only
  rw [h.resolve_eq (Site.mem_of_membersAt hresponse hsite)]

end Reading

/-! ## Operations -/

section Operations

variable (h : document.FoundIn other) (hfind : FindAlike document recur recur')
include hfind

theorem parameterType_agree {parameter : Site} (hparameter : parameter ∈ document.tree.sites)
    (hint location : String) :
    Agree (parameterType recur parameter hint location)
      (parameterType recur' parameter hint location) := by
  unfold parameterType
  cases hschema : ParameterSite.schema? parameter with
  | none => exact Agree.refl _
  | some schema =>
    exact hfind schema (ParameterSite.mem_of_schema? hparameter hschema) hint location

theorem lowerParameters_agree (operation location : String) (scope : NameScope)
    (body : Option RequestBody) {sites : List Site}
    (hsites : ∀ site ∈ sites, site ∈ document.tree.sites) :
    Agree (lowerParameters ⟨document, target⟩ recur operation location scope body sites)
      (lowerParameters ⟨other, target⟩ recur' operation location scope body sites) := by
  induction sites generalizing scope body with
  | nil => exact Agree.refl _
  | cons parameter rest ih =>
    obtain ⟨hparameter, hrest⟩ := List.forall_mem_cons.1 hsites
    rw [lowerParameters_cons, lowerParameters_cons]
    cases parameterKind parameter with
    | unknown => exact Agree.after fun _ => ih scope body hrest
    | body =>
      cases body with
      | some held => exact Agree.after fun _ => ih scope (some held) hrest
      | none =>
        refine Agree.bind ?_ fun body => ih scope (some body) hrest
        exact (parameterType_agree hfind hparameter _ _).before
    | own place =>
      have hown : ∀ location, Agree
          (ownParameter ⟨document, target⟩ recur operation place parameter location scope)
          (ownParameter ⟨other, target⟩ recur' operation place parameter location scope) :=
        fun _ => Agree.after fun name => (parameterType_agree hfind hparameter _ _).before
      refine (hown _).bind ?_
      rintro ⟨lowered, scope⟩
      exact (ih scope body hrest).before

include h in
theorem bodyOf_agree {operation : OperationSite} (hoperation : operation.InTree document.tree)
    (id location : String) (parameter : Option RequestBody) :
    AgreeOk (bodyOf ⟨document, target⟩ recur operation id location parameter)
      (bodyOf ⟨other, target⟩ recur' operation id location parameter) := by
  cases parameter with
  | some body => exact AgreeOk.refl _
  | none =>
    change AgreeOk (lowerBody _ _ _ _ _) (lowerBody _ _ _ _ _)
    unfold lowerBody
    dsimp only
    rw [requestBody?_eq h hoperation]
    refine AgreeOk.read fun body hbody => ?_
    cases body with
    | none => exact AgreeOk.refl _
    | some body =>
      dsimp only
      cases hschema : body.schema with
      | none => exact AgreeOk.refl _
      | some schema =>
        have hsite := OperationSite.mem_of_requestBody? hoperation hbody hschema
        exact AgreeOk.before (hfind schema hsite _ _).lift

section Responses

variable {response : ResponseSite} (hresponse : response.node ∈ document.tree.sites)
include hresponse

theorem responseType_agree (hint location : String) :
    Agree (responseType recur response hint location)
      (responseType recur' response hint location) := by
  unfold responseType
  cases hschema : response.schema? with
  | none => exact Agree.refl _
  | some schema =>
    exact (hfind schema (ResponseSite.mem_of_schema? hresponse hschema) hint location).before

theorem lowerHeaders_agree (id location : String) {headers : List (String × Site)}
    (hheaders : response.headers document = .ok headers) :
    Agree (lowerHeaders recur id location headers) (lowerHeaders recur' id location headers) := by
  refine Agree.mapM ?_
  rintro ⟨name, node⟩ hheader
  have hnode := ResponseSite.mem_of_headers hresponse hheaders hheader
  exact (hfind _ (Site.getD_get?_mem hnode "schema") _ _).before

include h in
theorem lowerResponse_agree (id location : String) :
    AgreeOk (lowerResponse ⟨document, target⟩ recur id location response)
      (lowerResponse ⟨other, target⟩ recur' id location response) := by
  unfold lowerResponse
  dsimp only
  split
  · exact AgreeOk.refl _
  · refine AgreeOk.bind (responseType_agree hfind hresponse _ _).lift fun type => ?_
    rw [headers_eq h hresponse]
    refine AgreeOk.read fun headers hheaders => ?_
    exact AgreeOk.before (lowerHeaders_agree hfind hresponse id _ hheaders).lift

end Responses

include h in
theorem lowerOperation_agree {operation : OperationSite}
    (hoperation : operation.InTree document.tree) :
    AgreeOk (lowerOperation ⟨document, target⟩ recur operation)
      (lowerOperation ⟨other, target⟩ recur' operation) := by
  refine AgreeOk.after fun id => ?_
  dsimp only
  rw [parameters_eq h hoperation]
  refine AgreeOk.read fun sites hsites => ?_
  refine AgreeOk.bind (Agree.lift (lowerParameters_agree hfind _ _ _ _ ?_)) fun lowered => ?_
  · exact fun site => OperationSite.mem_of_parameters hoperation hsites
  refine AgreeOk.after fun route => ?_
  refine (bodyOf_agree h hfind hoperation id _ _).bind fun body => ?_
  rw [responses_eq h hoperation]
  refine AgreeOk.read fun responses hresponses => ?_
  refine (AgreeOk.mapM fun response hresponse => ?_).before
  have hnode := OperationSite.mem_of_responses hoperation hresponses hresponse
  exact lowerResponse_agree h hfind hnode id _

end Operations

/-! ## Whole runs -/

theorem declareModels_eq (hschemas : other.schemas = document.schemas) :
    declareModels ⟨other, target⟩ = declareModels ⟨document, target⟩ := by
  unfold declareModels
  dsimp only
  rw [hschemas]
  rfl

theorem lowerModels_agree (h : document.FoundIn other) (hschemas : other.schemas = document.schemas)
    (hfind : FindAlike document recur recur') :
    Agree (lowerModels ⟨document, target⟩ recur) (lowerModels ⟨other, target⟩ recur') := by
  unfold lowerModels
  dsimp only
  rw [hschemas]
  refine Agree.forM ?_
  rintro ⟨raw, schema⟩ hschema
  refine Agree.after fun state => ?_
  split
  · exact Agree.refl _
  · exact (modelOf_agree h hfind _ raw (Document.mem_of_schemas hschema) _).before

/-- Operations that are lowered behind others add models and notices behind those that are there,
and change none of them. -/
theorem prefix_of_lowerOperations {setting : Setting} {asked : Question → Prop} {find : TypeFinder}
    (hfind : Accounts setting asked find) {sites : List OperationSite} {operations : List Operation}
    {state final : State} (hsound : Sound state)
    (hrun : (sites.mapM (lowerOperation setting find)).run.run state =
      some (.ok operations, final)) :
    state.models.models <+: final.models.models ∧ state.notices <+: final.notices := by
  have howes := @OwesOk.mapM _ _ setting asked [] sites (lowerOperation setting find)
    Operation.namings fun site owed => lowerOperation_owes hfind site
  obtain ⟨-, claimed, added, hbooks, -⟩ :=
    (howes state).result (Balanced.start hsound) hrun operations rfl
  obtain ⟨new, hnew, -⟩ := hbooks.notices
  exact ⟨⟨added, hbooks.table.symm⟩, ⟨new, hnew.symm⟩⟩

/-- An interface with its notices goes on as another one begins. -/
structure Continues (api : Api) (notices : List Notice) (api' : Api) (notices' : List Notice) :
    Prop where
  info : api'.info = api.info
  operations : api.operations <+: api'.operations
  models : api.models.models <+: api'.models.models
  notices : notices <+: notices'

/-- A document in which nothing is different but one more path behind the others is lowered to the
same operations, models and notices, and then to more of them. -/
theorem continues_of_appendsPath {api api' : Api} {notices notices' : List Notice}
    (h : document.AppendsPath other) (hpaths : document.PathsInTree)
    (hkeys : document.tree.hasDistinctKeys = true)
    (hrun : run ⟨document, target⟩ = some ⟨.ok api, notices⟩)
    (hrun' : run ⟨other, target⟩ = some ⟨.ok api', notices'⟩) :
    Continues api notices api' notices' := by
  obtain ⟨final, hfinal, rfl, _, _, _, haccount⟩ := account_of_run_eq_ok hrun hkeys
  obtain ⟨⟨outcome, final'⟩, hfinal', hresult⟩ := Option.map_eq_some_iff.1 hrun'
  obtain ⟨rfl, rfl⟩ : outcome = .ok api' ∧ final'.notices = notices' := by
    simpa using hresult
  have hfind := @typeOf_findAlike document other target h.toFoundIn
    (Setting.depth ⟨document, target⟩) (Setting.depth ⟨other, target⟩)
  obtain ⟨sites, placed, filled, hstages⟩ := exists_stages hfinal
  obtain ⟨sites', placed', filled', hstages'⟩ := exists_stages hfinal'
  -- Up to the operations the two runs are one.
  obtain rfl : placed' = placed := by
    have hplaced := hstages'.declare
    rw [declareModels_eq h.schemas, hstages.declare] at hplaced
    exact (Prod.mk.inj (Option.some.inj hplaced)).2.symm
  obtain rfl : filled' = filled :=
    congrArg Prod.snd ((lowerModels_agree h.toFoundIn h.schemas hfind).result_eq hstages.lower
      hstages'.lower)
  obtain ⟨more, rfl⟩ := h.exists_operations_eq hpaths hstages.read hstages'.read
  have hmapped := hstages'.operations
  rw [List.mapM_append] at hmapped
  obtain ⟨operations, middle, hown, hmapped⟩ := exists_of_run_bind_eq_ok hmapped
  obtain ⟨others, last, hmore, hend⟩ := exists_of_run_bind_eq_ok hmapped
  obtain ⟨hoperations, rfl⟩ := Prod.mk.inj (Option.some.inj hend)
  have hagree : AgreeOk (sites.mapM (lowerOperation ⟨document, target⟩ _))
      (sites.mapM (lowerOperation ⟨other, target⟩ _)) := AgreeOk.mapM fun site hsite =>
    lowerOperation_agree h.toFoundIn hfind (Document.inTree_of_operations hpaths hstages.read hsite)
  obtain ⟨hsame, rfl⟩ := Prod.mk.inj (Agree.result_eq hagree hstages.operations hown)
  obtain rfl := Except.ok.inj hsame
  obtain ⟨hmodels, hnotices⟩ :=
    prefix_of_lowerOperations (accounts_typeOf _ _) haccount.sound hmore
  exact {
    info := by rw [hstages.info, hstages'.info, h.info]
    operations := ⟨others, Except.ok.inj hoperations⟩
    models := by
      rw [hstages.models, hstages'.models]
      exact hmodels
    notices := hnotices }

/-- Whatever the target is, a path that is put behind the others renames nothing and changes no
type, where no reference asks for the root or the paths. -/
theorem continues_of_withPath {tree item : Json} {path : String} {api api' : Api}
    {notices notices' : List Notice} (hown : Document.ofTree tree = .ok document)
    (hother : Document.ofTree (tree.withPath path item) = .ok other)
    (hkeys : tree.hasDistinctKeys = true) (havoid : tree.AvoidsPaths)
    (hrun : run ⟨document, target⟩ = some ⟨.ok api, notices⟩)
    (hrun' : run ⟨other, target⟩ = some ⟨.ok api', notices'⟩) :
    Continues api notices api' notices' := by
  have hkeys' : document.tree.hasDistinctKeys = true := by
    rw [Document.eq_of_ofTree hown]
    exact hkeys
  exact continues_of_appendsPath (Document.appendsPath_of_withPath havoid hown hother)
    (Document.pathsInTree_of_ofTree hown) hkeys' hrun hrun'

/-- An operation is put behind another one whose identifier, parameter and model it asks for. -/
theorem continues_of_withPath_collisions :
    let operation (id : String) : Json := .object [
      ("operationId", .string id),
      ("parameters", .array [.object [("name", .string "kind"), ("in", .string "query"),
        ("schema", .object [("enum", .array [.string "x"])])]]),
      ("requestBody", .object [("content", .object [("application/json", .object [
        ("schema", .object [("properties", .object [
          ("pet", .object [("$ref", .string "#/components/schemas/Pet")])])])])])])]
    let tree : Json := .object [
      ("info", .object []),
      ("paths", .object [("/a", .object [("get", operation "pet")])]),
      ("components", .object [("schemas", .object [
        ("Pet", .object [("oneOf", .array [.object [("type", .string "string")]])])])])]
    let item : Json := .object [("get", operation "Pet")]
    let target := Haskell.target
    ∃ document other api api' notices notices', Document.ofTree tree = .ok document ∧
      Document.ofTree (tree.withPath "/b" item) = .ok other ∧ tree.hasDistinctKeys = true ∧
      tree.AvoidsPaths ∧ run ⟨document, target⟩ = some ⟨.ok api, notices⟩ ∧
      run ⟨other, target⟩ = some ⟨.ok api', notices'⟩ ∧
      api.models.names = ["Pet", "PetVariant1", "PetRequest"] ∧
      api'.models.names = ["Pet", "PetVariant1", "PetRequest", "Pet2Request"] ∧
      Continues api notices api' notices' := by
  intro operation tree item target
  have hview : ((Document.ofTree tree).toOption.bind fun document =>
      (run ⟨document, target⟩).bind fun result => result.outcome.toOption.map
        fun api => api.models.names) = some ["Pet", "PetVariant1", "PetRequest"] := by
    decide +kernel
  have hview' : ((Document.ofTree (tree.withPath "/b" item)).toOption.bind fun document =>
      (run ⟨document, target⟩).bind fun result => result.outcome.toOption.map
        fun api => api.models.names) =
      some ["Pet", "PetVariant1", "PetRequest", "Pet2Request"] := by
    decide +kernel
  have hkeys : tree.hasDistinctKeys = true := by decide +kernel
  have havoid : tree.AvoidsPaths := by decide +kernel
  obtain ⟨document, api, notices, hown, hrun, hnames⟩ := exists_run_of_view hview
  obtain ⟨other, api', notices', hother, hrun', hnames'⟩ := exists_run_of_view hview'
  exact ⟨document, other, api, api', notices, notices', hown, hother, hkeys, havoid, hrun, hrun',
    hnames, hnames', continues_of_withPath hown hother hkeys havoid hrun hrun'⟩

end ServantGen.Lowering
