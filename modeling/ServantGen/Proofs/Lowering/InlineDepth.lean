import Mathlib.Data.Prod.Lex
import ServantGen.Proofs.Document.Chains
import ServantGen.Proofs.Lowering.Appending

/-!
# How deep references are followed

A reference to a named schema is named and never followed, and of the others at most sixteen are
followed at once; the one that comes next is cut off with a notice. Where no schema is made of
parts, every other call is about a node below the one it comes from. So each call leaves fewer
references to follow or a smaller node, and lowering ends whatever circles the references form,
although one node is then lowered as often as chains of references lead to it.
-/

namespace ServantGen

/-! ## Nodes below a node -/

namespace Json

theorem nodeCount_lt_of_mem_items {items : List Json} {item : Json} (h : item ∈ items) :
    item.nodeCount < (Json.array items).nodeCount := by
  have hle : item.nodeCount ≤ itemsCount items := by
    induction items with
    | nil => simp at h
    | cons first items ih =>
      rw [itemsCount]
      obtain rfl | h := List.mem_cons.1 h
      · exact Nat.le_add_right _ _
      · exact Nat.le_trans (ih h) (Nat.le_add_left _ _)
  rw [nodeCount]
  exact Nat.lt_succ_of_le hle

theorem nodeCount_lt_of_mem_fields {fields : List (String × Json)} {key : String} {value : Json}
    (h : (key, value) ∈ fields) : value.nodeCount < (Json.object fields).nodeCount := by
  have hle : value.nodeCount ≤ fieldsCount fields := by
    induction fields with
    | nil => simp at h
    | cons first fields ih =>
      rw [fieldsCount]
      obtain rfl | h := List.mem_cons.1 h
      · exact Nat.le_add_right _ _
      · exact Nat.le_trans (ih h) (Nat.le_add_left _ _)
  rw [nodeCount]
  exact Nat.lt_succ_of_le hle

end Json

namespace Site

variable {site below : Site} {key name : String}

theorem nodeCount_lt_of_get? (h : site.get? key = some below) :
    below.node.nodeCount < site.node.nodeCount := by
  obtain ⟨node, hnode, rfl⟩ := Option.map_eq_some_iff.1 h
  cases hobject : site.node with
  | object fields =>
    rw [hobject] at hnode
    exact Json.nodeCount_lt_of_mem_fields (Entries.mem_of_get?_eq_some hnode)
  | _ => simp [hobject, Json.step?, Json.get?] at hnode

theorem nodeCount_lt_of_items? {items : List Site} (h : site.items? = some items)
    (hmem : below ∈ items) : below.node.nodeCount < site.node.nodeCount := by
  obtain ⟨address, node⟩ := site
  cases node with
  | array nodes =>
    obtain rfl := Option.some.inj h
    obtain ⟨⟨item, index⟩, hindex, rfl⟩ := List.mem_map.1 hmem
    exact Json.nodeCount_lt_of_mem_items (List.fst_mem_of_mem_zipIdx hindex)
  | _ => simp [items?, Json.array?] at h

theorem nodeCount_lt_of_membersAt (h : (name, below) ∈ site.membersAt key) :
    below.node.nodeCount < site.node.nodeCount := by
  unfold membersAt at h
  cases hmembers : (site.get? key).bind members? with
  | none => simp [hmembers] at h
  | some members =>
    obtain ⟨⟨address, node⟩, hobject, hsome⟩ := Option.bind_eq_some_iff.1 hmembers
    refine Nat.lt_trans ?_ (nodeCount_lt_of_get? hobject)
    cases node with
    | object fields =>
      obtain rfl := Option.some.inj hsome
      rw [hmembers] at h
      obtain ⟨⟨key, value⟩, hfield, heq⟩ := List.mem_map.1 h
      obtain ⟨rfl, rfl⟩ := Prod.mk.inj heq
      exact Json.nodeCount_lt_of_mem_fields hfield
    | _ => simp [members?, Json.object?] at hsome

end Site

namespace Lowering

open Relation

variable {document : Document} {setting : Setting} {call next : Call}

/-! ## Calls without parts -/

/-- The properties of a schema that is neither a reference nor made of parts are its own. -/
theorem mem_membersAt_of_mem_properties {schema : Site} {property : String × Site}
    (hreference : schema.reference? = none) (hparts : schema.has "allOf" = false)
    (h : property ∈ (properties document schema).properties) :
    property ∈ schema.membersAt "properties" := by
  have hresolve : document.resolve schema = .ok schema :=
    Document.resolve_eq_ok_iff.2 ⟨0, by decide, Pointer.endsAt_zero.2 ⟨hreference, rfl⟩⟩
  have hnone : schema.get? "allOf" = none := by
    have hnode : schema.node.get? "allOf" = none := by simpa [Site.has] using hparts
    simp [Site.get?, Site.step?, Json.step?, hnode]
  have hgathered : (properties document schema).properties =
      (schema.membersAt "properties").foldl Gathered.addProperty [] := by
    simp [properties, Gathered.gather, hresolve, Gathered.empty, Site.itemsAt, hnone,
      Gathered.addOwn]
  rw [hgathered] at h
  refine List.foldlRecOn (motive := fun gathered : List (String × Site) =>
    ∀ property ∈ gathered, property ∈ schema.membersAt "properties") _ _ (by simp) ?_ property h
  intro gathered hown added hadded property hproperty
  unfold Gathered.addProperty at hproperty
  split at hproperty
  · exact hown property hproperty
  · obtain hproperty | hproperty := List.mem_append.1 hproperty
    · exact hown property hproperty
    · exact List.mem_singleton.1 hproperty ▸ hadded

namespace Call

/-- How many more references may be followed, and then how large the node is. -/
def rank (call : Call) : Nat ×ₗ Nat :=
  toLex (maxInlineDepth - call.followed, call.site.node.nodeCount)

theorem rank_lt_of_below {site below : Site} (h : below.node.nodeCount < site.node.nodeCount)
    (followed : Nat) : (⟨below, followed⟩ : Call).rank < (⟨site, followed⟩ : Call).rank :=
  Prod.Lex.toLex_lt_toLex.2 (.inr ⟨rfl, h⟩)

theorem rank_lt_of_referenceCalls {reference : String}
    (h : next ∈ referenceCalls document call.followed reference) : next.rank < call.rank := by
  have hdeeper : next.followed = call.followed + 1 ∧ call.followed < maxInlineDepth := by
    unfold referenceCalls at h
    split at h
    · simp at h
    · split at h
      · simp at h
      · split at h
        · simp at h
        · rename_i hfew
          obtain rfl := List.mem_singleton.1 h
          exact ⟨rfl, Nat.lt_of_not_le hfew⟩
  refine Prod.Lex.toLex_lt_toLex.2 (.inl ?_)
  omega

theorem rank_lt_of_alternatives {schema alternative : Site} {alternatives : List Site}
    (hsome : alternatives? schema = some alternatives) (hmem : alternative ∈ alternatives)
    (followed : Nat) :
    (⟨alternative, followed⟩ : Call).rank < (⟨schema, followed⟩ : Call).rank := by
  obtain ⟨hbind, -⟩ := Option.filter_eq_some_iff.1 hsome
  obtain ⟨array, harray, hitems⟩ := Option.bind_eq_some_iff.1 hbind
  refine rank_lt_of_below (Nat.lt_trans (Site.nodeCount_lt_of_items? hitems hmem) ?_) followed
  obtain hone | ⟨-, hany⟩ := Option.or_eq_some_iff.1 harray
  · exact Site.nodeCount_lt_of_get? hone
  · exact Site.nodeCount_lt_of_get? hany

/-- A model of a record or of a union calls for nodes below its schema. Only the model of another
schema calls for the type of that schema itself. -/
theorem rank_lt_of_modelCalls {schema : Site} {followed : Nat}
    (hreference : schema.reference? = none) (hparts : schema.has "allOf" = false)
    (hmodel : ((alternatives? schema).isSome || hasProperties schema.node) = true)
    (h : next ∈ modelCalls document followed schema) :
    next.rank < (⟨schema, followed⟩ : Call).rank := by
  rw [modelCalls_eq] at h
  generalize shapeKind schema = kind at h
  cases kind with
  | reference reference hsome => simp [hreference] at hsome
  | enum values => simp at h
  | record =>
    obtain ⟨⟨name, property⟩, hproperty, rfl⟩ := List.mem_map.1 h
    have hown := mem_membersAt_of_mem_properties hreference hparts hproperty
    exact rank_lt_of_below (Site.nodeCount_lt_of_membersAt hown) followed
  | union alternatives _ _ _ hsome =>
    obtain ⟨alternative, hmem, hcall⟩ := List.mem_flatMap.1 h
    obtain rfl := mem_alternativeCalls hcall
    exact rank_lt_of_alternatives hsome hmem followed
  | empty => simp at h
  | type _ _ hobject halternatives =>
    have hown : hasProperties schema.node = false := by simpa [hparts] using hobject
    simp [halternatives, hown] at hmodel

theorem rank_lt_of_plainCalls {schema : Site} {followed : Nat}
    (h : next ∈ plainCalls followed schema) : next.rank < (⟨schema, followed⟩ : Call).rank := by
  rw [plainCalls_eq] at h
  generalize plainKind schema = kind at h
  cases kind with
  | array items _ hitems =>
    obtain rfl := List.mem_singleton.1 h
    exact rank_lt_of_below (Site.nodeCount_lt_of_get? hitems) followed
  | map value _ _ hvalue =>
    obtain rfl := List.mem_singleton.1 h
    exact rank_lt_of_below (Site.nodeCount_lt_of_get? hvalue) followed
  | _ => simp at h

/-- A call about a schema that is not made of parts makes calls of lower rank. -/
theorem rank_lt_of_calls (hparts : call.site.has "allOf" = false)
    (h : Calls document call next) : next.rank < call.rank := by
  have hnone : parts? call.site = none := by
    have hnode : call.site.node.get? "allOf" = none := by simpa [Site.has] using hparts
    simp [parts?, Site.get?, Site.step?, Json.step?, hnode]
  rw [Calls, calls_eq] at h
  generalize typeKind call.site = kind at h
  cases kind with
  | reference reference => exact rank_lt_of_referenceCalls h
  | enum values => simp at h
  | object hobject =>
    exact rank_lt_of_modelCalls hobject.noReference hparts (hobject.listed hnone) h
  | part part _ _ hsome => simp [hnone] at hsome
  | plain => exact rank_lt_of_plainCalls h

end Call

def WithoutParts (document : Document) : Prop :=
  ∀ site ∈ document.tree.sites, site.has "allOf" = false

theorem WithoutParts.not_leadsIntoCircle (h : WithoutParts document)
    (hcall : call.InDocument document) : ¬ LeadsIntoCircle document call := by
  rintro ⟨last, hchain, hcircle⟩
  have hlast := inDocument_of_chain hcall hchain
  have hless : ∀ next, TransGen (Calls document) last next → next.rank < last.rank := by
    intro next hnext
    induction hnext with
    | single hnext => exact Call.rank_lt_of_calls (h _ hlast.site) hnext
    | tail hfirst hnext ih =>
      have hmiddle := inDocument_of_chain hlast hfirst.to_reflTransGen
      exact (Call.rank_lt_of_calls (h _ hmiddle.site) hnext).trans ih
  exact lt_irrefl _ (hless last hcircle)

/-- Every call about a site of the document is within the depth that is allowed. -/
theorem WithoutParts.within_depth (h : WithoutParts setting.document)
    (hcall : call.InDocument setting.document) : Within setting.document setting.depth call :=
  (within_depth_iff hcall).2 (h.not_leadsIntoCircle hcall)

/-! ## Guarded calls -/

/-- A way to find types that has no result when it is asked while more references are followed
than allowed, or when it leaves another number of them than it found. -/
def guarded (find : TypeFinder) : TypeFinder := fun schema hint location => do
  let before ← get
  if before.inlineDepth ≤ maxInlineDepth then do
    let type ← find schema hint location
    let after ← get
    if after.inlineDepth = before.inlineDepth then return type else fun _ => none
  else fun _ => none

/-- The type of a schema, by the same recursion with every call guarded. -/
def guardedTypeOf (setting : Setting) : Nat → TypeFinder
  | 0 => fun _ _ _ _ => none
  | depth + 1 => guarded (typeStep setting (guardedTypeOf setting depth))

theorem guarded_finishes {find : TypeFinder} {followed : Nat} {condition : Prop} {schema : Site}
    {hint location : String}
    (h : Finishes document followed (find schema hint location) condition) :
    Finishes document followed (guarded find schema hint location)
      (followed ≤ maxInlineDepth ∧ condition) := by
  refine Finishes.get_bind fun before hbefore => ?_
  simp only [hbefore.depth]
  split
  · rename_i hfew
    refine Finishes.congr (h.before fun type => ?_) (and_iff_right hfew).symm
    refine Finishes.get_bind fun after hafter => ?_
    rw [if_pos hafter.depth]
    exact Finishes.pure type
  · rename_i hmany
    exact fun _ _ hcondition => hmany hcondition.1

theorem answers_guardedTypeOf (setting : Setting) (depth : Nat) :
    Answers setting.document (KeepsWithin setting.document (·.followed ≤ maxInlineDepth) depth)
      (guardedTypeOf setting depth) := by
  induction depth with
  | zero => exact fun _ _ _ _ _ => id
  | succ depth ih =>
    intro call hint location
    exact guarded_finishes (typeStep_finishes ih call.site hint location)

/-- What a guarded call finds is found without the guard. -/
theorem run_of_guarded_run {find : TypeFinder} {schema : Site} {hint location : String}
    {state : State} {result : DataType × State}
    (h : (guarded find schema hint location).run state = some result) :
    (find schema hint location).run state = some result := by
  unfold guarded at h
  change (if _ then _ else _ : SchemaM DataType).run state = some result at h
  split at h
  · rw [StateT.run_bind] at h
    obtain ⟨⟨type, after⟩, hfind, hrest⟩ := Option.bind_eq_some_iff.1 h
    change (if _ then _ else _ : SchemaM DataType).run after = some result at hrest
    split at hrest
    · exact hfind.trans hrest
    · exact nomatch hrest
  · exact nomatch h

theorem guardedTypeOf_findAlike (setting : Setting) (depth : Nat) :
    FindAlike setting.document (guardedTypeOf setting depth) (typeOf setting depth) := by
  induction depth with
  | zero => exact fun _ _ _ _ => Agree.of_eq_none fun _ => rfl
  | succ depth ih =>
    intro site hsite hint location
    have hself : setting.document.FoundIn setting.document := ⟨le_rfl, fun _ _ _ _ => rfl⟩
    have hstep : Agree (typeStep setting (guardedTypeOf setting depth) site hint location)
        (typeStep setting (typeOf setting depth) site hint location) :=
      (coreType_agree hself ih hsite hint location).before
    intro state state' hstate result result' hrun hrun'
    exact hstep state state' hstate result result' (run_of_guarded_run hrun) hrun'

/-! ## Runs with guarded calls -/

section Runs

variable {find recur recur' : TypeFinder}

theorem lowerOperations_eq {operations : List OperationSite}
    (h : setting.document.operations = .ok operations) (find : TypeFinder) :
    lowerOperations setting find = operations.mapM (lowerOperation setting find) := by
  unfold lowerOperations
  rw [h]
  rfl

theorem lowerOperations_eq_of_error {error : ReadError}
    (h : setting.document.operations = .error error) (find : TypeFinder) :
    lowerOperations setting find = throw (.ofReadError error) := by
  unfold lowerOperations
  rw [h]
  rfl

/-- Two ways of finding types that agree on the schemas of a document agree on the document. -/
theorem lowerWith_agree (hpaths : setting.document.PathsInTree)
    (h : FindAlike setting.document recur recur') :
    AgreeOk (lowerWith setting recur) (lowerWith setting recur') := by
  have hself : setting.document.FoundIn setting.document := ⟨le_rfl, fun _ _ _ _ => rfl⟩
  have hoperations : AgreeOk (lowerOperations setting recur) (lowerOperations setting recur') := by
    cases hread : setting.document.operations with
    | error error =>
      rw [lowerOperations_eq_of_error hread, lowerOperations_eq_of_error hread]
      exact AgreeOk.refl _
    | ok operations =>
      rw [lowerOperations_eq hread, lowerOperations_eq hread]
      exact AgreeOk.mapM fun operation hmem =>
        lowerOperation_agree hself h (Document.inTree_of_operations hpaths hread hmem)
  refine AgreeOk.after fun _ => ?_
  exact (lowerModels_agree hself rfl h).lift.bind fun _ => hoperations.before

/-- In a document without parts no guard ever stops a run. -/
theorem run_guarded_eq (hparts : WithoutParts setting.document)
    (hpaths : setting.document.PathsInTree) :
    (lowerWith setting (guardedTypeOf setting setting.depth)).run.run .initial =
      (lowerApi setting).run.run .initial := by
  have hdocument := inDocument_documentAgenda hpaths
  cases hrun : (lowerApi setting).run.run .initial with
  | none =>
    have hfollows := lowerWith_follows (answers_typeOf setting setting.depth)
    refine absurd (fun call hcall => ?_) (hfollows.no_result rfl hrun)
    exact hparts.within_depth (hdocument call hcall)
  | some result =>
    cases hguarded : (lowerWith setting (guardedTypeOf setting setting.depth)).run.run
        .initial with
    | none =>
      have hfollows := lowerWith_follows (answers_guardedTypeOf setting setting.depth)
      refine absurd (fun call hcall => ?_) (hfollows.no_result rfl hguarded)
      exact (hparts.within_depth (hdocument call hcall)).keepsWithin
        (fun _ hown => hown.followed) (hdocument call hcall)
    | some other =>
      have hagree := lowerWith_agree hpaths (guardedTypeOf_findAlike setting setting.depth)
      exact congrArg some (hagree.result_eq hguarded hrun).symm

theorem inDocument_schemasCalls {schemas : List (String × Site)}
    (h : ∀ schema ∈ schemas, schema ∈ document.schemas) :
    Agenda.InDocument document (.ofCalls (schemas.flatMap (modelCalls document 0 ·.2))) := by
  refine Agenda.inDocument_ofCalls fun call hcall => ?_
  obtain ⟨⟨raw, schema⟩, hmem, hmodel⟩ := List.mem_flatMap.1 hcall
  exact inDocument_modelCalls (Call.inDocument_start (Document.mem_of_schemas (h _ hmem))) hmodel

theorem Contract.exists_run {α : Type} {pre : State → Prop} {m : SchemaM α}
    {post : α → State → Prop} (h : Contract False pre m post) {state : State} (hpre : pre state) :
    ∃ result, m.run state = some result ∧ post result.1 result.2 := by
  cases hrun : m.run state with
  | none => exact (h.no_result hpre hrun).elim
  | some result => exact ⟨result, rfl, h.result hpre hrun⟩

/-- From a state in which no reference is being followed, a computation whose calls are all in the
document has a result and leaves such a state. -/
theorem WithoutParts.total {α : Type} {m : OperationM α} {agenda : Agenda} {right : α → Prop}
    (hparts : WithoutParts setting.document) (hagenda : agenda.InDocument setting.document)
    (h : Follows setting.document (Within setting.document setting.depth) agenda m right) :
    Contract False (Following setting.document 0) m.run
      fun _ after => Following setting.document 0 after := by
  refine h.consequence (fun hstuck => hstuck ?_) (fun _ hstate => hstate) fun _ _ h => h.2.1
  exact fun call hcall => hparts.within_depth (hagenda call hcall)

/-- Declare the named schemas, then lower some of them and some operations. -/
def lowerPart (setting : Setting) (find : TypeFinder) (schemas : List (String × Site))
    (operations : List OperationSite) : OperationM (List Operation) := do
  declareModels setting
  (schemas.forM fun (raw, schema) => lowerModel setting find raw schema : SchemaM Unit)
  operations.mapM (lowerOperation setting find)

/-- Lowering a part of the document has a result, and then no reference is being followed. -/
theorem WithoutParts.exists_lowerPart_run (hparts : WithoutParts setting.document)
    {schemas : List (String × Site)} {operations : List OperationSite}
    (hschemas : ∀ schema ∈ schemas, schema ∈ setting.document.schemas)
    (hoperations : ∀ operation ∈ operations, operation.InTree setting.document.tree) :
    ∃ outcome state, (lowerPart setting (typeOf setting setting.depth) schemas operations).run.run
      .initial = some (outcome, state) ∧ state.inlineDepth = 0 := by
  have hfind := answers_typeOf setting setting.depth
  have hmodels : Follows setting.document (Within setting.document setting.depth)
      (.ofCalls (schemas.flatMap (modelCalls setting.document 0 ·.2)))
      (liftM (schemas.forM fun (raw, schema) =>
        lowerModel setting (typeOf setting setting.depth) raw schema)) fun _ => True := by
    refine Follows.lift (Finishes.congr (Finishes.forM fun schema hmem =>
      lowerModel_finishes hfind (hschemas schema hmem)) ?_) (Contract.any _ _)
    simp only [List.mem_flatMap]
    exact ⟨fun h next ⟨schema, hmem, hnext⟩ => h schema hmem next hnext,
      fun h schema hmem next hnext => h next ⟨schema, hmem, hnext⟩⟩
  have hall := hmodels.bind fun _ _ => Follows.mapM fun operation (_ : operation ∈ operations) =>
    lowerOperation_follows hfind operation
  have hagenda := Agenda.inDocument_append (inDocument_schemasCalls hschemas)
    (Agenda.inDocument_flatMap fun operation hmem =>
      inDocument_operationAgenda (hoperations operation hmem))
  have htotal := (Contract.lift (declareModels_following setting)).bindOutcome fun _ =>
    hparts.total hagenda hall
  obtain ⟨⟨outcome, state⟩, hrun, hstate⟩ := htotal.exists_run rfl
  exact ⟨outcome, state, hrun, hstate.depth⟩

end Runs

/-! ## References -/

section References

variable {followed : Nat} {state : State} {find : TypeFinder} {reference : String}

/-- What becomes of a reference. -/
theorem refType_run (hint location : String) :
    (refType setting find reference hint location).run state =
      match schemaModel? state.schemaNames reference with
      | some model => some (.named model, state)
      | none =>
        match Pointer.find? setting.document.tree reference with
        | none => some (.any, { state with
            notices := state.notices ++ [⟨.unresolvedReference reference, location⟩] })
        | some target =>
          if state.inlineDepth ≥ maxInlineDepth then
            some (.any, { state with
              notices := state.notices ++ [⟨.nestedTooDeeply reference, location⟩] })
          else
            ((find target hint location).run
              { state with inlineDepth := state.inlineDepth + 1 }).map fun (type, after) =>
                (type, { after with inlineDepth := after.inlineDepth - 1 }) := by
  unfold refType
  rw [StateT.run_bind, StateT.run_get]
  change StateT.run (match schemaModel? state.schemaNames reference with
    | some _ => _ | none => _) _ = _
  cases schemaModel? state.schemaNames reference with
  | some model => rfl
  | none =>
    dsimp only
    cases Pointer.find? setting.document.tree reference with
    | none => rfl
    | some target =>
      dsimp only
      split
      · rfl
      · rw [StateT.run_bind, StateT.run_modify]
        simp only [Option.pure_def, Option.bind_eq_bind, Option.bind_some, StateT.run_bind]
        cases (find target hint location).run
          { state with inlineDepth := state.inlineDepth + 1 } <;> rfl

theorem Following.exists_schemaModel? (hstate : Following document followed state)
    (h : isNamed document reference = true) :
    ∃ model, schemaModel? state.schemaNames reference = some model := by
  rw [← isSome_schemaModel? hstate.named reference] at h
  exact Option.isSome_iff_exists.1 h

theorem Following.schemaModel?_eq_none (hstate : Following document followed state)
    (h : isNamed document reference = false) :
    schemaModel? state.schemaNames reference = none := by
  rw [← isSome_schemaModel? hstate.named reference] at h
  exact Option.isSome_eq_false_iff.1 h |> Option.isNone_iff_eq_none.1

/-- An alternative of a union that refers to a named schema is a variant of its model. -/
theorem variantOf_run_of_schemaModel? {alternative : Site} {model : String}
    (hreference : alternative.reference? = some reference)
    (hmodel : schemaModel? state.schemaNames reference = some model) (name location : String)
    (position : Nat) :
    (variantOf setting find name location position alternative).run state =
      some (⟨model, some (Pointer.lastToken reference)⟩, state) := by
  unfold variantOf
  rw [StateT.run_bind, StateT.run_get]
  simp only [Option.pure_def, Option.bind_eq_bind, Option.bind_some, hreference, hmodel,
    Option.map_some]
  rfl

/-- What becomes of a reference in a state in which a number of references is being followed: that
of a named schema is named, whatever the way of finding types, and leaves the state as it is.
Another one that leads somewhere is followed with one more reference counted for the time of it,
or, when as many are followed as allowed, is cut off with one notice. -/
structure CutsOff (setting : Setting) (find : TypeFinder) (followed : Nat) (state : State)
    (reference : String) : Prop where
  named : isNamed setting.document reference = true → ∃ model,
    (∀ hint location, (refType setting find reference hint location).run state =
      some (.named model, state)) ∧
    ∀ alternative : Site, alternative.reference? = some reference → ∀ name location position,
      (variantOf setting find name location position alternative).run state =
        some (⟨model, some (Pointer.lastToken reference)⟩, state)
  cut : isNamed setting.document reference = false → followed = maxInlineDepth →
    ∀ target, Pointer.find? setting.document.tree reference = some target →
    ∀ hint location, (refType setting find reference hint location).run state =
      some (.any, { state with
        notices := state.notices ++ [⟨.nestedTooDeeply reference, location⟩] })
  followed : isNamed setting.document reference = false → followed < maxInlineDepth →
    ∀ target, Pointer.find? setting.document.tree reference = some target →
    ∀ hint location, (refType setting find reference hint location).run state =
      ((find target hint location).run { state with inlineDepth := followed + 1 }).map
        fun (type, after) => (type, { after with inlineDepth := after.inlineDepth - 1 })

theorem Following.cutsOff (hstate : Following setting.document followed state)
    (find : TypeFinder) (reference : String) : CutsOff setting find followed state reference where
  named h := by
    obtain ⟨model, hmodel⟩ := hstate.exists_schemaModel? h
    refine ⟨model, fun hint location => ?_, fun alternative hreference name location position => ?_⟩
    · rw [refType_run, hmodel]
    · exact variantOf_run_of_schemaModel? hreference hmodel name location position
  cut h hfollowed target htarget hint location := by
    have hdeep : state.inlineDepth ≥ maxInlineDepth := (hstate.depth.trans hfollowed).ge
    rw [refType_run, hstate.schemaModel?_eq_none h, htarget]
    dsimp only
    rw [if_pos hdeep]
  followed h hfollowed target htarget hint location := by
    have hshallow : ¬ state.inlineDepth ≥ maxInlineDepth := by
      rw [hstate.depth]
      exact Nat.not_le_of_lt hfollowed
    rw [refType_run, hstate.schemaModel?_eq_none h, htarget]
    dsimp only
    rw [if_neg hshallow, hstate.depth]

end References

/-! ## Circles of references -/

/-- Lowering ends although references form circles. Every call for a type leaves as many
references followed as it finds, and finds no more than allowed; between two schemas and between
two operations none are followed. -/
structure CutsCircles (setting : Setting) : Prop where
  ends : (run setting).isSome = true
  /-- The run makes no call that a guard would stop. -/
  guarded : (lowerWith setting (guardedTypeOf setting setting.depth)).run.run .initial =
    (lowerApi setting).run.run .initial
  /-- A call about a site of the document ends as well, from wherever it is made. -/
  call : ∀ site ∈ setting.document.tree.sites, ∀ followed, followed ≤ maxInlineDepth →
    ∀ hint location, Contract False (Following setting.document followed)
      (typeOf setting setting.depth site hint location)
      fun _ after => Following setting.document followed after
  schemas : ∀ lowered rest, setting.document.schemas = lowered ++ rest →
    ∃ outcome state, (lowerPart setting (typeOf setting setting.depth) lowered []).run.run
      .initial = some (outcome, state) ∧ state.inlineDepth = 0
  operations : ∀ lowered rest, setting.document.operations = .ok (lowered ++ rest) →
    ∃ outcome state, (lowerPart setting (typeOf setting setting.depth) setting.document.schemas
      lowered).run.run .initial = some (outcome, state) ∧ state.inlineDepth = 0
  reference : ∀ find followed state reference, Following setting.document followed state →
    CutsOff setting find followed state reference

/-- In a document whose schemas are not made of parts, circles of references are cut off and not
followed. -/
theorem cutsCircles_of_withoutParts {tree : Json} {document : Document}
    (h : Document.ofTree tree = .ok document)
    (hparts : ∀ site ∈ tree.sites, site.has "allOf" = false) (target : Target) :
    CutsCircles ⟨document, target⟩ := by
  have hpaths := Document.pathsInTree_of_ofTree h
  have htree : document.tree = tree := by rw [Document.eq_of_ofTree h]
  have hwithout : WithoutParts document := by
    rw [WithoutParts, htree]
    exact hparts
  refine ⟨?ends, run_guarded_eq hwithout hpaths, ?call, ?schemas, ?operations,
    fun find _ _ reference hstate => hstate.cutsOff find reference⟩
  case ends =>
    refine (isSome_run_iff hpaths).2 fun call hcall => ?_
    exact hwithout.not_leadsIntoCircle (inDocument_documentAgenda hpaths call hcall)
  case call =>
    intro site hsite followed hfew hint location
    have hcall : (⟨site, followed⟩ : Call).InDocument document := ⟨hsite, hfew⟩
    refine (answers_typeOf ⟨document, target⟩ _ ⟨site, followed⟩ hint location).consequence
      (fun hstuck => hstuck (WithoutParts.within_depth hwithout hcall)) (fun _ h => h)
      fun _ _ h => h.2
  case schemas =>
    intro lowered rest hschemas
    refine WithoutParts.exists_lowerPart_run hwithout (fun schema hmem => ?_) (by simp)
    rw [hschemas]
    exact List.mem_append_left rest hmem
  case operations =>
    intro lowered rest hoperations
    refine WithoutParts.exists_lowerPart_run hwithout (fun _ hmem => hmem) fun operation hmem => ?_
    exact Document.inTree_of_operations hpaths hoperations (List.mem_append_left rest hmem)

/-- A schema that refers to itself, with a property that refers to a node inside itself: the first
circle is named, and the second one is followed sixteen times and then cut off with one notice. -/
theorem cutsCircles_of_withoutParts_nested :
    let tree : Json := .object [("info", .object []), ("paths", .object []),
      ("nested", .object [("type", .string "array"),
        ("items", .object [("$ref", .string "#/nested")])]),
      ("components", .object [("schemas", .object [
        ("Node", .object [("properties", .object [
          ("next", .object [("$ref", .string "#/components/schemas/Node")]),
          ("tags", .object [("$ref", .string "#/nested")])])])])])]
    let document : Document := ⟨tree, []⟩
    Document.ofTree tree = .ok document ∧ (∀ site ∈ tree.sites, site.has "allOf" = false) ∧
      (run ⟨document, Haskell.target⟩).map Result.notices =
        some [⟨.nestedTooDeeply "#/nested", "components.schemas.Node.properties.tags"⟩] ∧
      CutsCircles ⟨document, Haskell.target⟩ := by
  intro tree document
  have hparts : ∀ site ∈ tree.sites, site.has "allOf" = false := by decide +kernel
  exact ⟨rfl, hparts, by decide +kernel, cutsCircles_of_withoutParts rfl hparts Haskell.target⟩

end Lowering

end ServantGen
