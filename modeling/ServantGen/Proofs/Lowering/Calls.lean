import ServantGen.Lowering.Models
import ServantGen.Proofs.Lowering.Contract
import ServantGen.Proofs.Lowering.Kinds

/-!
# Calls for types

Finding the type of a schema calls for the types of other schemas. Which ones depends on the
document, on the schema and on how many references are being followed, and on nothing else that
the state holds. So the calls form a graph over the sites of the document, and a step of the
recursion has a result exactly when all the calls it makes have one.
-/

namespace ServantGen.Lowering

/-- A call for the type of a schema while a number of references is being followed. -/
structure Call where
  site : Site
  followed : Nat

/-! ## The calls of a schema -/

section Graph

variable (document : Document)

/-- Whether a reference names a named schema, which is never followed. -/
def isNamed (reference : String) : Bool :=
  (namedSchema? reference).any (Entries.has document.schemas)

/-- The call behind a reference: to what it names, unless too many are being followed. -/
def referenceCalls (followed : Nat) (reference : String) : List Call :=
  if isNamed document reference then []
  else
    match Pointer.find? document.tree reference with
    | none => []
    | some target => if followed ≥ maxInlineDepth then [] else [⟨target, followed + 1⟩]

def alternativeCalls (followed : Nat) (alternative : Site) : List Call :=
  if alternative.reference?.any (isNamed document) then [] else [⟨alternative, followed⟩]

def modelCalls (followed : Nat) (schema : Site) : List Call :=
  match schema.reference? with
  | some reference => referenceCalls document followed reference
  | none =>
    match stringEnum? schema.node with
    | some _ => []
    | none =>
      if schema.has "allOf" || hasProperties schema.node then
        (properties document schema).properties.map fun property => ⟨property.2, followed⟩
      else match alternatives? schema with
        | some alternatives => alternatives.flatMap (alternativeCalls document followed)
        | none =>
          if schema.string? "type" == some "object" && !schema.has "additionalProperties" then []
          else [⟨schema, followed⟩]

/-- The call for what an object maps its keys to, if a schema describes it. -/
def valueCalls (followed : Nat) (schema : Site) : List Call :=
  (((schema.get? "additionalProperties").filter (·.node.isObject)).map
    fun value => ⟨value, followed⟩).toList

def plainCalls (followed : Nat) (schema : Site) : List Call :=
  let type := Schema.typeName? schema.node
  if type = some "array" then
    ((schema.get? "items").map fun items => ⟨items, followed⟩).toList
  else if type = some "object" ∨ type = none then valueCalls followed schema
  else []

def calls (call : Call) : List Call :=
  match call.site.reference? with
  | some reference => referenceCalls document call.followed reference
  | none =>
    match stringEnum? call.site.node with
    | some _ => []
    | none =>
      match parts? call.site with
      | some [part] =>
        if hasProperties call.site.node then modelCalls document call.followed call.site
        else [⟨part, call.followed⟩]
      | some _ => modelCalls document call.followed call.site
      | none =>
        if (alternatives? call.site).isSome || hasProperties call.site.node then
          modelCalls document call.followed call.site
        else plainCalls call.followed call.site

/-! ### The calls of each kind of schema -/

theorem modelCalls_eq (followed : Nat) (schema : Site) :
    modelCalls document followed schema =
      match shapeKind schema with
      | .reference reference _ => referenceCalls document followed reference
      | .enum _ _ _ => []
      | .record _ _ _ =>
        (properties document schema).properties.map fun property => ⟨property.2, followed⟩
      | .union alternatives _ _ _ _ => alternatives.flatMap (alternativeCalls document followed)
      | .empty _ _ _ _ _ => []
      | .type _ _ _ _ _ => [⟨schema, followed⟩] := by
  cases shapeKind schema <;> simp only [modelCalls, *] <;> rfl

theorem plainCalls_eq (followed : Nat) (schema : Site) :
    plainCalls followed schema =
      match plainKind schema with
      | .array items _ _ => [⟨items, followed⟩]
      | .map value _ _ _ _ => [⟨value, followed⟩]
      | .anyArray _ _ | .anyMap _ _ _ _ | .any _ _ | .primitive _ _ _ _ _ _ |
        .unknown _ _ _ _ _ => [] := by
  cases plainKind schema with
  | map value fields htype hvalue hnode =>
    obtain htype | htype := htype <;>
      simp [plainCalls, valueCalls, htype, hvalue, hnode, Json.isObject]
  | anyMap value htype hvalue hnode =>
    obtain htype | htype := htype <;>
      simp [plainCalls, valueCalls, htype, hvalue, hnode, Json.isObject]
  | any htype hvalue =>
    have hnone : valueCalls followed schema = [] := by
      cases hfound : schema.get? "additionalProperties" with
      | none => simp [valueCalls, hfound]
      | some value =>
        have hobject : value.node.isObject = false := by
          cases hnode : value.node with
          | object fields => exact absurd hnode ((hvalue value hfound).2 fields)
          | _ => rfl
        simp [valueCalls, hfound, hobject]
    obtain htype | htype := htype <;> simp [plainCalls, htype, hnone]
  | _ => simp [plainCalls, *]

theorem calls_eq (call : Call) :
    calls document call =
      match typeKind call.site with
      | .reference reference _ => referenceCalls document call.followed reference
      | .enum _ _ _ => []
      | .object _ => modelCalls document call.followed call.site
      | .part part _ _ _ _ => [⟨part, call.followed⟩]
      | .plain _ _ _ _ => plainCalls call.followed call.site := by
  cases typeKind call.site with
  | object hobject =>
    simp only [calls, hobject.noReference, hobject.noEnum]
    split
    · rename_i part hparts
      exact if_pos (hobject.own part hparts)
    · rfl
    · rename_i hparts
      exact if_pos (hobject.listed hparts)
  | _ => simp only [calls, *] <;> rfl

end Graph

/-! ## Computations that have a result under a condition -/

/-- The named schemas have their models, and a number of references is being followed. -/
structure Following (document : Document) (followed : Nat) (state : State) : Prop where
  named : ∀ raw, state.schemaNames.has raw = Entries.has document.schemas raw
  depth : state.inlineDepth = followed

variable {α β : Type} {document : Document} {followed : Nat}

theorem Following.of_eq {state after : State} (h : Following document followed state)
    (hnames : after.schemaNames = state.schemaNames)
    (hdepth : after.inlineDepth = state.inlineDepth) : Following document followed after :=
  ⟨fun raw => hnames ▸ h.named raw, hdepth ▸ h.depth⟩

/-- The computation has a result exactly under the condition. As many references are being
followed after it as before. -/
def Finishes (document : Document) (followed : Nat) (m : SchemaM α) (condition : Prop) : Prop :=
  Contract (¬ condition) (Following document followed) m fun _ after =>
    condition ∧ Following document followed after

namespace Finishes

variable {m : SchemaM α} {condition condition' : Prop}

theorem congr (h : Finishes document followed m condition) (hiff : condition ↔ condition') :
    Finishes document followed m condition' :=
  propext hiff ▸ h

theorem pure (value : α) : Finishes document followed (pure value) True :=
  Contract.pure fun _ hstate => ⟨trivial, hstate⟩

theorem bind {next : α → SchemaM β} (first : Finishes document followed m condition)
    (second : ∀ value, Finishes document followed (next value) condition') :
    Finishes document followed (m >>= next) (condition ∧ condition') := by
  intro state hstate
  rw [StateT.run_bind]
  cases hrun : m.run state with
  | none =>
    have hstuck := first.no_result hstate hrun
    exact fun h => hstuck h.1
  | some result =>
    obtain ⟨value, middle⟩ := result
    obtain ⟨hcondition, hmiddle⟩ := first.result hstate hrun
    refine (second value).consequence ?_ (fun _ h => h) ?_ middle hmiddle
    · exact fun hstuck h => hstuck h.2
    · exact fun _ _ h => ⟨⟨hcondition, h.1⟩, h.2⟩

/-- A first step that always has a result adds no condition. -/
theorem after {next : α → SchemaM β} (first : Finishes document followed m True)
    (second : ∀ value, Finishes document followed (next value) condition) :
    Finishes document followed (m >>= next) condition :=
  (first.bind second).congr (iff_of_eq (true_and condition))

/-- A last step that always has a result adds no condition. -/
theorem before {next : α → SchemaM β} (first : Finishes document followed m condition)
    (second : ∀ value, Finishes document followed (next value) True) :
    Finishes document followed (m >>= next) condition :=
  (first.bind second).congr (iff_of_eq (and_true condition))

theorem get_bind {next : State → SchemaM β}
    (h : ∀ state, Following document followed state →
      Finishes document followed (next state) condition) :
    Finishes document followed (get >>= next) condition :=
  Contract.get_bind fun state hstate => (h state hstate).mono_pre fun _ heq => heq ▸ hstate

/-- Following one more reference for the time of a computation. -/
theorem deeper (h : Finishes document (followed + 1) m condition) :
    Finishes document followed (do
      modify fun state => { state with inlineDepth := state.inlineDepth + 1 }
      let value ← m
      modify fun state => { state with inlineDepth := state.inlineDepth - 1 }
      return value) condition := by
  intro state hstate
  have hopen : Following document (followed + 1)
      { state with inlineDepth := state.inlineDepth + 1 } :=
    ⟨hstate.named, congrArg (· + 1) hstate.depth⟩
  have hrest : Contract (¬ condition) (Following document (followed + 1)) (do
      let value ← m
      modify fun state => { state with inlineDepth := state.inlineDepth - 1 }
      return value) fun _ after => condition ∧ Following document followed after := by
    refine Contract.bind h ?_
    rintro value middle ⟨hcondition, hmiddle⟩
    exact ⟨hcondition, hmiddle.named, by simp [hmiddle.depth]⟩
  exact hrest _ hopen

theorem modify {change : State → State}
    (hchange : ∀ state, (change state).schemaNames = state.schemaNames ∧
      (change state).inlineDepth = state.inlineDepth) :
    Finishes document followed (modify change : SchemaM PUnit) True :=
  Contract.modify fun state hstate =>
    ⟨trivial, hstate.of_eq (hchange state).1 (hchange state).2⟩

theorem forM {items : List α} {action : α → SchemaM PUnit} {each : α → Prop}
    (h : ∀ item ∈ items, Finishes document followed (action item) (each item)) :
    Finishes document followed (items.forM action) (∀ item ∈ items, each item) := by
  induction items with
  | nil => exact (Finishes.pure _).congr (by simp)
  | cons item items ih =>
    obtain ⟨hitem, hitems⟩ := List.forall_mem_cons.1 h
    refine Finishes.congr ?_ List.forall_mem_cons.symm
    exact hitem.bind fun _ => ih hitems

theorem mapM {items : List α} {action : α → SchemaM β} {each : α → Prop}
    (h : ∀ item ∈ items, Finishes document followed (action item) (each item)) :
    Finishes document followed (items.mapM action) (∀ item ∈ items, each item) := by
  induction items with
  | nil => exact (Finishes.pure _).congr (by simp)
  | cons item items ih =>
    obtain ⟨hitem, hitems⟩ := List.forall_mem_cons.1 h
    refine Finishes.congr ?_ List.forall_mem_cons.symm
    rw [List.mapM_cons]
    refine hitem.bind ?_
    intro value
    exact (ih hitems).before fun _ => Finishes.pure _

end Finishes

theorem remark_finishes (subject : Remark) (location : String) :
    Finishes document followed (remark subject location) True :=
  Finishes.modify fun _ => ⟨rfl, rfl⟩

/-- A remark and an answer beside it. -/
theorem remarked_finishes (subject : Remark) (location : String) (value : α) :
    Finishes document followed (do remark subject location; return value) True :=
  (remark_finishes subject location).after fun _ => Finishes.pure value

theorem insertModel_finishes (model : Model) :
    Finishes document followed (insertModel model) True :=
  Finishes.modify fun _ => ⟨rfl, rfl⟩

theorem noted_finishes (identifier : Identifier) (location : String) :
    Finishes document followed (noted identifier location) True := by
  intro state hstate
  rw [noted_run]
  exact ⟨trivial, hstate.of_eq rfl rfl⟩

theorem claimed_finishes (claim : NameBook → Identifier × NameBook) (location : String) :
    Finishes document followed (claimed claim location) True := by
  intro state hstate
  rw [claimed_run]
  exact ⟨trivial, hstate.of_eq rfl rfl⟩

/-! ## Steps of the recursion -/

/-- The calls that `find` answers are those with `answered`. -/
def Answers (document : Document) (answered : Call → Prop) (find : TypeFinder) : Prop :=
  ∀ call hint location,
    Finishes document call.followed (find call.site hint location) (answered call)

section Steps

variable {setting : Setting} {recur : TypeFinder} {answered : Call → Prop}

theorem Answers.site (h : Answers document answered recur) (followed : Nat) (site : Site)
    (hint location : String) :
    Finishes document followed (recur site hint location) (answered ⟨site, followed⟩) :=
  h ⟨site, followed⟩ hint location

/-- A reference has a model exactly when it names a named schema. -/
theorem isSome_schemaModel? {names : Entries String}
    (hnames : ∀ raw, names.has raw = Entries.has document.schemas raw) (reference : String) :
    (schemaModel? names reference).isSome = isNamed document reference := by
  unfold schemaModel? isNamed
  cases namedSchema? reference with
  | none => rfl
  | some raw => exact hnames raw

theorem refType_finishes (hrecur : Answers setting.document answered recur)
    (reference hint location : String) :
    Finishes setting.document followed (refType setting recur reference hint location)
      (∀ next ∈ referenceCalls setting.document followed reference, answered next) := by
  refine Finishes.get_bind ?_
  intro state hstate
  have hnamed := isSome_schemaModel? hstate.named reference
  unfold referenceCalls
  cases hmodel : schemaModel? state.schemaNames reference with
  | some model =>
    rw [hmodel] at hnamed
    simpa [← hnamed] using Finishes.pure (DataType.named model)
  | none =>
    rw [hmodel] at hnamed
    simp only [← hnamed, Option.isSome_none, Bool.false_eq_true, if_false]
    cases Pointer.find? setting.document.tree reference with
    | none =>
      exact (remarked_finishes _ _ _).congr (by simp)
    | some target =>
      simp only [hstate.depth]
      split
      · exact (remarked_finishes _ _ _).congr (by simp)
      · refine (Finishes.deeper (hrecur.site (followed + 1) target hint location)).congr ?_
        simp

theorem fieldsOf_finishes (hrecur : Answers document answered recur) (model location : String)
    (required : List String) (scope : NameScope) (properties : List (String × Site)) :
    Finishes document followed (fieldsOf setting recur model location required scope properties)
      (∀ property ∈ properties, answered ⟨property.2, followed⟩) := by
  induction properties generalizing scope with
  | nil => exact (Finishes.pure _).congr (by simp)
  | cons property rest ih =>
    refine Finishes.congr ?_ List.forall_mem_cons.symm
    refine (noted_finishes _ _).after ?_
    intro name
    refine (hrecur.site followed property.2 _ _).bind ?_
    intro type
    exact (ih _).before fun _ => Finishes.pure _

theorem variantOf_finishes (hrecur : Answers document answered recur) (model location : String)
    (position : Nat) (alternative : Site) :
    Finishes document followed (variantOf setting recur model location position alternative)
      (∀ next ∈ alternativeCalls document followed alternative, answered next) := by
  refine Finishes.get_bind ?_
  intro state hstate
  unfold alternativeCalls
  split
  · rename_i variant hvariant
    obtain ⟨reference, hreference, htarget⟩ := Option.bind_eq_some_iff.1 hvariant
    obtain ⟨target, hmodel, rfl⟩ := Option.map_eq_some_iff.1 htarget
    have hnamed := isSome_schemaModel? hstate.named reference
    rw [hmodel] at hnamed
    simpa [hreference, ← hnamed] using Finishes.pure (Variant.mk target _)
  · -- Only a reference to a named schema is a variant without a call.
    rename_i hvariant
    have hnot : alternative.reference?.any (isNamed document) = false := by
      cases hreference : alternative.reference? with
      | none => rfl
      | some reference =>
        rw [Option.any_some, ← isSome_schemaModel? hstate.named reference]
        simpa [hreference] using hvariant
    simp only [hnot, Bool.false_eq_true, if_false, List.forall_mem_singleton]
    refine (hrecur.site followed alternative _ location).before ?_
    intro type
    split
    · exact Finishes.pure _
    · refine (claimed_finishes _ _).after ?_
      intro name
      exact (insertModel_finishes _).after fun _ => Finishes.pure _

theorem variantsOf_finishes (hrecur : Answers document answered recur) (model location : String)
    (position : Nat) (alternatives : List Site) :
    Finishes document followed (variantsOf setting recur model location position alternatives)
      (∀ next ∈ alternatives.flatMap (alternativeCalls document followed), answered next) := by
  induction alternatives generalizing position with
  | nil => exact (Finishes.pure _).congr (by simp)
  | cons alternative rest ih =>
    rw [List.flatMap_cons]
    refine Finishes.congr ?_ List.forall_mem_append.symm
    refine (variantOf_finishes hrecur model location position alternative).bind ?_
    intro variant
    exact (ih (position + 1)).before fun _ => Finishes.pure _

theorem shapeOf_finishes (hrecur : Answers setting.document answered recur) (name : String)
    (schema : Site) (location : String) :
    Finishes setting.document followed (shapeOf setting recur name schema location)
      (∀ next ∈ modelCalls setting.document followed schema, answered next) := by
  rw [shapeOf_eq, modelCalls_eq]
  cases shapeKind schema with
  | reference reference =>
    exact (refType_finishes hrecur reference name location).before fun _ => Finishes.pure _
  | enum values => exact (Finishes.pure _).congr (by simp)
  | record =>
    refine Finishes.congr ?_ List.forall_mem_map.symm
    exact (fieldsOf_finishes hrecur name location _ _ _).before fun _ => Finishes.pure _
  | union alternatives =>
    refine (variantsOf_finishes hrecur name location 1 alternatives).before ?_
    intro variants
    exact Finishes.get_bind fun _ _ => Finishes.pure _
  | empty => exact (Finishes.pure _).congr (by simp)
  | type =>
    refine Finishes.congr ?_ List.forall_mem_singleton.symm
    exact (hrecur.site followed schema name location).before fun _ => Finishes.pure _

theorem modelOf_finishes (hrecur : Answers setting.document answered recur) (name raw : String)
    (schema : Site) (location : String) :
    Finishes setting.document followed (modelOf setting recur name raw schema location)
      (∀ next ∈ modelCalls setting.document followed schema, answered next) :=
  (shapeOf_finishes hrecur name schema location).before fun _ => Finishes.pure _

theorem hoist_finishes (hrecur : Answers setting.document answered recur) (schema : Site)
    (hint location : String) :
    Finishes setting.document followed (hoist setting recur schema hint location)
      (∀ next ∈ modelCalls setting.document followed schema, answered next) := by
  refine (claimed_finishes _ _).after ?_
  intro name
  refine (insertModel_finishes _).after ?_
  intro _
  refine (modelOf_finishes hrecur name hint schema location).before ?_
  intro model
  exact (insertModel_finishes _).after fun _ => Finishes.pure _

theorem plainType_finishes (hrecur : Answers document answered recur) (schema : Site)
    (hint location : String) :
    Finishes document followed (plainType recur schema hint location)
      (∀ next ∈ plainCalls followed schema, answered next) := by
  rw [plainType_eq, plainCalls_eq]
  cases plainKind schema with
  | array items =>
    refine Finishes.congr ?_ List.forall_mem_singleton.symm
    exact (hrecur.site followed items _ location).before fun _ => Finishes.pure _
  | anyArray => exact (remarked_finishes _ _ _).congr (by simp)
  | map value =>
    refine Finishes.congr ?_ List.forall_mem_singleton.symm
    exact (hrecur.site followed value _ location).before fun _ => Finishes.pure _
  | anyMap => exact (Finishes.pure _).congr (by simp)
  | any => exact (Finishes.pure _).congr (by simp)
  | primitive type kind => exact (Finishes.pure _).congr (by simp)
  | unknown type => exact (remarked_finishes _ _ _).congr (by simp)

theorem coreType_finishes (hrecur : Answers setting.document answered recur) (schema : Site)
    (hint location : String) :
    Finishes setting.document followed (coreType setting recur schema hint location)
      (∀ next ∈ calls setting.document ⟨schema, followed⟩, answered next) := by
  rw [coreType_eq, calls_eq]
  cases typeKind schema with
  | reference reference => exact refType_finishes hrecur reference hint location
  | enum values =>
    refine Finishes.congr ?_ (iff_of_true trivial (by simp))
    exact (claimed_finishes _ _).after fun _ => Finishes.pure _
  | object => exact hoist_finishes hrecur schema hint location
  | part part =>
    exact (hrecur.site followed part hint location).congr List.forall_mem_singleton.symm
  | plain => exact plainType_finishes hrecur schema hint location

theorem typeStep_finishes (hrecur : Answers setting.document answered recur) (schema : Site)
    (hint location : String) :
    Finishes setting.document followed (typeStep setting recur schema hint location)
      (∀ next ∈ calls setting.document ⟨schema, followed⟩, answered next) :=
  (coreType_finishes hrecur schema hint location).before fun _ => Finishes.pure _

end Steps

/-- A call whose chains of calls are all shorter than a depth. -/
def Within (document : Document) : Nat → Call → Prop
  | 0, _ => False
  | depth + 1, call => ∀ next ∈ calls document call, Within document depth next

/-- A depth answers exactly the calls within it. -/
theorem answers_typeOf (setting : Setting) (depth : Nat) :
    Answers setting.document (Within setting.document depth) (typeOf setting depth) := by
  induction depth with
  | zero =>
    intro call hint location state _
    exact id
  | succ depth ih =>
    intro call hint location
    exact typeStep_finishes ih call.site hint location

/-! ## Named schemas -/

/-- The named schemas declared so far; no reference is being followed yet. -/
structure Declared (raws : List String) (state : State) : Prop where
  named : ∀ raw, state.schemaNames.has raw = raws.contains raw
  depth : state.inlineDepth = 0

theorem declareModel_declared (setting : Setting) (raw : String) (raws : List String) :
    Contract False (Declared raws) (declareModel setting raw) fun _ => Declared (raw :: raws) := by
  intro state hstate
  have hclaim := claimed_run (NameBook.claimType setting.target raw) (schemaLocation raw) state
  rw [declareModel, StateT.run_bind, claimType, hclaim]
  refine ⟨?_, hstate.depth⟩
  intro other
  rw [List.contains_cons, BEq.comm, ← hstate.named other]
  exact Entries.has_put raw other _ state.schemaNames

theorem forM_declareModel_declared (setting : Setting) (schemas : List (String × Site))
    (raws : List String) :
    Contract False (Declared raws) (schemas.forM fun (raw, _) => declareModel setting raw)
      fun _ => Declared ((schemas.map Prod.fst).reverse ++ raws) := by
  induction schemas generalizing raws with
  | nil => exact Contract.pure fun _ h => h
  | cons schema rest ih =>
    rw [List.map_cons, List.reverse_cons, List.append_assoc]
    exact (declareModel_declared setting schema.1 raws).bind fun _ => ih (schema.1 :: raws)

/-- Once the named schemas are declared, exactly they have models. -/
theorem declareModels_following (setting : Setting) :
    Contract False (· = State.initial) (declareModels setting) fun _ =>
      Following setting.document 0 := by
  refine (forM_declareModel_declared setting setting.document.schemas []).consequence id ?_ ?_
  · rintro _ rfl
    exact ⟨fun _ => rfl, rfl⟩
  · intro _ after hafter
    refine ⟨?_, hafter.depth⟩
    intro raw
    rw [hafter.named raw, Bool.eq_iff_iff, List.contains_iff_mem, Entries.has,
      Entries.isSome_get?_iff]
    simp [Entries.keys]

theorem lowerModel_finishes {setting : Setting} {find : TypeFinder} {answered : Call → Prop}
    (hfind : Answers setting.document answered find) {raw : String} {schema : Site}
    (hmem : (raw, schema) ∈ setting.document.schemas) :
    Finishes setting.document 0 (lowerModel setting find raw schema)
      (∀ next ∈ modelCalls setting.document 0 schema, answered next) := by
  refine Finishes.get_bind ?_
  intro state hstate
  have hnamed : (state.schemaNames.get? raw).isSome = true := by
    rw [← Entries.has, hstate.named raw, Entries.has, Entries.isSome_get?_iff]
    exact List.mem_map_of_mem hmem
  obtain ⟨name, hname⟩ := Option.isSome_iff_exists.1 hnamed
  simp only [hname]
  exact (modelOf_finishes hfind name raw schema _).before fun _ => insertModel_finishes _

/-- Lowering the named schemas takes the calls of each of them. -/
theorem lowerModels_finishes {setting : Setting} {find : TypeFinder} {answered : Call → Prop}
    (hfind : Answers setting.document answered find) :
    Finishes setting.document 0 (lowerModels setting find)
      (∀ next ∈ setting.document.schemas.flatMap (modelCalls setting.document 0 ·.2),
        answered next) := by
  refine Finishes.congr (Finishes.forM fun schema hmem => lowerModel_finishes hfind hmem) ?_
  simp only [List.mem_flatMap]
  exact ⟨fun h next ⟨schema, hmem, hnext⟩ => h schema hmem next hnext,
    fun h schema hmem next hnext => h next ⟨schema, hmem, hnext⟩⟩

end ServantGen.Lowering
