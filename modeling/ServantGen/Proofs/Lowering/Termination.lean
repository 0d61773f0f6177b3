import Mathlib.Logic.Relation
import ServantGen.Haskell.Package
import ServantGen.Proofs.Document.Sites
import ServantGen.Proofs.Lowering.Agenda

/-!
# When lowering ends

A call that comes back to itself has no answer at any depth. All the calls of a document are
about its sites, so there are finitely many, and a chain of calls that is longer than their
number comes back to one of them. Hence lowering ends exactly when no call of the agenda leads
into a circle, and then the depth that is allowed suffices.

Circles exist: a property that is an `allOf` of several parts becomes a model of its own with the
properties of the parts, and a part may be the schema that the property belongs to.
-/

namespace ServantGen.Lowering

open Relation

variable {document : Document} {call next : Call}

/-- A call makes another. -/
def Calls (document : Document) (call next : Call) : Prop :=
  next ∈ calls document call

/-- A chain of calls from here comes back to one of its own calls. -/
def LeadsIntoCircle (document : Document) (call : Call) : Prop :=
  ∃ last, ReflTransGen (Calls document) call last ∧ TransGen (Calls document) last last

theorem LeadsIntoCircle.of_next (h : LeadsIntoCircle document next)
    (hnext : Calls document call next) : LeadsIntoCircle document call := by
  obtain ⟨last, hchain, hcircle⟩ := h
  exact ⟨last, hchain.head hnext, hcircle⟩

namespace Within

/-- Along a chain of calls less and less depth is needed. -/
theorem exists_lt {depth : Nat} (h : Within document depth call)
    (hchain : TransGen (Calls document) call next) :
    ∃ less, less < depth ∧ Within document less next := by
  induction hchain with
  | single hnext =>
    cases depth with
    | zero => exact h.elim
    | succ depth => exact ⟨depth, Nat.lt_succ_self depth, h _ hnext⟩
  | tail _ hnext ih =>
    obtain ⟨middle, hmiddle, hwithin⟩ := ih
    cases middle with
    | zero => exact hwithin.elim
    | succ less => exact ⟨less, by omega, hwithin _ hnext⟩

/-- A call on a circle is within no depth. -/
theorem not_of_circle (hcircle : TransGen (Calls document) call call) (depth : Nat) :
    ¬ Within document depth call := by
  induction depth using Nat.strong_induction_on with
  | _ depth ih =>
    intro h
    obtain ⟨less, hless, hwithin⟩ := h.exists_lt hcircle
    exact ih less hless hwithin

theorem not_leadsIntoCircle {depth : Nat} (h : Within document depth call) :
    ¬ LeadsIntoCircle document call := by
  rintro ⟨last, hchain, hcircle⟩
  obtain rfl | hchain := reflTransGen_iff_eq_or_transGen.1 hchain
  · exact not_of_circle hcircle depth h
  · obtain ⟨less, -, hwithin⟩ := h.exists_lt hchain
    exact not_of_circle hcircle less hwithin

/-- A call that leads into no circle is within the number of calls it leads to: the calls after
it lead to the same ones without it. -/
theorem of_not_leadsIntoCircle {depth : Nat} {reached : List Call}
    (hreached : ∀ last, ReflTransGen (Calls document) call last → last ∈ reached)
    (hdepth : reached.length ≤ depth) (h : ¬ LeadsIntoCircle document call) :
    Within document depth call := by
  classical
  induction depth generalizing call reached with
  | zero =>
    have hempty : reached = [] := List.eq_nil_of_length_eq_zero (Nat.le_zero.1 hdepth)
    have hself := hreached call .refl
    simp [hempty] at hself
  | succ depth ih =>
    intro next hnext
    have hself : call ∈ reached := hreached call .refl
    -- A chain from `next` back to `call` would be a circle, so `call` can be left out.
    refine @ih next (reached.filter (· ≠ call)) ?_ ?_ ?_
    · intro last hlast
      refine List.mem_filter.2 ⟨hreached last (hlast.head hnext), ?_⟩
      refine decide_eq_true ?_
      rintro rfl
      exact h ⟨last, .refl, TransGen.head' hnext hlast⟩
    · have hless : (reached.filter (· ≠ call)).length < reached.length :=
        List.length_filter_lt_length_iff_exists.2 ⟨call, hself, by simp⟩
      omega
    · exact fun hcircle => h (hcircle.of_next hnext)

end Within

/-! ## Calls stay in the document -/

/-- A call about a site of the document, with no more references followed than allowed. -/
structure Call.InDocument (document : Document) (call : Call) : Prop where
  site : call.site ∈ document.tree.sites
  followed : call.followed ≤ maxInlineDepth

def allCalls (document : Document) : List Call :=
  document.tree.sites.flatMap fun site =>
    (List.range (maxInlineDepth + 1)).map fun followed => ⟨site, followed⟩

theorem mem_allCalls (h : call.InDocument document) : call ∈ allCalls document := by
  refine List.mem_flatMap.2 ⟨call.site, h.site, List.mem_map.2 ⟨call.followed, ?_, rfl⟩⟩
  exact List.mem_range.2 (Nat.lt_succ_of_le h.followed)

theorem length_allCalls (document : Document) :
    (allCalls document).length = document.tree.nodeCount * (maxInlineDepth + 1) := by
  simp [allCalls, List.length_flatMap, Json.length_sites]

namespace Gathered

def InDocument (document : Document) (properties : List (String × Site)) : Prop :=
  ∀ property ∈ properties, property.2 ∈ document.tree.sites

theorem inDocument_addProperty {properties : List (String × Site)} {property : String × Site}
    (h : InDocument document properties) (hproperty : property.2 ∈ document.tree.sites) :
    InDocument document (addProperty properties property) := by
  unfold addProperty
  split
  · exact h
  · exact List.forall_mem_append.2 ⟨h, List.forall_mem_singleton.2 hproperty⟩

theorem inDocument_addOwn {gathered : Gathered} {schema : Site}
    (h : InDocument document gathered.properties) (hschema : schema ∈ document.tree.sites) :
    InDocument document (gathered.addOwn schema).properties := by
  refine List.foldlRecOn (motive := InDocument document) _ _ h ?_
  rintro properties hproperties ⟨name, property⟩ hmember
  exact inDocument_addProperty hproperties (Site.mem_of_membersAt hschema hmember)

theorem inDocument_gather {depth : Nat} {site : Site} {gathered : Gathered}
    (h : InDocument document gathered.properties) (hsite : site ∈ document.tree.sites) :
    InDocument document (gather document depth site gathered).properties := by
  induction depth generalizing site gathered with
  | zero => exact h
  | succ depth ih =>
    unfold gather
    split
    · exact h
    · rename_i schema hschema
      have hmem := Document.mem_of_resolve hsite hschema
      split
      · exact h
      · refine inDocument_addOwn ?_ hmem
        refine List.foldlRecOn (motive := fun more : Gathered =>
          InDocument document more.properties) _ _ h ?_
        intro gathered hgathered part hpart
        exact ih hgathered (Site.mem_of_itemsAt hmem hpart)

end Gathered

theorem inDocument_properties {schema : Site} (h : schema ∈ document.tree.sites) :
    Gathered.InDocument document (properties document schema).properties :=
  Gathered.inDocument_gather (by simp [Gathered.InDocument, Gathered.empty]) h

theorem inDocument_referenceCalls {followed : Nat} {reference : String}
    (h : next ∈ referenceCalls document followed reference) : next.InDocument document := by
  unfold referenceCalls at h
  split at h
  · simp at h
  · split at h
    · simp at h
    · rename_i target htarget
      split at h
      · simp at h
      · rename_i hfew
        obtain rfl := List.mem_singleton.1 h
        exact ⟨Pointer.mem_of_find? htarget, Nat.lt_of_not_le hfew⟩

theorem mem_of_alternatives? {schema alternative : Site} {alternatives : List Site}
    (h : schema ∈ document.tree.sites) (hsome : alternatives? schema = some alternatives)
    (hmem : alternative ∈ alternatives) : alternative ∈ document.tree.sites := by
  obtain ⟨hbind, -⟩ := Option.filter_eq_some_iff.1 hsome
  obtain ⟨array, harray, hitems⟩ := Option.bind_eq_some_iff.1 hbind
  obtain hone | ⟨-, hany⟩ := Option.or_eq_some_iff.1 harray
  · exact Site.mem_of_items? (Site.mem_of_get? h hone) hitems hmem
  · exact Site.mem_of_items? (Site.mem_of_get? h hany) hitems hmem

theorem mem_of_parts? {schema part : Site} {parts : List Site}
    (h : schema ∈ document.tree.sites) (hsome : parts? schema = some parts)
    (hmem : part ∈ parts) : part ∈ document.tree.sites := by
  obtain ⟨array, harray, hitems⟩ := Option.bind_eq_some_iff.1 hsome
  exact Site.mem_of_items? (Site.mem_of_get? h harray) hitems hmem

theorem mem_alternativeCalls {followed : Nat} {alternative : Site}
    (h : next ∈ alternativeCalls document followed alternative) :
    next = ⟨alternative, followed⟩ := by
  unfold alternativeCalls at h
  split at h
  · simp at h
  · exact List.mem_singleton.1 h

theorem inDocument_modelCalls {followed : Nat} {schema : Site}
    (h : (⟨schema, followed⟩ : Call).InDocument document)
    (hnext : next ∈ modelCalls document followed schema) : next.InDocument document := by
  rw [modelCalls_eq] at hnext
  generalize shapeKind schema = kind at hnext
  cases kind with
  | reference reference => exact inDocument_referenceCalls hnext
  | enum values => simp at hnext
  | record =>
    obtain ⟨property, hproperty, rfl⟩ := List.mem_map.1 hnext
    exact ⟨inDocument_properties h.site property hproperty, h.followed⟩
  | union alternatives _ _ _ hsome =>
    obtain ⟨alternative, hmem, hcall⟩ := List.mem_flatMap.1 hnext
    obtain rfl := mem_alternativeCalls hcall
    exact ⟨mem_of_alternatives? h.site hsome hmem, h.followed⟩
  | empty => simp at hnext
  | type =>
    obtain rfl := List.mem_singleton.1 hnext
    exact h

theorem inDocument_plainCalls {followed : Nat} {schema : Site}
    (h : (⟨schema, followed⟩ : Call).InDocument document)
    (hnext : next ∈ plainCalls followed schema) : next.InDocument document := by
  rw [plainCalls_eq] at hnext
  generalize plainKind schema = kind at hnext
  cases kind with
  | array items _ hitems =>
    obtain rfl := List.mem_singleton.1 hnext
    exact ⟨Site.mem_of_get? h.site hitems, h.followed⟩
  | map value _ _ hvalue =>
    obtain rfl := List.mem_singleton.1 hnext
    exact ⟨Site.mem_of_get? h.site hvalue, h.followed⟩
  | _ => simp at hnext

theorem inDocument_calls (h : call.InDocument document) (hnext : Calls document call next) :
    next.InDocument document := by
  rw [Calls, calls_eq] at hnext
  generalize typeKind call.site = kind at hnext
  cases kind with
  | reference reference => exact inDocument_referenceCalls hnext
  | enum values => simp at hnext
  | object => exact inDocument_modelCalls h hnext
  | part part _ _ hparts =>
    obtain rfl := List.mem_singleton.1 hnext
    exact ⟨mem_of_parts? h.site hparts List.mem_cons_self, h.followed⟩
  | plain => exact inDocument_plainCalls h hnext

theorem inDocument_of_chain (h : call.InDocument document)
    (hchain : ReflTransGen (Calls document) call next) : next.InDocument document := by
  induction hchain with
  | refl => exact h
  | tail _ hnext ih => exact inDocument_calls ih hnext

/-- A call whose chains of calls are shorter than a depth and keep to some calls. -/
def KeepsWithin (document : Document) (kept : Call → Prop) : Nat → Call → Prop
  | 0, _ => False
  | depth + 1, call =>
    kept call ∧ ∀ next ∈ calls document call, KeepsWithin document kept depth next

/-- The chains of calls of a document keep to whatever all its calls are. -/
theorem Within.keepsWithin {kept : Call → Prop}
    (hkept : ∀ call : Call, call.InDocument document → kept call) {depth : Nat}
    (h : Within document depth call) (hcall : call.InDocument document) :
    KeepsWithin document kept depth call := by
  induction depth generalizing call with
  | zero => exact h
  | succ depth ih =>
    exact ⟨hkept call hcall, fun next hnext => ih (h next hnext) (inDocument_calls hcall hnext)⟩

/-- In a document the depth that is allowed decides whether a call ends. -/
theorem within_depth_iff {setting : Setting} (h : call.InDocument setting.document) :
    Within setting.document setting.depth call ↔ ¬ LeadsIntoCircle setting.document call := by
  refine ⟨fun hwithin => hwithin.not_leadsIntoCircle, fun hcircle => ?_⟩
  have hreached : ∀ last, ReflTransGen (Calls setting.document) call last →
      last ∈ allCalls setting.document :=
    fun last hlast => mem_allCalls (inDocument_of_chain h hlast)
  have hlength : (allCalls setting.document).length ≤ setting.depth := by
    rw [length_allCalls, Setting.depth, Nat.succ_mul]
    omega
  exact Within.of_not_leadsIntoCircle hreached hlength hcircle

/-! ## The calls of the agenda -/

theorem Call.inDocument_start {site : Site} (h : site ∈ document.tree.sites) :
    (⟨site, 0⟩ : Call).InDocument document :=
  ⟨h, Nat.zero_le _⟩

namespace Agenda

def InDocument (document : Document) (agenda : Agenda) : Prop :=
  ∀ call ∈ agenda.calls, call.InDocument document

variable {left right : Agenda}

theorem inDocument_ofCalls {list : List Call} (h : ∀ call ∈ list, call.InDocument document) :
    InDocument document (ofCalls list) := by
  rwa [InDocument, calls_ofCalls]

theorem inDocument_ofFaults (errors : List BuildError) :
    InDocument document (ofFaults errors) := by
  simp [InDocument]

theorem inDocument_append (hleft : InDocument document left) (hright : InDocument document right) :
    InDocument document (left ++ right) := by
  unfold InDocument
  cases hfault : left.fault? with
  | none =>
    rw [calls_append_of_none hfault]
    exact List.forall_mem_append.2 ⟨hleft, hright⟩
  | some error => rwa [calls_append_of_some hfault]

theorem inDocument_flatMap {α : Type} {items : List α} {each : α → Agenda}
    (h : ∀ item ∈ items, InDocument document (each item)) :
    InDocument document (items.flatMap each) := by
  induction items with
  | nil => simp [InDocument, calls]
  | cons item items ih =>
    obtain ⟨hitem, hitems⟩ := List.forall_mem_cons.1 h
    rw [List.flatMap_cons]
    exact inDocument_append hitem (ih hitems)

theorem inDocument_reading {α : Type} {location : String} {outcome : Except ReadError α}
    {next : α → Agenda} (h : ∀ value, outcome = .ok value → InDocument document (next value)) :
    InDocument document (reading location outcome next) := by
  cases outcome with
  | ok value => exact h value rfl
  | error error => exact inDocument_ofFaults _

end Agenda

theorem inDocument_parameterCalls {parameter : Site} (h : parameter ∈ document.tree.sites) :
    ∀ call ∈ parameterCalls parameter, call.InDocument document := by
  intro call hcall
  obtain ⟨schema, hschema, rfl⟩ := Option.map_eq_some_iff.1 (Option.mem_toList.1 hcall)
  exact Call.inDocument_start (ParameterSite.mem_of_schema? h hschema)

theorem inDocument_parametersCalls {parameters : List Site} (hasBody : Bool)
    (h : ∀ parameter ∈ parameters, parameter ∈ document.tree.sites) :
    ∀ call ∈ parametersCalls hasBody parameters, call.InDocument document := by
  induction parameters generalizing hasBody with
  | nil => simp [parametersCalls]
  | cons parameter rest ih =>
    obtain ⟨hparameter, hrest⟩ := List.forall_mem_cons.1 h
    have hown := inDocument_parameterCalls hparameter
    rw [parametersCalls_cons]
    cases parameterKind parameter with
    | unknown => exact ih hasBody hrest
    | body =>
      cases hasBody with
      | true => exact ih true hrest
      | false => exact List.forall_mem_append.2 ⟨hown, ih true hrest⟩
    | own => exact List.forall_mem_append.2 ⟨hown, ih hasBody hrest⟩

section Operations

variable {setting : Setting} {operation : OperationSite}

theorem inDocument_bodyAgenda (h : operation.InTree setting.document.tree)
    (parameters : List Site) :
    Agenda.InDocument setting.document (bodyAgenda setting operation parameters) := by
  unfold bodyAgenda
  split
  · simp [Agenda.InDocument, Agenda.calls]
  · refine Agenda.inDocument_reading ?_
    intro body hbody
    refine Agenda.inDocument_ofCalls ?_
    intro call hcall
    obtain ⟨schema, hschema, rfl⟩ := Option.map_eq_some_iff.1 (Option.mem_toList.1 hcall)
    obtain ⟨site, rfl, hsite⟩ := Option.bind_eq_some_iff.1 hschema
    exact Call.inDocument_start (OperationSite.mem_of_requestBody? h hbody hsite)

theorem inDocument_responseAgenda (location : String) {response : ResponseSite}
    (h : response.node ∈ setting.document.tree.sites) :
    Agenda.InDocument setting.document (responseAgenda setting location response) := by
  unfold responseAgenda
  split
  · simp [Agenda.InDocument, Agenda.calls]
  · refine Agenda.inDocument_append (Agenda.inDocument_ofCalls ?_) (Agenda.inDocument_reading ?_)
    · intro call hcall
      obtain ⟨schema, hschema, rfl⟩ := Option.map_eq_some_iff.1 (Option.mem_toList.1 hcall)
      exact Call.inDocument_start (ResponseSite.mem_of_schema? h hschema)
    · intro headers hheaders
      refine Agenda.inDocument_ofCalls ?_
      intro call hcall
      obtain ⟨⟨name, node⟩, hmem, rfl⟩ := List.mem_map.1 hcall
      have hnode := ResponseSite.mem_of_headers h hheaders hmem
      exact Call.inDocument_start (Site.getD_get?_mem hnode "schema")

theorem inDocument_operationAgenda (h : operation.InTree setting.document.tree) :
    Agenda.InDocument setting.document (operationAgenda setting operation) := by
  refine Agenda.inDocument_reading ?_
  intro parameters hparameters
  refine Agenda.inDocument_append (Agenda.inDocument_ofCalls ?_) ?_
  · exact inDocument_parametersCalls false fun _ hmem =>
      OperationSite.mem_of_parameters h hparameters hmem
  refine Agenda.inDocument_append (Agenda.inDocument_ofFaults _) ?_
  refine Agenda.inDocument_append (inDocument_bodyAgenda h parameters) ?_
  refine Agenda.inDocument_reading ?_
  intro responses hresponses
  refine Agenda.inDocument_flatMap ?_
  intro response hmem
  exact inDocument_responseAgenda _ (OperationSite.mem_of_responses h hresponses hmem)

/-- All that lowering a document calls for is in the document. -/
theorem inDocument_documentAgenda (h : setting.document.PathsInTree) :
    Agenda.InDocument setting.document (documentAgenda setting) := by
  refine Agenda.inDocument_append (Agenda.inDocument_ofCalls ?_) ?_
  · intro call hcall
    obtain ⟨⟨raw, schema⟩, hmem, hmodel⟩ := List.mem_flatMap.1 hcall
    exact inDocument_modelCalls (Call.inDocument_start (Document.mem_of_schemas hmem)) hmodel
  · unfold operationsAgenda
    split
    · rename_i operations hoperations
      refine Agenda.inDocument_flatMap ?_
      intro operation hmem
      exact inDocument_operationAgenda (Document.inTree_of_operations h hoperations hmem)
    · exact Agenda.inDocument_ofFaults _

end Operations

/-! ## Termination -/

/-- Lowering has a result within some depth. -/
def Ends (setting : Setting) : Prop :=
  ∃ depth, ((lowerWith setting (typeOf setting depth)).run.run State.initial).isSome = true

theorem isSome_lowerWith_iff (setting : Setting) (depth : Nat) :
    ((lowerWith setting (typeOf setting depth)).run.run State.initial).isSome = true ↔
      ∀ call ∈ (documentAgenda setting).calls, Within setting.document depth call := by
  have hfollows := lowerWith_follows (answers_typeOf setting depth)
  cases hrun : (lowerWith setting (typeOf setting depth)).run.run State.initial with
  | none => exact iff_of_false (by simp) (hfollows.no_result rfl hrun)
  | some result => exact iff_of_true rfl (hfollows.result rfl hrun).1

theorem isSome_run_iff {setting : Setting} (h : setting.document.PathsInTree) :
    (run setting).isSome = true ↔
      ∀ call ∈ (documentAgenda setting).calls, ¬ LeadsIntoCircle setting.document call := by
  rw [run, Option.isSome_map, lowerApi, isSome_lowerWith_iff]
  exact forall₂_congr fun call hcall => within_depth_iff (inDocument_documentAgenda h call hcall)

/-- If some depth suffices, the depth that is allowed does. -/
theorem isSome_run_of_ends {setting : Setting} (h : setting.document.PathsInTree)
    (hends : Ends setting) : (run setting).isSome = true := by
  obtain ⟨depth, hdepth⟩ := hends
  rw [isSome_run_iff h]
  intro call hcall
  exact ((isSome_lowerWith_iff setting depth).1 hdepth call hcall).not_leadsIntoCircle

/-- Lowering a document that was read ends exactly when no call of its agenda leads into a
circle, and it then ends within the depth that is allowed. -/
theorem ends_iff_not_leadsIntoCircle {tree : Json} {document : Document}
    (h : Document.ofTree tree = .ok document) (target : Target) :
    (Ends ⟨document, target⟩ ↔
      ∀ call ∈ (documentAgenda ⟨document, target⟩).calls, ¬ LeadsIntoCircle document call) ∧
    (Ends ⟨document, target⟩ ↔ (run ⟨document, target⟩).isSome = true) := by
  have hpaths := Document.pathsInTree_of_ofTree h
  have hrun : Ends ⟨document, target⟩ ↔ (run ⟨document, target⟩).isSome = true := by
    refine ⟨isSome_run_of_ends hpaths, fun hsome => ⟨Setting.depth ⟨document, target⟩, ?_⟩⟩
    rwa [run, Option.isSome_map] at hsome
  exact ⟨hrun.trans (isSome_run_iff hpaths), hrun⟩

/-- Two schemas that refer to each other are lowered. -/
theorem ends_iff_not_leadsIntoCircle_mutual :
    let tree : Json := .object [("info", .object []), ("paths", .object []),
      ("definitions", .object [
        ("A", .object [("properties", .object [("b",
          .object [("$ref", .string "#/definitions/B")])])]),
        ("B", .object [("properties", .object [("a", .object [("allOf", .array [
          .object [("$ref", .string "#/definitions/A")]])])])])])]
    let document : Document := ⟨tree, []⟩
    Document.ofTree tree = .ok document ∧ Ends ⟨document, Haskell.target⟩ ∧
      ∀ call ∈ (documentAgenda ⟨document, Haskell.target⟩).calls,
        ¬ LeadsIntoCircle document call := by
  intro tree document
  obtain ⟨hcircle, hrun⟩ := @ends_iff_not_leadsIntoCircle tree document rfl Haskell.target
  have hends : Ends ⟨document, Haskell.target⟩ := hrun.2 (by decide +kernel)
  exact ⟨rfl, hends, hcircle.1 hends⟩

/-- A property that is made of its own schema and a second part becomes a model with that same
property, over and over. -/
theorem not_ends_of_property_made_of_its_schema :
    let property : Json := .object [("allOf", .array [
      .object [("$ref", .string "#/components/schemas/A")], .object []])]
    let tree : Json := .object [("info", .object []), ("paths", .object []),
      ("components", .object [("schemas", .object [
        ("A", .object [("properties", .object [("p", property)])])])])]
    let document : Document := ⟨tree, []⟩
    Document.ofTree tree = .ok document ∧ ¬ Ends ⟨document, Haskell.target⟩ := by
  intro property tree document
  refine ⟨rfl, ?_⟩
  rintro ⟨depth, hdepth⟩
  let call : Call := ⟨⟨[.key "components", .key "schemas", .key "A", .key "properties", .key "p"],
    property⟩, 0⟩
  have hself : Calls document call call := by
    have hcalls : calls document call = [call] := rfl
    rw [Calls, hcalls]
    exact List.mem_singleton_self call
  have hagenda : (documentAgenda ⟨document, Haskell.target⟩).calls = [call] := rfl
  have hwithin := (isSome_lowerWith_iff ⟨document, Haskell.target⟩ depth).1 hdepth call
    (hagenda ▸ List.mem_singleton_self call)
  exact hwithin.not_leadsIntoCircle ⟨call, .refl, .single hself⟩

end ServantGen.Lowering
