import ServantGen.Proofs.Closure.Api
import ServantGen.Proofs.Haskell.Names
import ServantGen.Proofs.Haskell.Phrases
import ServantGen.Proofs.Ledger.Api

/-!
# The names of a lowered interface

Whatever the names in a document are, those of the interface it is lowered to are words: letters
and digits, perhaps an underscore that tells a name from a word of the language, and a number
behind it where a name was taken. So every type of the interface is read as one phrase.
-/

namespace ServantGen

namespace Haskell

open Text (MadeOf)

theorem isWord_base (role : Role) (raw : String) : IsWord (convention.base role raw) where
  ne_empty := base_ne_empty role raw
  made := (madeOf_base role raw).mono fun c hc => by simp [hc]

/-- An identifier is a word, escaped or not. -/
theorem isWord_identifier {target : Target} (h : target.convention = convention) (role : Role)
    (raw : String) : IsWord (target.identifier role raw) := by
  unfold Target.identifier
  rw [h]
  dsimp only
  split
  · exact (isWord_base role raw).append (by decide)
  · exact isWord_base role raw

theorem isWord_numbered {name : String} (h : IsWord name) (number : Nat) :
    IsWord (NameScope.numbered name number) :=
  h.append (isWord_decimal number).made

end Haskell

open Haskell (IsWord HasWords)

/-- The root stands for a whole route or does not occur in it. -/
def Route.RootAlone (route : Route) : Prop :=
  route.segments = [.root] ∨ Segment.root ∉ route.segments

theorem Route.rootAlone_ofSegments (segments : List Segment) :
    (Route.ofSegments segments).RootAlone := by
  by_cases h : segments.flatMap Segment.steps = []
  · exact .inl (segments_ofSegments_of_no_steps h)
  · exact .inr (root_notMem_ofSegments h)

namespace Api

/-- An interface whose types and operations can be read in generated code. -/
structure Legible (api : Api) : Prop where
  refers : api.RefersToItself
  types : ∀ name ∈ api.models.names ++ api.inlineEnums.map InlineEnum.name, IsWord name
  operations : ∀ operation ∈ api.operations, IsWord operation.id
  routes : ∀ operation ∈ api.operations, operation.path.RootAlone

/-- Every type that the interface mentions has words for names. -/
theorem Legible.hasWords {api : Api} (h : api.Legible) {type : DataType}
    (htype : type ∈ api.allTypes) : HasWords type where
  models := by
    intro name hname
    refine h.types name (List.mem_append_left _ ?_)
    exact ModelTable.contains_iff.1 (h.refers.types type htype name hname)
  enums := by
    intro entry hentry
    refine h.types entry.1 (List.mem_append_right _ ?_)
    exact List.mem_map_of_mem (f := InlineEnum.name) (h.refers.enums type htype entry hentry)

theorem Legible.operationTypes {api : Api} (h : api.Legible) {operation : Operation}
    (hmem : operation ∈ api.operations) :
    ∀ type ∈ Api.operationTypes operation, HasWords type := by
  intro type htype
  refine h.hasWords (List.mem_append_left _ (List.mem_append_right _ ?_))
  exact List.mem_flatMap.2 ⟨operation, hmem, htype⟩

theorem Legible.routeTypes {api : Api} (h : api.Legible) {operation : Operation}
    (hmem : operation ∈ api.operations) : ∀ type ∈ operation.path.types, HasWords type := by
  intro type htype
  exact h.hasWords (List.mem_append_right _ (List.mem_flatMap.2 ⟨operation, hmem, htype⟩))

end Api

namespace Lowering

variable {setting : Setting} {find : TypeFinder} {api : Api} {notices : List Notice}

theorem lowerOperation_rootAlone (site : OperationSite) :
    ReturnsOk (lowerOperation setting find site) fun operation => operation.path.RootAlone := by
  have hroute : ∀ parameters, ReturnsOk (lowerRoute setting site parameters) Route.RootAlone := by
    intro parameters
    refine (ReturnsOk.any _).bind fun segments _ => ?_
    exact (ReturnsOk.any _).bind fun _ _ => ReturnsOk.pure (Route.rootAlone_ofSegments segments)
  refine (ReturnsOk.any _).bind fun id _ => ?_
  refine (ReturnsOk.any _).bind fun sites _ => ?_
  refine (ReturnsOk.any _).bind fun lowered _ => ?_
  refine (hroute lowered.parameters).bind fun route halone => ?_
  refine (ReturnsOk.any _).bind fun body _ => ?_
  refine (ReturnsOk.any _).bind fun sites _ => ?_
  exact (ReturnsOk.any _).bind fun responses _ => ReturnsOk.pure halone

theorem lowerWith_rootAlone : ReturnsOk (lowerWith setting find) fun api =>
    ∀ operation ∈ api.operations, operation.path.RootAlone := by
  have hoperations : ReturnsOk (lowerOperations setting find) fun operations =>
      ∀ operation ∈ operations, operation.path.RootAlone := by
    refine (ReturnsOk.any _).bind fun sites _ => ?_
    have hall := @ReturnsOk.mapM _ _ sites (lowerOperation setting find)
      (fun _ operation => operation.path.RootAlone) lowerOperation_rootAlone
    refine Contract.mono_post hall fun outcome _ h operations houtcome operation hmem => ?_
    obtain ⟨site, -, halone⟩ := Outcomes.exists_of_mem_of_forall₂ (h operations houtcome) hmem
    exact halone
  refine (ReturnsOk.any _).bind fun _ _ => (ReturnsOk.any _).bind fun _ _ => ?_
  refine hoperations.bind fun operations halone => ?_
  exact (ReturnsOk.any _).bind fun _ _ => ReturnsOk.pure halone

/-- Every name that lasts is an identifier of the language, perhaps with a number behind it. -/
theorem Account.isWord {declared added : List Model} {claimed : List Naming} {final : State}
    (h : Account setting api declared added claimed final)
    (hconvention : setting.target.convention = Haskell.convention) {role : Role} {name : String}
    (hname : name ∈ Naming.namesIn role (api.namings setting.document.schemas.length)) :
    IsWord name := by
  obtain ⟨naming, hmem, rfl⟩ := List.mem_map.1 hname
  have hidentifier := Haskell.isWord_identifier hconvention naming.role naming.raw
  obtain heq | ⟨number, heq⟩ := h.identifier_or_numbered (List.mem_of_mem_filter hmem)
  · exact heq ▸ hidentifier
  · exact heq ▸ Haskell.isWord_numbered hidentifier number

/-- What a document without repeated keys is lowered to can be read in generated code. -/
theorem legible_of_run_eq_ok (h : run setting = some ⟨.ok api, notices⟩)
    (hkeys : setting.document.tree.hasDistinctKeys = true)
    (hconvention : setting.target.convention = Haskell.convention) : api.Legible := by
  obtain ⟨known, state, hclosed⟩ := exists_closedApi h
  obtain ⟨final, hrun, -, declared, added, claimed, haccount⟩ := account_of_run_eq_ok h hkeys
  exact {
    refers := hclosed.refersToItself
    types := by
      intro name hname
      rw [haccount.namesApart.enums, ← (Api.namesIn_type_perm _ api).mem_iff] at hname
      exact haccount.isWord hconvention hname
    operations := by
      intro operation hmem
      have hid := List.mem_map_of_mem (f := Operation.id) hmem
      rw [← Api.namesIn_function setting.document.schemas.length api] at hid
      exact haccount.isWord hconvention hid
    routes := Returns.of_run lowerWith_rootAlone hrun api rfl }

end Lowering

end ServantGen
