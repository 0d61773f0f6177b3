import ServantGen.Proofs.Closure.Api
import ServantGen.Proofs.Generation
import ServantGen.Proofs.Haskell.Modules

/-!
# A lowered interface is generated completely

A template fails only at a reference to a model that does not exist, and a lowered interface has
none. The paths of the files lead to different places below a directory, whatever the title is, so
no file is taken for another. A run of the generator therefore fails only where no interface can
be made, and it never reports a file that could not be rendered.
-/

namespace ServantGen

/-! ## Runs whose files all render -/

section Runs

variable {context : RenderContext} {planned : List PlannedFile}

/-- Files with paths of their own fail only where a template fails. -/
theorem not_someFails (hpaths : (planned.map PlannedFile.path).Nodup)
    (hrenders : ∀ file ∈ planned, ∃ rendered, file.template.render context file.scope =
      .ok rendered) : ¬ SomeFails context planned := by
  rintro ⟨before, file, after, error, rfl, herror⟩
  have hfirst : before.find? (·.path == file.path) = none := by
    rw [List.find?_eq_none]
    intro other hother heq
    rw [List.map_append, List.nodup_append] at hpaths
    exact hpaths.2.2 _ (List.mem_map_of_mem hother) _ List.mem_cons_self (by simpa using heq)
  obtain ⟨rendered, hrendered⟩ := hrenders file (by simp)
  rw [PlannedFile.outcome, hfirst] at herror
  rw [hrendered] at herror
  simp at herror

theorem RenderedFile.kind_ne_templateRender {strict : Bool} {file : RenderedFile}
    (h : file.isFailed = false) {d : Diagnostic} (hd : d ∈ file.diagnostics strict) :
    d.kind ≠ .templateRender := by
  unfold diagnostics at hd
  unfold isFailed at h
  split at hd
  · simp_all
  · obtain ⟨note, -, rfl⟩ := List.mem_map.1 hd
    obtain hkind | hkind := note.kind_toDiagnostic file.path <;> simp [hkind]
  · simp at hd

/-- What a run reports, whether it is completed or fails. -/
def reported : Except GenerationFailure Generation → List Diagnostic
  | .error failure => failure.diagnostics
  | .ok generation => generation.diagnostics

/-- Where no file fails, a run is completed without a report on rendering. -/
theorem generateFiles_completes {σ : Type} {target : Target} {templates : List Template}
    {options : GenerateOptions} (sink : Sink σ) {tree : Json} {built : BuiltApi} (own : σ)
    (hbuilt : buildApi tree target = .ok built)
    (hfails : ¬ SomeFails ⟨built.api, target⟩
      (plan templates ⟨built.api, target⟩ options.render)) :
    ∃ generation after, generateFiles target templates options sink built own =
        (.ok generation, after) ∧
      ∀ d ∈ generation.diagnostics, d.kind ≠ .templateRender := by
  have hrun := generateFiles_of_not_fails target templates options sink built own
    fun h => hfails h.2
  refine ⟨_, _, hrun, ?_⟩
  have hnone : ∀ file ∈ renderAll templates ⟨built.api, target⟩ options.render,
      file.isFailed = false := by
    intro file hfile
    rw [← failed_pos_iff, List.countP_pos_iff] at hfails
    exact Bool.eq_false_iff.2 fun hfailed => hfails ⟨file, hfile, hfailed⟩
  simp only [List.forall_mem_append, List.forall_mem_flatMap]
  refine ⟨⟨fun d hd => (kind_of_buildApi hbuilt hd).1, fun file hfile d hd => ?_⟩, ?_⟩
  · exact RenderedFile.kind_ne_templateRender (hnone file hfile) hd
  · intro d hd
    simp [kind_of_mem_writeReports hd]

theorem kind_toDiagnostic_ne (notice : Lowering.Notice) :
    notice.toDiagnostic.kind ≠ .templateRender := by
  unfold Lowering.Notice.toDiagnostic
  cases notice.remark <;> simp [Lowering.Remark.kind]

/-- A run that makes no interface does not report on rendering either. -/
theorem kind_of_buildApi_error {tree : Json} {target : Target} {failure : RunFailure}
    (h : buildApi tree target = .error failure) :
    ∀ d ∈ failure.diagnostics, d.kind ≠ .templateRender := by
  rw [buildApi_eq] at h
  split at h
  · obtain rfl := Except.error.inj h
    simp
  · split at h
    · obtain rfl := Except.error.inj h
      simp
    · split at h
      · obtain rfl := Except.error.inj h
        simp
      · simp at h
      · rename_i error notices _
        obtain rfl := Except.error.inj h
        simp only [List.forall_mem_append, List.forall_mem_map, List.forall_mem_singleton]
        refine ⟨fun notice _ => kind_toDiagnostic_ne notice, ?_⟩
        cases error <;> simp [BuildError.toDiagnostic, BuildError.kind]

/-- A run fails only with the failure to make an interface, where no file of an interface that
is made fails. -/
theorem generate_fails_only {σ : Type} {target : Target} {templates : List Template}
    (options : GenerateOptions) (sink : Sink σ) (tree : Json) (own : σ)
    (hfails : ∀ built, buildApi tree target = .ok built → ¬ SomeFails ⟨built.api, target⟩
      (plan templates ⟨built.api, target⟩ options.render)) :
    (∀ failure, (generate target templates options sink tree own).1 = .error failure →
      buildApi tree target = .error failure.toRunFailure) ∧
    ∀ d ∈ reported (generate target templates options sink tree own).1,
      d.kind ≠ .templateRender := by
  unfold generate generateWith
  simp only [buildApiWith_nil]
  cases hbuilt : buildApi tree target with
  | error failure =>
    refine ⟨?_, kind_of_buildApi_error hbuilt⟩
    rintro _ ⟨⟩
    rfl
  | ok built =>
    obtain ⟨generation, after, hrun, hkinds⟩ :=
      generateFiles_completes sink own hbuilt (hfails built hbuilt)
    simp only [hrun]
    exact ⟨by simp, hkinds⟩

end Runs

/-! ## References -/

namespace Haskell

section References

variable {context : RenderContext} (h : context.api.RefersToItself)

theorem forM_eq_ok {α : Type} {items : List α} {check : α → Except RenderError Unit}
    (h : ∀ item ∈ items, check item = .ok ()) : items.forM check = .ok () := by
  induction items with
  | nil => rfl
  | cons item items ih =>
    obtain ⟨hitem, hitems⟩ := List.forall_mem_cons.1 h
    have hcons : (item :: items).forM check = check item >>= fun _ => items.forM check := rfl
    rw [hcons, hitem]
    exact ih hitems

theorem of_forM_eq_ok {α : Type} {items : List α} {check : α → Except RenderError Unit}
    (h : items.forM check = .ok ()) : ∀ item ∈ items, check item = .ok () := by
  induction items with
  | nil => simp
  | cons item items ih =>
    have hcons : (item :: items).forM check = check item >>= fun _ => items.forM check := rfl
    rw [hcons] at h
    cases hitem : check item with
    | error error => simp [hitem, bind, Except.bind] at h
    | ok found =>
      rw [hitem] at h
      exact List.forall_mem_cons.2 ⟨hitem, ih h⟩

theorem exists_resolveModel {name : String} (hname : context.api.models.contains name = true)
    (referrer : String) : ∃ model, context.resolveModel name referrer = .ok model := by
  obtain ⟨model, hmodel⟩ := Option.isSome_iff_exists.1 hname
  exact ⟨model, by simp [RenderContext.resolveModel, hmodel]⟩

/-- The operations of groups are those of the interface. -/
theorem mem_operations_of_mem_tagGroups {api : Api} {operation : Operation}
    (hmem : operation ∈ api.tagGroups.flatMap TagGroup.operations) :
    operation ∈ api.operations := by
  obtain ⟨group, hgroup, hoperation⟩ := List.mem_flatMap.1 hmem
  obtain ⟨tag, -, rfl⟩ := List.mem_map.1 hgroup
  exact List.mem_of_mem_filter hoperation

theorem checkedTypes_subset (operation : Operation) :
    checkedTypes operation ⊆ Api.operationTypes operation := by
  intro type htype
  simp only [checkedTypes, Api.operationTypes, List.mem_append, List.mem_flatMap] at htype ⊢
  obtain htype | ⟨response, hresponse, htype⟩ := htype
  · exact .inl htype
  · exact .inr ⟨response, hresponse, .inl htype⟩

include h

theorem checkOperation_eq_ok {operation : Operation} (hmem : operation ∈ context.api.operations) :
    checkOperation context operation = .ok () := by
  refine forM_eq_ok fun name hname => ?_
  obtain ⟨type, htype, hname⟩ := List.mem_flatMap.1 hname
  have hall : type ∈ context.api.allTypes :=
    List.mem_append_left _ (List.mem_append_right _ (List.mem_flatMap.2
      ⟨operation, hmem, checkedTypes_subset operation htype⟩))
  obtain ⟨model, hmodel⟩ := exists_resolveModel (h.types type hall name hname) operation.id
  rw [hmodel]
  rfl

theorem contains_of_mem_placedReferences {model : Model}
    (hmem : model ∈ context.api.models.models) {name place : String}
    (hplaced : (name, place) ∈ placedReferences model) :
    context.api.models.contains name = true := by
  have htypes : ∀ type ∈ model.types, ∀ own ∈ type.models,
      context.api.models.contains own = true := fun type htype =>
    h.types type (List.mem_append_left _ (List.mem_append_left _ (List.mem_flatMap.2
      ⟨model, hmem, htype⟩)))
  unfold placedReferences at hplaced
  unfold Model.types at htypes
  cases hshape : model.shape with
  | record fields =>
    simp only [hshape, List.mem_flatMap, List.mem_map] at hplaced
    obtain ⟨field, hfield, own, hown, ⟨⟩⟩ := hplaced
    simp only [hshape] at htypes
    exact htypes field.type (List.mem_map_of_mem hfield) name hown
  | union variants =>
    simp only [hshape, List.mem_map] at hplaced
    obtain ⟨own, hown, ⟨⟩⟩ := hplaced
    exact h.variants model hmem variants hshape name hown
  | «alias» type =>
    simp only [hshape, List.mem_map] at hplaced
    obtain ⟨own, hown, ⟨⟩⟩ := hplaced
    simp only [hshape] at htypes
    exact htypes type List.mem_cons_self name hown
  | enum values => simp [hshape] at hplaced

theorem checkModels_eq_ok : checkModels context = .ok () := by
  refine forM_eq_ok fun placed hplaced => ?_
  obtain ⟨name, place⟩ := placed
  obtain ⟨owner, howner, hplaced⟩ := List.mem_flatMap.1 hplaced
  obtain ⟨model, hmodel⟩ :=
    exists_resolveModel (contains_of_mem_placedReferences h howner hplaced) place
  dsimp only
  rw [hmodel]
  rfl

end References

/-! ## The module of types -/

/-- The module of types with all declarations, whatever these refer to. -/
def TypesModule.ofContext (context : RenderContext) : TypesModule :=
  let declared := (Haskell.declarations context).run ⟨scopeOf (typeNames context), .empty, []⟩
  ⟨moduleName context, declared.1, declared.2.notes⟩

/-- The module of types is made when the models that models refer to exist. -/
theorem typesModule_eq_ok_iff {context : RenderContext} {types : TypesModule} :
    typesModule context = .ok types ↔
      checkModels context = .ok () ∧ types = .ofContext context := by
  unfold typesModule
  cases checkModels context with
  | error error => simp [bind, Except.bind]
  | ok found => exact ⟨fun h => ⟨rfl, (Except.ok.inj h).symm⟩, fun h => congrArg Except.ok h.2.symm⟩

theorem typesModule_eq_ok {context : RenderContext} (h : context.api.RefersToItself) :
    typesModule context = .ok (.ofContext context) :=
  typesModule_eq_ok_iff.2 ⟨checkModels_eq_ok h, rfl⟩

/-! ## Files -/

section Files

variable {context : RenderContext}

/-- The module of an interface that refers to itself only. -/
theorem apiModule_eq (h : context.api.RefersToItself) :
    apiModule context = .ok ⟨moduleName context, backendName context,
      (groupsOf context (scopeOf (typeNames context)) context.api.tagGroups).1,
      (groupsOf context (scopeOf (typeNames context)) context.api.tagGroups).2⟩ := by
  have hcheck : (context.api.tagGroups.flatMap TagGroup.operations).forM (checkOperation context) =
      .ok () :=
    forM_eq_ok fun operation hmem => checkOperation_eq_ok h (mem_operations_of_mem_tagGroups hmem)
  unfold apiModule
  dsimp only
  rw [hcheck]
  rfl

theorem exists_apiModule (h : context.api.RefersToItself)
    (hconvention : context.target.convention = convention) :
    ∃ api, apiModule context = .ok api ∧ api.module = moduleName context ∧ api.HasPlainNames :=
  ⟨_, apiModule_eq h, rfl, madeOf_moduleName hconvention, onOneLine_backendName hconvention,
    onOneLine_groupsOf hconvention _ _⟩

/-- The template of the interface makes a file, and what it imports is known. -/
theorem exists_render_apiTemplate (h : context.api.RefersToItself)
    (hconvention : context.target.convention = convention) :
    ∃ text notes, apiTemplate.render context .api = .ok (.file text notes) ∧
      (moduleName context ++ ".Types" ∈ importedModules text ↔ hasTypes context = true) := by
  obtain ⟨api, hapi, hmodule, hplain⟩ := exists_apiModule h hconvention
  refine ⟨(api.code context).text indentStep, api.notes, ?_, ?_⟩
  · simp only [apiTemplate, wholeApi, hapi]
    rfl
  · rw [← hmodule]
    exact api.types_mem_importedModules_iff context hplain

theorem render_typesTemplate (h : context.api.RefersToItself) :
    (hasTypes context = false → typesTemplate.render context .api = .ok .elided) ∧
    (hasTypes context = true → ∃ text notes,
      typesTemplate.render context .api = .ok (.file text notes)) := by
  constructor
  · intro hnone
    simp only [typesTemplate, wholeApi, hnone]
    rfl
  · intro hsome
    simp only [typesTemplate, wholeApi, hsome, typesModule_eq_ok h]
    exact ⟨_, _, rfl⟩

/-- Every template makes a file or leaves it out. -/
theorem exists_render (h : context.api.RefersToItself)
    (hconvention : context.target.convention = convention) :
    ∀ template ∈ templates, ∀ scope, ∃ rendered, template.render context scope = .ok rendered := by
  have hapi : ∃ rendered, apiTemplate.render context .api = .ok rendered := by
    obtain ⟨text, notes, hrender, -⟩ := exists_render_apiTemplate h hconvention
    exact ⟨_, hrender⟩
  have htypes : ∃ rendered, typesTemplate.render context .api = .ok rendered := by
    obtain ⟨helided, hfile⟩ := render_typesTemplate h
    cases hhas : hasTypes context with
    | false => exact ⟨_, helided hhas⟩
    | true =>
      obtain ⟨text, notes, hrender⟩ := hfile hhas
      exact ⟨_, hrender⟩
  unfold templates
  simp only [List.forall_mem_cons, List.not_mem_nil, false_imp_iff, implies_true, and_true]
  exact ⟨fun _ => hapi, fun _ => htypes, fun _ => ⟨_, rfl⟩, fun _ => ⟨_, rfl⟩, fun _ => ⟨_, rfl⟩⟩

/-! ## Paths -/

theorem insideNames?_of_splitOn {path : String} {parts : List String}
    (hsplit : Text.splitOn '/' path = parts)
    (hparts : ∀ part ∈ parts, part ≠ ".." ∧ part ≠ "." ∧ part ≠ "") :
    insideNames? path = some parts := by
  have hupwards : parts.contains ".." = false := by
    simpa using fun hmem => (hparts _ hmem).1 rfl
  have hidle : ∀ part ∈ parts, (!WrittenPath.isIdle part) = true := by
    intro part hpart
    obtain ⟨-, hdot, hempty⟩ := hparts part hpart
    simp [WrittenPath.isIdle, hdot, hempty]
  rw [insideNames?, hsplit, hupwards, List.filter_eq_self.2 hidle]
  rfl

/-- The places that the files lead to. -/
def places (context : RenderContext) : List (List String) :=
  [["lib", moduleName context, "API.hs"], ["lib", moduleName context, "Types.hs"],
   [packageName context.packageName ++ ".cabal"], ["stack.yaml"], ["Setup.hs"]]

theorem package_ne {name : String} (h : ¬ ".cabal".toList <:+ name.toList) (package : String) :
    packageName package ++ ".cabal" ≠ name := by
  rintro rfl
  exact h (by simp)

theorem insideNames?_package (package : String) :
    insideNames? (packageName package ++ ".cabal") = some [packageName package ++ ".cabal"] := by
  have hslash : Text.MadeOf (· != '/') (packageName package ++ ".cabal") :=
    Text.madeOf_append.2 ⟨(madeOf_packageName package).avoids (by decide), by decide⟩
  refine insideNames?_of_splitOn (Text.splitOn_eq_singleton hslash) ?_
  rw [List.forall_mem_singleton]
  exact ⟨package_ne (by decide) package, package_ne (by decide) package,
    package_ne (by decide) package⟩

section Module

variable (hconvention : context.target.convention = convention)
include hconvention

/-- A file of a module stands in the directory of the generated modules. -/
theorem insideNames?_module {file : String} (hfile : Text.MadeOf (· != '/') file)
    (hnames : file ≠ ".." ∧ file ≠ "." ∧ file ≠ "") :
    insideNames? ("lib/" ++ moduleName context ++ "/" ++ file) =
      some ["lib", moduleName context, file] := by
  have hmodule := madeOf_moduleName hconvention
  have hslash : Text.MadeOf (· != '/') (moduleName context) := hmodule.avoids (by decide)
  have hdots : moduleName context ≠ ".." := hmodule.ne (c := '.') (by decide) (by decide)
  have hdot : moduleName context ≠ "." := hmodule.ne (c := '.') (by decide) (by decide)
  refine insideNames?_of_splitOn ?_ ?_
  · have hlib := @Text.splitOn_eq_cons '/' ("lib/" ++ moduleName context ++ "/" ++ file) "lib"
      (moduleName context ++ "/" ++ file) (by simp) (by decide)
    have hrest := @Text.splitOn_eq_cons '/' (moduleName context ++ "/" ++ file)
      (moduleName context) file (by simp) hslash
    rw [hlib, hrest, Text.splitOn_eq_singleton hfile]
  · simp only [List.forall_mem_cons, List.not_mem_nil, false_imp_iff, implies_true, and_true]
    exact ⟨by decide, ⟨hdots, hdot, moduleName_ne_empty hconvention⟩, hnames⟩

theorem map_insideNames?_paths :
    templates.map (fun template => insideNames? (template.path context .api)) =
      (places context).map some := by
  have hapi : insideNames? ("lib/" ++ moduleName context ++ "/API.hs") =
      some ["lib", moduleName context, "API.hs"] := by
    have hpath : "lib/" ++ moduleName context ++ "/API.hs" =
        "lib/" ++ moduleName context ++ "/" ++ "API.hs" := by simp [← String.toList_inj]
    rw [hpath]
    exact insideNames?_module hconvention (by decide) (by decide)
  have htypes : insideNames? ("lib/" ++ moduleName context ++ "/Types.hs") =
      some ["lib", moduleName context, "Types.hs"] := by
    have hpath : "lib/" ++ moduleName context ++ "/Types.hs" =
        "lib/" ++ moduleName context ++ "/" ++ "Types.hs" := by simp [← String.toList_inj]
    rw [hpath]
    exact insideNames?_module hconvention (by decide) (by decide)
  have hpackage := insideNames?_package context.packageName
  have hstack : insideNames? "stack.yaml" = some ["stack.yaml"] := by decide
  have hsetup : insideNames? "Setup.hs" = some ["Setup.hs"] := by decide
  simp only [templates, List.map_cons, List.map_nil, apiTemplate, typesTemplate, packageTemplate,
    stackTemplate, setupTemplate, wholeApi, hapi, htypes, hpackage, hstack, hsetup, places]

end Module

theorem nodup_places (context : RenderContext) : (places context).Nodup := by
  have hstack := @package_ne "stack.yaml" (by decide) context.packageName
  have hsetup := @package_ne "Setup.hs" (by decide) context.packageName
  simp [places, hstack, hsetup]

/-- The planned files are among those of all templates, each for the whole interface. -/
theorem plan_sublist (context : RenderContext) (options : RenderOptions) :
    (plan templates context options).Sublist
      (templates.map fun template => ⟨template, .api, template.path context .api⟩) := by
  have hplan : ∀ template ∈ templates,
      template.plan context = [⟨template, .api, template.path context .api⟩] := by
    simp only [templates, List.forall_mem_cons, List.not_mem_nil, false_imp_iff, implies_true,
      and_true]
    exact ⟨rfl, rfl, rfl, rfl, rfl⟩
  have heq : plan templates context options =
      (templates.filter fun template => options.supportingFiles || !template.isSupporting).map
        fun template => ⟨template, .api, template.path context .api⟩ := by
    rw [plan, List.map_eq_flatMap]
    exact List.flatMap_congr fun template hmem => hplan template (List.mem_of_mem_filter hmem)
  rw [heq]
  exact List.filter_sublist.map _

/-- Planned files lead to different places. -/
theorem nodup_map_insideNames? (hconvention : context.target.convention = convention)
    (options : RenderOptions) :
    ((plan templates context options).map fun file => insideNames? file.path).Nodup := by
  have hall := map_insideNames?_paths hconvention
  have hnodup : ((places context).map some).Nodup :=
    (nodup_places context).map fun _ _ => Option.some.inj
  rw [← hall] at hnodup
  refine List.Nodup.sublist ((plan_sublist context options).map _) ?_
  rwa [List.map_map]

/-- Every planned file is one of a template, and a directory takes its path. -/
theorem mem_templates_of_mem_plan (hconvention : context.target.convention = convention)
    {options : RenderOptions} {file : PlannedFile}
    (hfile : file ∈ plan templates context options) :
    file.template ∈ templates ∧ (insideNames? file.path).isSome = true := by
  obtain ⟨template, htemplate, rfl⟩ :=
    List.mem_map.1 ((plan_sublist context options).subset hfile)
  refine ⟨htemplate, ?_⟩
  have hplace : insideNames? (template.path context .api) ∈ (places context).map some := by
    rw [← map_insideNames?_paths hconvention]
    exact List.mem_map_of_mem htemplate
  obtain ⟨place, -, hplace⟩ := List.mem_map.1 hplace
  exact Option.isSome_iff_exists.2 ⟨place, hplace.symm⟩

end Files

/-! ## Complete generation -/

/-- What the files of the target come to for an interface. -/
structure GeneratesAll (context : RenderContext) : Prop where
  /-- No template fails. -/
  renders : ∀ template ∈ templates, ∀ scope, ∃ rendered,
    template.render context scope = .ok rendered
  /-- No two files have one path. -/
  paths : ∀ options, ((plan templates context options).map PlannedFile.path).Nodup
  /-- A directory takes every path. -/
  inside : ∀ options, ∀ file ∈ plan templates context options,
    (insideNames? file.path).isSome = true
  /-- The module of types is left out exactly when the module of the interface does not import
  it, and exactly when the package description does not list it. -/
  types : ∃ moduleText notes packageText,
    apiTemplate.render context .api = .ok (.file moduleText notes) ∧
    packageTemplate.render context .api = .ok (.file packageText []) ∧
    (typesTemplate.render context .api = .ok .elided ↔
      moduleName context ++ ".Types" ∉ importedModules moduleText) ∧
    (typesTemplate.render context .api = .ok .elided ↔
      moduleName context ++ ".Types" ∉ exposedModules packageText)

theorem generatesAll_of_refersToItself {context : RenderContext}
    (h : context.api.RefersToItself) (hconvention : context.target.convention = convention) :
    GeneratesAll context where
  renders := exists_render h hconvention
  paths := fun options => by
    have hplaces : (((plan templates context options).map PlannedFile.path).map
        insideNames?).Nodup := by
      rw [List.map_map]
      exact nodup_map_insideNames? hconvention options
    exact hplaces.of_map
  inside := fun options file hfile => (mem_templates_of_mem_plan hconvention hfile).2
  types := by
    obtain ⟨text, notes, hrender, himported⟩ := exists_render_apiTemplate h hconvention
    have hexposed : moduleName context ++ ".Types" ∈
        exposedModules ((packageDescription context).text indentStep) ↔
          hasTypes context = true := by
      rw [exposedModules_packageDescription hconvention, packageModules]
      have hne : moduleName context ++ ".Types" ≠ moduleName context ++ ".API" := by
        simp [← String.toList_inj]
      split <;> simp_all
    have helided : typesTemplate.render context .api = .ok .elided ↔
        ¬ hasTypes context = true := by
      obtain ⟨hnone, hsome⟩ := render_typesTemplate h
      cases hhas : hasTypes context with
      | false => simpa using hnone hhas
      | true =>
        obtain ⟨text, notes, hfile⟩ := hsome hhas
        simp [hfile]
    refine ⟨text, notes, _, hrender, rfl, ?_, ?_⟩
    · rw [helided, himported]
    · rw [helided, hexposed]

/-- With any settings, all files of an interface that a document is lowered to are generated. A
run of the generator fails only where no interface can be made, and what it reports is never a
file that could not be rendered. -/
theorem generatesAll_of_lowered (settings : TargetSettings) :
    (∀ document api notices,
      Lowering.run ⟨document, settings.apply target⟩ = some ⟨.ok api, notices⟩ →
        GeneratesAll ⟨api, settings.apply target⟩) ∧
    ∀ (σ : Type) (options : GenerateOptions) (sink : Sink σ) (tree : Json) (own : σ),
      let result := (generate (settings.apply target) templates options sink tree own).1
      (∀ failure, result = .error failure →
        buildApi tree (settings.apply target) = .error failure.toRunFailure) ∧
      ∀ d ∈ reported result, d.kind ≠ .templateRender := by
  have hconvention : (settings.apply target).convention = convention := rfl
  have hlowered : ∀ document api notices,
      Lowering.run ⟨document, settings.apply target⟩ = some ⟨.ok api, notices⟩ →
        GeneratesAll ⟨api, settings.apply target⟩ := by
    intro document api notices hrun
    obtain ⟨known, state, hclosed⟩ := Lowering.exists_closedApi hrun
    exact generatesAll_of_refersToItself hclosed.refersToItself hconvention
  refine ⟨hlowered, fun σ options sink tree own => generate_fails_only options sink tree own ?_⟩
  intro built hbuilt
  obtain ⟨document, notices, -, hrun, -⟩ := exists_run_of_buildApi hbuilt
  have hall := hlowered document built.api notices hrun
  refine not_someFails (hall.paths _) fun file hfile => ?_
  exact hall.renders _ (mem_templates_of_mem_plan hconvention hfile).1 _

/-- A model of itself under a title, a package name and a root marker that try to lead out of
their lines and of the directory; and a document of which no interface can be made. -/
theorem generatesAll_of_lowered_marker :
    let settings : TargetSettings :=
      { package := some "../..", rootMarker := some "\nimport Unnamed.Types\n" }
    let pet : Json := .object [("$ref", .string "#/components/schemas/Pet")]
    let tree : Json := .object [
      ("info", .object [("title", .string "Pets\nimport Data.Pets")]),
      ("paths", .object [("/", .object [("get", .object [("responses", .object [
        ("200", .object [("content", .object [("application/json", .object [
          ("schema", pet)])])])])])])]),
      ("components", .object [("schemas", .object [("Pet", .object [
        ("properties", .object [("parent", pet)])])])])]
    (∃ document api notices, Document.ofTree tree = .ok document ∧
      Lowering.run ⟨document, settings.apply target⟩ = some ⟨.ok api, notices⟩ ∧
      api.models.names = ["Pet"] ∧ GeneratesAll ⟨api, settings.apply target⟩) ∧
    ∃ failure, (generate (settings.apply target) templates { strict := true } MemoryFiles.sink
        (.object []) []).1 = .error failure ∧
      buildApi (.object []) (settings.apply target) = .error failure.toRunFailure := by
  intro settings pet tree
  obtain ⟨hlowered, hruns⟩ := generatesAll_of_lowered settings
  constructor
  · have hview : ((Document.ofTree tree).toOption.bind fun document =>
        (Lowering.run ⟨document, settings.apply target⟩).bind fun result =>
          result.outcome.toOption.map fun api => api.models.names) = some ["Pet"] := by
      decide +kernel
    obtain ⟨document, api, notices, hdocument, hrun, hnames⟩ :=
      @Lowering.exists_run_of_view _ _ _ (fun _ api => api.models.names) _ hview
    exact ⟨document, api, notices, hdocument, hrun, hnames, hlowered document api notices hrun⟩
  · have hfails : (generate (settings.apply target) templates { strict := true } MemoryFiles.sink
        (.object []) []).1.toOption.isNone = true := by
      decide +kernel
    cases hresult : (generate (settings.apply target) templates { strict := true }
        MemoryFiles.sink (.object []) []).1 with
    | error failure => exact ⟨failure, rfl, (hruns _ _ _ _ _).1 failure hresult⟩
    | ok generation => simp [hresult, Except.toOption] at hfails

end Haskell

end ServantGen
