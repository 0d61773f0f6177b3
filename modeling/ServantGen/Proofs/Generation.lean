import ServantGen.Generation
import ServantGen.Proofs.Building

/-!
# Every planned file is accounted for

A run of the generator either writes nothing at all or gives every planned file exactly one
fate: it could not be rendered, there was nothing to write, or it was handed to the sink, which
answered for it. The lists and diagnostics of the run are read off these fates, and so are the
calls of the sink. Which files are planned, in which order, and which of them a path belongs to is
decided by the templates alone; the outcome of one file does not depend on how another one fares.
-/

namespace ServantGen

/-! ## Fates -/

/-- What became of a planned file. -/
inductive Fate where
  | unrendered (error : RenderError)
  | elided
  /-- The content went to the sink, which gave an answer. -/
  | handed (content : String) (answer : WriteAnswer)

structure WriteCall where
  path : String
  content : String
  answer : WriteAnswer

namespace Fate

/-- The fate of a file that was rendered to an outcome. -/
def Fits : Except RenderError Rendered → Fate → Prop
  | .error error, fate => fate = .unrendered error
  | .ok .elided, fate => fate = .elided
  | .ok (.file content _), fate => ∃ answer, fate = .handed content answer

/-- The path, if the sink wrote the file. -/
def written? (path : String) : Fate → Option String
  | .handed _ .written => some path
  | _ => none

/-- The path, if the sink left the file that was there. -/
def skipped? (path : String) : Fate → Option String
  | .handed _ .skipped => some path
  | _ => none

/-- The path, if there was nothing to write. -/
def elided? (path : String) : Fate → Option String
  | .elided => some path
  | _ => none

/-- The report on a file that could not be rendered. -/
def renderReport? (strict : Bool) (path : String) : Fate → Option Diagnostic
  | .unrendered error =>
    some ⟨if strict then .error else .warning, .templateRender, "render", error.message, some path⟩
  | _ => none

/-- The report on a file that could not be written. -/
def writeReport? (path : String) : Fate → Option Diagnostic
  | .handed _ (.failed error) => some (error.toDiagnostic path)
  | _ => none

/-- The call of the sink, if the file came that far. -/
def call? (path : String) : Fate → Option WriteCall
  | .handed content answer => some ⟨path, content, answer⟩
  | _ => none

end Fate

/-- A sink that also keeps its calls. -/
def Sink.recorded {σ : Type} (sink : Sink σ) : Sink (σ × List WriteCall) :=
  fun path content (own, calls) =>
    let (answer, own) := sink path content own
    (answer, own, calls ++ [⟨path, content, answer⟩])

/-! ## The plan -/

/-- Whether the files of a template are rendered. -/
def RenderOptions.Includes (options : RenderOptions) (template : Template) : Prop :=
  options.supportingFiles = true ∨ template.isSupporting = false

def Template.filesFor (template : Template) (context : RenderContext) (scopes : List RenderScope) :
    List PlannedFile :=
  scopes.map fun scope => ⟨template, scope, template.path context scope⟩

section Plan

variable {context : RenderContext} {options : RenderOptions}

theorem plan_cons_of_includes {template : Template} (h : options.Includes template)
    (templates : List Template) : plan (template :: templates) context options =
      template.filesFor context (template.scopes context) ++ plan templates context options := by
  have hincluded : (options.supportingFiles || !template.isSupporting) = true := by
    obtain hall | hplain := h <;> simp [*]
  rw [plan, List.filter_cons, if_pos hincluded]
  rfl

theorem plan_cons_of_not_includes {template : Template} (h : ¬ options.Includes template)
    (templates : List Template) :
    plan (template :: templates) context options = plan templates context options := by
  have hleft : ¬ (options.supportingFiles || !template.isSupporting) = true := by
    simpa [RenderOptions.Includes] using h
  rw [plan, List.filter_cons, if_neg hleft]
  rfl

@[simp] theorem plan_nil : plan [] context options = [] := rfl

theorem plan_append (templates others : List Template) :
    plan (templates ++ others) context options =
      plan templates context options ++ plan others context options := by
  rw [plan, List.filter_append, List.flatMap_append]
  rfl

/-- A file is planned for a template and one of its scopes, under the path that the template has for
it: behind the files of the templates and scopes before its own, and before all others. -/
inductive PlansAt (context : RenderContext) (options : RenderOptions) :
    List Template → List PlannedFile → PlannedFile → List PlannedFile → Prop
  | intro {before after : List Template} {template : Template} {earlier later : List RenderScope}
      {scope : RenderScope} (hincludes : options.Includes template)
      (hscopes : template.scopes context = earlier ++ scope :: later) :
      PlansAt context options (before ++ template :: after)
        (plan before context options ++ template.filesFor context earlier)
        ⟨template, scope, template.path context scope⟩
        (template.filesFor context later ++ plan after context options)

namespace PlansAt

variable {template : Template} {templates : List Template} {front back : List PlannedFile}
variable {file : PlannedFile}

theorem behind (template : Template) (h : PlansAt context options templates front file back) :
    PlansAt context options (template :: templates) (plan [template] context options ++ front) file
      back := by
  cases h with
  | @intro before after own earlier later scope hincludes hscopes =>
    rw [← List.append_assoc, ← plan_append]
    exact @intro context options (template :: before) after own earlier later scope hincludes
      hscopes

theorem of_plan_singleton (templates : List Template)
    (h : plan [template] context options = front ++ file :: back) :
    PlansAt context options (template :: templates) front file
      (back ++ plan templates context options) := by
  by_cases hincludes : options.Includes template
  · rw [plan_cons_of_includes hincludes, plan_nil, List.append_nil, Template.filesFor,
      List.map_eq_append_iff] at h
    obtain ⟨earlier, others, hscopes, rfl, hothers⟩ := h
    obtain ⟨scope, later, rfl, rfl, rfl⟩ := List.map_eq_cons_iff.1 hothers
    exact @intro context options [] templates template earlier later scope hincludes hscopes
  · simp [plan_cons_of_not_includes hincludes] at h

end PlansAt

/-- The planned files are those of the templates in their order, and for each template those of its
scopes in their order. -/
theorem plan_eq_append_cons_iff {templates : List Template} {front back : List PlannedFile}
    {file : PlannedFile} :
    plan templates context options = front ++ file :: back ↔
      PlansAt context options templates front file back := by
  constructor
  · intro h
    induction templates generalizing front with
    | nil => simp at h
    | cons template templates ih =>
      rw [← List.singleton_append, plan_append, List.append_eq_append_iff] at h
      obtain ⟨rest, rfl, hrest⟩ | ⟨rest, hown, hrest⟩ := h
      · exact (ih hrest).behind template
      · cases rest with
        | nil =>
          have hbehind := (@ih [] hrest.symm).behind template
          rwa [hown, List.append_nil, List.append_nil] at hbehind
        | cons first rest =>
          obtain ⟨rfl, rfl⟩ := List.cons.inj hrest
          exact .of_plan_singleton templates hown
  · rintro ⟨hincludes, hscopes⟩
    rw [plan_append, plan_cons_of_includes hincludes, hscopes]
    simp [Template.filesFor]

/-- The scopes of one template stay together, and a template that only serves to build the code is
passed over when this is asked for. -/
example (context : RenderContext) (render : RenderContext → RenderScope →
      Except RenderError Rendered) (path : RenderContext → RenderScope → String) :
    let templates : List Template := [
      ⟨"models", false, fun _ => [.model "Pet", .model "Shop"], path, render⟩,
      ⟨"setup", true, fun _ => [.api], path, render⟩,
      ⟨"server", false, fun _ => [.api], path, render⟩]
    (plan templates context ⟨false, false⟩).map (fun file => (file.template.name, file.scope)) =
      [("models", .model "Pet"), ("models", .model "Shop"), ("server", .api)] := rfl

end Plan

/-! ## Outcomes of planned files -/

/-- What rendering comes to for a file that is planned behind `earlier` ones: an error when one of
them has its path, and otherwise what its template renders. -/
def PlannedFile.outcome (context : RenderContext) (earlier : List PlannedFile)
    (file : PlannedFile) : Except RenderError Rendered :=
  match earlier.find? (·.path == file.path) with
  | some owner => .error (.template file.template.name
      ("path '" ++ file.path ++ "' is already produced by '" ++ owner.template.name ++ "'"))
  | none => file.template.render context file.scope

/-- The files of a plan as they are rendered, behind `earlier` ones. -/
def renderedBehind (context : RenderContext) :
    List PlannedFile → List PlannedFile → List RenderedFile
  | _, [] => []
  | earlier, file :: rest =>
    ⟨file.path, file.template.name, file.outcome context earlier⟩ ::
      renderedBehind context (earlier ++ [file]) rest

def SomeFails (context : RenderContext) (planned : List PlannedFile) : Prop :=
  ∃ before file after error, planned = before ++ file :: after ∧
    file.outcome context before = .error error

theorem settlePaths_map_render (context : RenderContext) {earlier : List PlannedFile}
    {owners : Entries String} (files : List PlannedFile)
    (howners : ∀ path, owners.get? path =
      (earlier.find? (·.path == path)).map fun owner => owner.template.name) :
    settlePaths owners (files.map (·.render context)) = renderedBehind context earlier files := by
  induction files generalizing earlier owners with
  | nil => rfl
  | cons file rest ih =>
    have howner := howners file.path
    rw [List.map_cons, settlePaths, renderedBehind, PlannedFile.outcome]
    cases hfind : earlier.find? (·.path == file.path) with
    | some owner =>
      have hget : owners.get? file.path = some owner.template.name := by
        rw [howner, hfind]
        rfl
      simp only [PlannedFile.render, hget]
      refine congrArg _ (ih ?_)
      intro path
      rw [howners path, List.find?_append]
      by_cases hpath : file.path = path
      · subst hpath
        rw [hfind]
        rfl
      · simp [hpath]
    | none =>
      have hget : owners.get? file.path = none := by
        rw [howner, hfind]
        rfl
      simp only [PlannedFile.render, hget]
      refine congrArg _ (ih ?_)
      intro path
      rw [Entries.get?_append, howners path, List.find?_append]
      by_cases hpath : file.path = path
      · subst hpath
        simp [hfind, Entries.get?]
      · simp [hpath, Entries.get?]

theorem renderAll_eq (templates : List Template) (context : RenderContext)
    (options : RenderOptions) :
    renderAll templates context options =
      renderedBehind context [] (plan templates context options) :=
  settlePaths_map_render context _ fun _ => rfl

theorem exists_isFailed_iff {context : RenderContext} {earlier files : List PlannedFile} :
    (∃ rendered ∈ renderedBehind context earlier files, rendered.isFailed = true) ↔
      ∃ before file after error, files = before ++ file :: after ∧
        file.outcome context (earlier ++ before) = .error error := by
  induction files generalizing earlier with
  | nil => simp [renderedBehind]
  | cons file rest ih =>
    rw [renderedBehind, List.exists_mem_cons_iff, ih]
    constructor
    · rintro (hfailed | ⟨before, other, after, error, rfl, herror⟩)
      · cases houtcome : file.outcome context earlier with
        | ok rendered => simp [RenderedFile.isFailed, houtcome] at hfailed
        | error error => exact ⟨[], file, rest, error, rfl, by simpa using houtcome⟩
      · exact ⟨file :: before, other, after, error, rfl, by simpa using herror⟩
    · rintro ⟨before, other, after, error, hfiles, herror⟩
      cases before with
      | nil =>
        obtain ⟨rfl, -⟩ := List.cons.inj hfiles
        refine .inl ?_
        rw [List.append_nil] at herror
        simp [RenderedFile.isFailed, herror]
      | cons first before =>
        obtain ⟨rfl, rfl⟩ := List.cons.inj hfiles
        exact .inr ⟨before, other, after, error, rfl, by simpa using herror⟩

/-- Files fail to render exactly when the plan says so. -/
theorem failed_pos_iff {templates : List Template} {context : RenderContext}
    {options : RenderOptions} :
    0 < (renderAll templates context options).countP RenderedFile.isFailed ↔
      SomeFails context (plan templates context options) := by
  rw [List.countP_pos_iff, renderAll_eq, exists_isFailed_iff]
  rfl

/-! ## Writing -/

section Writing

variable {σ : Type} (sink : Sink σ)

/-- The fate of a rendered file, with the state of the sink after it. -/
def fateOf (file : RenderedFile) (own : σ) : Fate × σ :=
  match file.result with
  | .error error => (.unrendered error, own)
  | .ok .elided => (.elided, own)
  | .ok (.file content _) =>
    let (answer, own) := sink file.path content own
    (.handed content answer, own)

def fatesOf : List RenderedFile → σ → List (String × Fate) × σ
  | [], own => ([], own)
  | file :: rest, own =>
    let (fate, own) := fateOf sink file own
    let (others, own) := fatesOf rest own
    ((file.path, fate) :: others, own)

/-- What is reported on files, in their order. -/
def collect {α : Type} (report? : String → Fate → Option α) (landed : List (String × Fate)) :
    List α :=
  landed.filterMap fun entry => report? entry.1 entry.2

theorem collect_cons {α : Type} (report? : String → Fate → Option α) (path : String) (fate : Fate)
    (landed : List (String × Fate)) :
    collect report? ((path, fate) :: landed) =
      (report? path fate).toList ++ collect report? landed := by
  cases h : report? path fate <;> simp [collect, h]

/-- What came of writing is read off the fates. -/
theorem writeFiles_eq (files : List RenderedFile) (own : σ) :
    writeFiles sink files own =
      let (landed, own) := fatesOf sink files own
      (⟨⟨collect Fate.written? landed, collect Fate.skipped? landed, collect Fate.elided? landed⟩,
        collect Fate.writeReport? landed⟩, own) := by
  induction files generalizing own with
  | nil => rfl
  | cons file rest ih =>
    simp only [writeFiles, fatesOf, fateOf, ih, collect_cons]
    cases file.result with
    | error error => rfl
    | ok rendered =>
      cases rendered with
      | elided => rfl
      | file content notes =>
        cases hanswer : (sink file.path content own).1 <;>
          simp only [hanswer] <;> rfl

/-- A sink that keeps its calls answers as before, and what it keeps is read off the fates. -/
theorem fatesOf_recorded (files : List RenderedFile) (own : σ) (calls : List WriteCall) :
    fatesOf sink.recorded files (own, calls) =
      let (landed, own) := fatesOf sink files own
      (landed, own, calls ++ collect Fate.call? landed) := by
  induction files generalizing own calls with
  | nil => simp [fatesOf, collect]
  | cons file rest ih =>
    simp only [fatesOf, fateOf, collect_cons]
    cases file.result with
    | error error => simp only [ih]; rfl
    | ok rendered =>
      cases rendered with
      | elided => simp only [ih]; rfl
      | file content notes =>
        simp only [Sink.recorded, ih, List.append_assoc]
        rfl

end Writing

/-! ## The fates of a plan -/

/-- Planned files behind `earlier` ones, each with a fate that its outcome allows. -/
inductive Landed (context : RenderContext) :
    List PlannedFile → List (PlannedFile × Fate) → Prop
  | nil {earlier : List PlannedFile} : Landed context earlier []
  | cons {earlier : List PlannedFile} {file : PlannedFile} {fate : Fate}
      {rest : List (PlannedFile × Fate)} (fits : fate.Fits (file.outcome context earlier))
      (others : Landed context (earlier ++ [file]) rest) :
      Landed context earlier ((file, fate) :: rest)

def byPath (landed : List (PlannedFile × Fate)) : List (String × Fate) :=
  landed.map fun entry => (entry.1.path, entry.2)

theorem fits_fateOf {σ : Type} (sink : Sink σ) (file : RenderedFile) (own : σ) :
    (fateOf sink file own).1.Fits file.result := by
  unfold fateOf
  cases file.result with
  | error error => rfl
  | ok rendered =>
    cases rendered with
    | elided => rfl
    | file content notes => exact ⟨_, rfl⟩

/-- The fates of rendered files are fates of the planned ones. -/
theorem exists_landed {σ : Type} (sink : Sink σ) (context : RenderContext)
    (earlier files : List PlannedFile) (own : σ) :
    ∃ landed, landed.map Prod.fst = files ∧ Landed context earlier landed ∧
      (fatesOf sink (renderedBehind context earlier files) own).1 = byPath landed := by
  induction files generalizing earlier own with
  | nil => exact ⟨[], rfl, .nil, rfl⟩
  | cons file rest ih =>
    let rendered : RenderedFile := ⟨file.path, file.template.name, file.outcome context earlier⟩
    obtain ⟨landed, hfiles, hlanded, hfates⟩ :=
      ih (earlier ++ [file]) (fateOf sink rendered own).2
    refine ⟨(file, (fateOf sink rendered own).1) :: landed, ?_, ?_, ?_⟩
    · rw [List.map_cons, hfiles]
    · exact .cons (fits_fateOf sink rendered own) hlanded
    · exact congrArg ((file.path, (fateOf sink rendered own).1) :: ·) hfates

/-- Only the first file with a path is rendered by its template. -/
theorem PlannedFile.outcome_eq_ok {context : RenderContext} {earlier : List PlannedFile}
    {file : PlannedFile} {rendered : Rendered} (h : file.outcome context earlier = .ok rendered) :
    (∀ other ∈ earlier, other.path ≠ file.path) ∧
      file.template.render context file.scope = .ok rendered := by
  unfold outcome at h
  split at h
  · simp at h
  · rename_i hnone
    refine ⟨?_, h⟩
    simpa using hnone

theorem Fate.outcome_of_handed {outcome : Except RenderError Rendered} {content : String}
    {answer : WriteAnswer} (h : (Fate.handed content answer).Fits outcome) :
    ∃ notes, outcome = .ok (.file content notes) := by
  cases outcome with
  | error error => simp [Fits] at h
  | ok rendered =>
    cases rendered with
    | elided => simp [Fits] at h
    | file own notes =>
      obtain ⟨_, heq⟩ := h
      obtain ⟨rfl, -⟩ := Fate.handed.inj heq
      exact ⟨notes, rfl⟩

section Calls

variable {context : RenderContext} {earlier : List PlannedFile}
variable {landed : List (PlannedFile × Fate)}

def callsOf (landed : List (PlannedFile × Fate)) : List WriteCall :=
  collect Fate.call? (byPath landed)

/-- A call is for the first file with its path, and passes what this file's template renders. -/
theorem Landed.exists_first (h : Landed context earlier landed) {call : WriteCall}
    (hcall : call ∈ callsOf landed) :
    (∀ other ∈ earlier, other.path ≠ call.path) ∧
      ∃ file notes, (landed.map Prod.fst).find? (·.path == call.path) = some file ∧
        file.template.render context file.scope = .ok (.file call.content notes) := by
  induction h with
  | nil => simp [callsOf, collect, byPath] at hcall
  | @cons earlier file fate rest fits others ih =>
    rw [callsOf, byPath, List.map_cons, collect_cons, List.mem_append] at hcall
    obtain hcall | hcall := hcall
    · cases fate with
      | unrendered error => simp [Fate.call?] at hcall
      | elided => simp [Fate.call?] at hcall
      | handed content answer =>
        obtain rfl : call = ⟨file.path, content, answer⟩ := by
          simpa [Fate.call?] using hcall
        obtain ⟨notes, houtcome⟩ := Fate.outcome_of_handed fits
        obtain ⟨hfirst, hrender⟩ := PlannedFile.outcome_eq_ok houtcome
        exact ⟨hfirst, file, notes, by simp, hrender⟩
    · obtain ⟨hfirst, other, notes, hfind, hrender⟩ := ih hcall
      have hne : file.path ≠ call.path := hfirst file (by simp)
      refine ⟨fun other hother => hfirst other (by simp [hother]), other, notes, ?_, hrender⟩
      simpa [hne] using hfind

/-- No path is called for twice. -/
theorem Landed.nodup_calls (h : Landed context earlier landed) :
    ((callsOf landed).map WriteCall.path).Nodup := by
  induction h with
  | nil => simp [callsOf, collect, byPath]
  | @cons earlier file fate rest fits others ih =>
    rw [callsOf, byPath, List.map_cons, collect_cons]
    cases fate with
    | unrendered error => exact ih
    | elided => exact ih
    | handed content answer =>
      refine List.nodup_cons.2 ⟨?_, ih⟩
      intro hmem
      obtain ⟨call, hcall, hpath⟩ := List.mem_map.1 hmem
      exact (others.exists_first hcall).1 file (by simp) hpath.symm

end Calls

/-! ## Diagnostics of a run -/

/-- Notes on a rendered file are about identifiers and types. -/
theorem RenderNote.kind_toDiagnostic (path : String) (note : RenderNote) :
    (note.toDiagnostic path).kind = .identifierCollision ∨
      (note.toDiagnostic path).kind = .unsupportedSchema := by
  cases note
  · exact .inl rfl
  · exact .inr rfl

theorem RenderedFile.filter_diagnostics (strict : Bool) (file : RenderedFile) {fate : Fate}
    (fits : fate.Fits file.result) :
    (file.diagnostics strict).filter (·.kind == .templateRender) =
      (fate.renderReport? strict file.path).toList := by
  unfold diagnostics
  cases hresult : file.result with
  | error error =>
    rw [hresult] at fits
    obtain rfl := fits
    rfl
  | ok rendered =>
    rw [hresult] at fits
    cases rendered with
    | elided =>
      obtain rfl := fits
      rfl
    | file content notes =>
      obtain ⟨answer, rfl⟩ := fits
      rw [List.filter_map]
      simp only [Fate.renderReport?, Option.toList_none, List.map_eq_nil_iff,
        List.filter_eq_nil_iff]
      intro note _
      obtain hkind | hkind := note.kind_toDiagnostic file.path <;> simp [hkind]

theorem RenderedFile.kind_ne_outputWrite {strict : Bool} {file : RenderedFile} {d : Diagnostic}
    (h : d ∈ file.diagnostics strict) : d.kind ≠ .outputWrite := by
  unfold diagnostics at h
  cases hresult : file.result with
  | error error =>
    rw [hresult] at h
    obtain rfl := List.mem_singleton.1 h
    simp
  | ok rendered =>
    rw [hresult] at h
    cases rendered with
    | elided => simp at h
    | file content notes =>
      obtain ⟨note, -, rfl⟩ := List.mem_map.1 h
      obtain hkind | hkind := note.kind_toDiagnostic file.path <;> simp [hkind]

/-- The reports on files that could not be rendered, in the order of the plan. -/
theorem Landed.filter_diagnostics {context : RenderContext} {earlier : List PlannedFile}
    {landed : List (PlannedFile × Fate)} (strict : Bool) (h : Landed context earlier landed) :
    ((renderedBehind context earlier (landed.map Prod.fst)).flatMap
        (·.diagnostics strict)).filter (·.kind == .templateRender) =
      collect (Fate.renderReport? strict) (byPath landed) := by
  induction h with
  | nil => rfl
  | @cons earlier file fate rest fits others ih =>
    have hfile := RenderedFile.filter_diagnostics strict
      ⟨file.path, file.template.name, file.outcome context earlier⟩ fits
    simp only [List.map_cons, renderedBehind, List.flatMap_cons, List.filter_append, ih, hfile]
    exact (collect_cons _ _ _ _).symm

theorem kind_of_mem_writeReports {landed : List (String × Fate)} {d : Diagnostic}
    (h : d ∈ collect Fate.writeReport? landed) : d.kind = .outputWrite := by
  obtain ⟨⟨path, fate⟩, -, hreport⟩ := List.mem_filterMap.1 h
  unfold Fate.writeReport? at hreport
  split at hreport
  · obtain rfl := Option.some.inj hreport
    rfl
  · simp at hreport

/-- Making an interface reports nothing about files. -/
theorem kind_of_buildApi {tree : Json} {target : Target} {built : BuiltApi}
    (h : buildApi tree target = .ok built) {d : Diagnostic} (hd : d ∈ built.diagnostics) :
    d.kind ≠ .templateRender ∧ d.kind ≠ .outputWrite := by
  obtain ⟨document, notices, -, -, hdiagnostics⟩ := exists_run_of_buildApi h
  rw [hdiagnostics] at hd
  obtain ⟨notice, -, rfl⟩ := List.mem_map.1 hd
  simp only [Lowering.Notice.toDiagnostic]
  cases notice.remark <;> simp [Lowering.Remark.kind]

/-! ## Whole runs -/

/-- The lists and reports of a run, and the calls of its sink, read off the fates of the planned
files. -/
structure Accounts (strict : Bool) (landed : List (PlannedFile × Fate)) (generation : Generation)
    (calls : List WriteCall) : Prop where
  written : generation.files.written = collect Fate.written? (byPath landed)
  skipped : generation.files.skipped = collect Fate.skipped? (byPath landed)
  elided : generation.files.elided = collect Fate.elided? (byPath landed)
  unrendered : generation.diagnostics.filter (·.kind == .templateRender) =
    collect (Fate.renderReport? strict) (byPath landed)
  unwritten : generation.diagnostics.filter (·.kind == .outputWrite) =
    collect Fate.writeReport? (byPath landed)
  calls : calls = callsOf landed

/-- The run failed and its sink was never called. -/
def NothingWritten (result : Except GenerationFailure Generation) (calls : List WriteCall) : Prop :=
  calls = [] ∧ ∃ failure, result = .error failure ∧ failure.filesWritten = []

section Runs

variable {σ : Type} (target : Target) (templates : List Template) (options : GenerateOptions)
variable (sink : Sink σ) (built : BuiltApi) (own : σ)

/-- A strict run with a file that fails to render leaves the sink alone. -/
theorem generateFiles_of_fails (hstrict : options.strict = true)
    (hfails : SomeFails ⟨built.api, target⟩ (plan templates ⟨built.api, target⟩ options.render)) :
    generateFiles target templates options sink built own =
      let rendered := renderAll templates ⟨built.api, target⟩ options.render
      (.error ⟨⟨.failed (.unrendered (rendered.countP RenderedFile.isFailed)),
        built.diagnostics ++ rendered.flatMap (·.diagnostics options.strict)⟩, []⟩, own) := by
  have hfailed := failed_pos_iff.2 hfails
  unfold generateFiles
  exact if_pos (by simpa [hstrict] using hfailed)

/-- Any other run hands over its files, and its result is read off their fates. -/
theorem generateFiles_of_not_fails
    (hnot : ¬ (options.strict = true ∧
      SomeFails ⟨built.api, target⟩ (plan templates ⟨built.api, target⟩ options.render))) :
    generateFiles target templates options sink built own =
      let rendered := renderAll templates ⟨built.api, target⟩ options.render
      let (landed, own) := fatesOf sink rendered own
      (.ok ⟨⟨collect Fate.written? landed, collect Fate.skipped? landed,
          collect Fate.elided? landed⟩,
        built.diagnostics ++ rendered.flatMap (·.diagnostics options.strict) ++
          collect Fate.writeReport? landed⟩, own) := by
  rw [← failed_pos_iff] at hnot
  unfold generateFiles
  rw [if_neg (by simpa using hnot), writeFiles_eq]

variable {target built}

/-- The diagnostics of a run about files are those of rendering and writing. -/
theorem filter_run_diagnostics {tree : Json} (hbuilt : buildApi tree target = .ok built)
    {landed : List (PlannedFile × Fate)} (hlanded : Landed ⟨built.api, target⟩ [] landed) :
    let rendered := renderedBehind ⟨built.api, target⟩ [] (landed.map Prod.fst)
    let diagnostics := built.diagnostics ++ rendered.flatMap (·.diagnostics options.strict) ++
      collect Fate.writeReport? (byPath landed)
    diagnostics.filter (·.kind == .templateRender) =
        collect (Fate.renderReport? options.strict) (byPath landed) ∧
      diagnostics.filter (·.kind == .outputWrite) =
        collect Fate.writeReport? (byPath landed) := by
  intro rendered diagnostics
  have hwrite := @kind_of_mem_writeReports (byPath landed)
  simp only [diagnostics, List.filter_append]
  constructor
  · have hbefore : built.diagnostics.filter (·.kind == .templateRender) = [] :=
      List.filter_eq_nil_iff.2 fun d hd => by simpa using (kind_of_buildApi hbuilt hd).1
    have hafter : (collect Fate.writeReport? (byPath landed)).filter
        (·.kind == .templateRender) = [] :=
      List.filter_eq_nil_iff.2 fun d hd => by simp [hwrite hd]
    rw [hbefore, hafter, hlanded.filter_diagnostics, List.nil_append, List.append_nil]
  · have hbefore : built.diagnostics.filter (·.kind == .outputWrite) = [] :=
      List.filter_eq_nil_iff.2 fun d hd => by simpa using (kind_of_buildApi hbuilt hd).2
    have hmiddle : (rendered.flatMap (·.diagnostics options.strict)).filter
        (·.kind == .outputWrite) = [] := by
      refine List.filter_eq_nil_iff.2 fun d hd => ?_
      obtain ⟨file, -, hfile⟩ := List.mem_flatMap.1 hd
      simpa using RenderedFile.kind_ne_outputWrite hfile
    have hafter : (collect Fate.writeReport? (byPath landed)).filter (·.kind == .outputWrite) =
        collect Fate.writeReport? (byPath landed) :=
      List.filter_eq_self.2 fun d hd => by simp [hwrite hd]
    rw [hbefore, hmiddle, hafter, List.nil_append, List.nil_append]

/-- A run that hands over its files accounts for all of them, and keeping the calls of the sink
changes nothing else. -/
theorem exists_accounts {tree : Json} (hbuilt : buildApi tree target = .ok built)
    (hnot : ¬ (options.strict = true ∧
      SomeFails ⟨built.api, target⟩ (plan templates ⟨built.api, target⟩ options.render))) :
    ∃ generation after landed,
      generateFiles target templates options sink built own = (.ok generation, after) ∧
      generateFiles target templates options sink.recorded built (own, []) =
        (.ok generation, after, callsOf landed) ∧
      landed.map Prod.fst = plan templates ⟨built.api, target⟩ options.render ∧
      Landed ⟨built.api, target⟩ [] landed ∧
      Accounts options.strict landed generation (callsOf landed) := by
  have hplain := generateFiles_of_not_fails target templates options sink built own hnot
  have hrecorded := generateFiles_of_not_fails target templates options sink.recorded built
    (own, []) hnot
  obtain ⟨landed, hfiles, hlanded, hfates⟩ := exists_landed sink ⟨built.api, target⟩ []
    (plan templates ⟨built.api, target⟩ options.render) own
  obtain ⟨hrender, hwrite⟩ := filter_run_diagnostics options hbuilt hlanded
  simp only [fatesOf_recorded, renderAll_eq, hfates, List.nil_append] at hplain hrecorded
  rw [hfiles] at hrender hwrite
  exact ⟨_, _, landed, hplain, hrecorded, hfiles, hlanded, rfl, rfl, rfl, hrender, hwrite, rfl⟩

end Runs

/-- A run that fails to make an interface, or a strict run with a file that fails to render, never
calls its sink. In any other run every planned file has one fate, from which all that the run
answers is read off in the order of the plan; the sink is called at most once for a path, with
what the template of the first file with this path renders. -/
theorem generate_accounts_for_planned_files {σ : Type} (target : Target)
    (templates : List Template) (options : GenerateOptions) (sink : Sink σ) (tree : Json)
    (own : σ) :
    ∃ result after calls,
      generate target templates options sink tree own = (result, after) ∧
      generate target templates options sink.recorded tree (own, []) = (result, after, calls) ∧
      match buildApi tree target with
      | .error _ => NothingWritten result calls
      | .ok built =>
        let context : RenderContext := ⟨built.api, target⟩
        let planned := plan templates context options.render
        (options.strict = true ∧ SomeFails context planned → NothingWritten result calls) ∧
        (¬ (options.strict = true ∧ SomeFails context planned) →
          ∃ generation landed, result = .ok generation ∧ landed.map Prod.fst = planned ∧
            Landed context [] landed ∧ Accounts options.strict landed generation calls ∧
            (calls.map WriteCall.path).Nodup ∧
            ∀ call ∈ calls, ∃ file notes,
              planned.find? (·.path == call.path) = some file ∧
              file.template.render context file.scope = .ok (.file call.content notes)) := by
  unfold generate generateWith
  simp only [buildApiWith_nil]
  cases hbuilt : buildApi tree target with
  | error failure => exact ⟨_, _, _, rfl, rfl, rfl, _, rfl, rfl⟩
  | ok built =>
    simp only
    by_cases hfails : options.strict = true ∧ SomeFails ⟨built.api, target⟩
        (plan templates ⟨built.api, target⟩ options.render)
    · have hplain := generateFiles_of_fails target templates options sink built own
        hfails.1 hfails.2
      have hrecorded := generateFiles_of_fails target templates options sink.recorded built
        (own, []) hfails.1 hfails.2
      exact ⟨_, _, _, hplain, hrecorded, fun _ => ⟨rfl, _, rfl, rfl⟩,
        fun hnot => absurd hfails hnot⟩
    · obtain ⟨generation, after, landed, hplain, hrecorded, hfiles, hlanded, haccounts⟩ :=
        exists_accounts templates options sink own hbuilt hfails
      refine ⟨_, _, _, hplain, hrecorded, fun h => absurd h hfails, fun _ => ?_⟩
      refine ⟨generation, landed, rfl, hfiles, hlanded, haccounts, hlanded.nodup_calls, ?_⟩
      intro call hcall
      rw [← hfiles]
      exact (hlanded.exists_first hcall).2

end ServantGen
