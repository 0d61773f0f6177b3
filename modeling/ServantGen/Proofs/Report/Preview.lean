import ServantGen.Report.Generate
import ServantGen.Proofs.Haskell.Files
import ServantGen.Proofs.Json.Keys
import ServantGen.Proofs.Output.Writing

/-!
# A dry run shows what a real run writes

Both runs make the same interface with the same plugins and render the same files; only then do
they part, because the files go to different sinks. One keeps them in memory by their paths, the
other one writes them where the paths lead below a directory. They agree when every path leads to
a place of its own: then no file is turned away, and none is written over another one. Main
statement: `Haskell.dryRun_foretells_real`.
-/

namespace ServantGen

/-! ## What a computation keeps -/

namespace RunM

variable {σ α β : Type} {holds : σ → Prop}

/-- What holds of the state of the plugins still holds after a computation of a run. -/
def Keeps (holds : σ → Prop) (m : RunM σ α) : Prop :=
  ∀ state own, holds own → holds (m.run.run (state, own)).2.2

theorem Keeps.pure (a : α) : Keeps holds (Pure.pure a : RunM σ α) := fun _ _ h => h

theorem Keeps.fail (error : RunError) : Keeps holds (RunM.fail error : RunM σ α) :=
  fun _ _ h => h

theorem Keeps.get : Keeps holds (MonadState.get : RunM σ (RunState × σ)) := fun _ _ h => h

theorem run_get_bind (next : RunState × σ → RunM σ α) (s : RunState × σ) :
    (MonadState.get >>= next).run.run s = (next s).run.run s := rfl

theorem run_set_bind (next : PUnit → RunM σ α) (s s' : RunState × σ) :
    (set s' >>= next).run.run s = (next ⟨⟩).run.run s' := rfl

theorem Keeps.modify {f : RunState × σ → RunState × σ} (h : ∀ s, (f s).2 = s.2) :
    Keeps holds (modify f : RunM σ Unit) :=
  fun state own hown => (h (state, own)).symm ▸ hown

theorem Keeps.bind {m : RunM σ α} {next : α → RunM σ β} (h : Keeps holds m)
    (hnext : ∀ a, Keeps holds (next a)) : Keeps holds (m >>= next) := by
  intro state own hown
  have hfirst := h state own hown
  rw [ExceptT.run_bind, StateT.run_bind]
  cases hrun : m.run.run (state, own) with
  | mk outcome after =>
    rw [hrun] at hfirst
    cases outcome with
    | error error => exact hfirst
    | ok a => exact hnext a after.1 after.2 hfirst

theorem Keeps.forM {items : List α} {f : α → RunM σ PUnit}
    (h : ∀ item ∈ items, Keeps holds (f item)) : Keeps holds (items.forM f) := by
  induction items with
  | nil => exact .pure ()
  | cons item rest ih =>
    obtain ⟨hitem, hrest⟩ := List.forall_mem_cons.1 h
    exact hitem.bind fun _ => ih hrest

def phaseNames : List String :=
  ["read", Lowering.phaseName]

/-- The plugins keep what holds of their state, before and after every phase. -/
def PluginsKeep (holds : σ → Prop) (plugins : List (Plugin σ)) : Prop :=
  ∀ plugin ∈ plugins, ∀ phase ∈ phaseNames,
    Keeps holds (plugin.before phase) ∧ Keeps holds (plugin.after phase)

theorem keeps_runWith {plugins : List (Plugin σ)} {phase : Phase σ}
    (hplugins : PluginsKeep holds plugins) (hname : phase.name ∈ phaseNames)
    (hphase : Keeps holds phase.run) : Keeps holds (phase.runWith plugins) := by
  refine .bind (.forM fun plugin hplugin => (hplugins plugin hplugin _ hname).1) fun _ => ?_
  refine .bind hphase fun _ => ?_
  exact .forM fun plugin hplugin => (hplugins plugin hplugin _ hname).2

theorem keeps_readPhase (tree : Json) : Keeps holds (readPhase tree).run := by
  unfold readPhase
  split
  · exact .pure ()
  · exact .fail _

theorem keeps_lowerPhase (tree : Json) (target : Target) :
    Keeps holds (lowerPhase tree target).run := by
  unfold lowerPhase
  cases Document.ofTree tree with
  | error error => exact fun _ _ h => h
  | ok document =>
    simp only [pure_bind]
    split
    · exact fun _ _ h => h
    · refine .bind (.modify fun _ => rfl) fun _ => ?_
      split
      · exact .modify fun _ => rfl
      · exact .bind (.modify fun _ => rfl) fun _ => .fail _

/-- Making an interface keeps what the plugins keep. -/
theorem holds_buildApiWith {plugins : List (Plugin σ)} (hplugins : PluginsKeep holds plugins)
    (tree : Json) (target : Target) {own : σ} (h : holds own) :
    holds (buildApiWith tree target plugins own).2 := by
  have hphases : Keeps holds (runPhases tree target plugins []) := by
    refine .forM fun phase hphase => ?_
    obtain rfl | rfl : phase = readPhase tree ∨ phase = lowerPhase tree target := by
      simpa using hphase
    · exact keeps_runWith hplugins (by simp [readPhase, phaseNames]) (keeps_readPhase tree)
    · exact keeps_runWith hplugins (by simp [lowerPhase, phaseNames])
        (keeps_lowerPhase tree target)
  exact hphases .initial own h

end RunM

/-! ## Snapshots -/

/-- Snapshots go to disk, and only the disk changes. -/
theorem Workspace.keeps_writeSnapshot {holds : Workspace → Prop} {directory : WrittenPath}
    {snapshot : Snapshot}
    (h : ∀ workspace : Workspace, holds workspace → holds { workspace with
      disk := (workspace.disk.writeInto directory snapshot.fileName snapshot.text).2 }) :
    RunM.Keeps holds (writeSnapshot directory snapshot) := by
  intro state workspace hworkspace
  -- The state that is set is made from the one that was read, so no rule for single steps applies.
  rw [writeSnapshot, RunM.run_get_bind]
  dsimp only
  rw [RunM.run_set_bind]
  split <;> exact h workspace hworkspace

namespace GenerateRun

variable {run : GenerateRun} {disk : FileSystem} {place : TreePath}

theorem pluginsKeep {holds : Workspace → Prop}
    (h : ∀ directory ∈ run.snapshots, ∀ snapshot : Snapshot, snapshot.phase ∈ RunM.phaseNames →
      ∀ workspace : Workspace, holds workspace → holds { workspace with
        disk := (workspace.disk.writeInto (.ofText directory) snapshot.fileName
          snapshot.text).2 }) :
    RunM.PluginsKeep holds run.plugins := by
  intro plugin hplugin phase hphase
  obtain ⟨directory, hdirectory, rfl⟩ : ∃ directory, run.snapshots = some directory ∧
      snapshotPlugin (Workspace.writeSnapshot (.ofText directory)) = plugin := by
    simpa [plugins] using hplugin
  refine ⟨.pure (), .bind .get fun s => ?_⟩
  exact Workspace.keeps_writeSnapshot
    (h directory hdirectory ⟨phase, s.1.api, s.1.diagnostics⟩ hphase)

/-- The snapshots of a run, if it makes any, are outside of a place. -/
def SnapshotsOutside (run : GenerateRun) (disk : FileSystem) (place : TreePath) : Prop :=
  ∀ directory ∈ run.snapshots, ∀ phase ∈ RunM.phaseNames,
    ¬ place <+: disk.lead (.ofText directory) ++ [phase ++ ".json"]

/-- There is no file at a place or below. -/
structure IsClear (disk : FileSystem) (place : TreePath) (workspace : Workspace) : Prop where
  working : workspace.disk.working = disk.working
  empty : ∀ names, workspace.disk.root.read? (place ++ names) = none

/-- Snapshots have plain names. -/
theorem ofText_snapshotName {phase : String} (h : phase ∈ RunM.phaseNames) :
    WrittenPath.ofText (phase ++ ".json") = ⟨false, [phase ++ ".json"]⟩ ∧
      IsEntryName (phase ++ ".json") := by
  obtain rfl | rfl : phase = "read" ∨ phase = Lowering.phaseName := by
    simpa [RunM.phaseNames] using h
  · exact ⟨by decide +kernel, by decide, by decide⟩
  · exact ⟨by decide +kernel, by decide, by decide⟩

/-- A place stays clear if the snapshots are outside of it. -/
theorem SnapshotsOutside.keeps_isClear (h : run.SnapshotsOutside disk place) :
    RunM.PluginsKeep (IsClear disk place) run.plugins := by
  refine pluginsKeep fun directory hdirectory snapshot hphase workspace hclear => ?_
  have houtside := h directory hdirectory snapshot.phase hphase
  have hother : ∀ names, place ++ names ≠
      workspace.disk.lead (.ofText directory) ++ [snapshot.fileName] := by
    intro names heq
    rw [FileSystem.lead_congr hclear.working] at heq
    exact houtside ⟨names, heq⟩
  obtain ⟨hname, hentry⟩ := ofText_snapshotName hphase
  have hwritten := fun names => workspace.disk.read?_writeInto_of_ne
    (WrittenPath.parts_ofText_ne_nil directory) hname hentry snapshot.text (hother names)
  exact ⟨(hwritten []).1.trans hclear.working,
    fun names => (hwritten names).2.trans (hclear.empty names)⟩

end GenerateRun

/-! ## Files that are written -/

def RenderedFile.content? (file : RenderedFile) : Option (String × String) :=
  match file.result with
  | .ok (.file content _) => some (file.path, content)
  | _ => none

/-- The path of a file for which there is nothing to write. -/
def RenderedFile.elided? (file : RenderedFile) : Option String :=
  match file.result with
  | .ok .elided => some file.path
  | _ => none

/-- When a sink writes everything, it was handed all files that were rendered, in their order. -/
theorem writeFiles_of_answersAll {σ : Type} (sink : Sink σ) {rendered : List RenderedFile} {own : σ}
    (h : answersAll sink (· == .written) (rendered.filterMap (·.content?)) own = true) :
    writeFiles sink rendered own =
      (⟨⟨(rendered.filterMap (·.content?)).map Prod.fst, [], rendered.filterMap (·.elided?)⟩, []⟩,
        afterAll sink (rendered.filterMap (·.content?)) own) := by
  induction rendered generalizing own with
  | nil => rfl
  | cons file rest ih =>
    rw [writeFiles]
    cases hresult : file.result with
    | error error =>
      have hcontent : file.content? = none := by simp [RenderedFile.content?, hresult]
      have helided : file.elided? = none := by simp [RenderedFile.elided?, hresult]
      simp only [List.filterMap_cons, hcontent, helided] at h ⊢
      exact ih h
    | ok rendered =>
      cases rendered with
      | elided =>
        have hcontent : file.content? = none := by simp [RenderedFile.content?, hresult]
        have helided : file.elided? = some file.path := by simp [RenderedFile.elided?, hresult]
        simp only [List.filterMap_cons, hcontent, helided] at h ⊢
        rw [ih h]
      | file content notes =>
        have hcontent : file.content? = some (file.path, content) := by
          simp [RenderedFile.content?, hresult]
        have helided : file.elided? = none := by simp [RenderedFile.elided?, hresult]
        simp only [List.filterMap_cons, hcontent, helided] at h ⊢
        rw [answersAll_cons, Bool.and_eq_true, beq_iff_eq] at h
        obtain ⟨hwritten, hrest⟩ := h
        simp only [ih hrest, hwritten]
        rfl

/-- Every planned file of a target leads to a place of its own below a directory. -/
def LeadApart (templates : List Template) (target : Target) (options : RenderOptions) : Prop :=
  ∀ api, ((plan templates ⟨api, target⟩ options).map fun file => insideNames? file.path).Nodup ∧
    ∀ file ∈ plan templates ⟨api, target⟩ options, (insideNames? file.path).isSome = true

theorem map_path_renderedBehind (context : RenderContext) (earlier files : List PlannedFile) :
    (renderedBehind context earlier files).map RenderedFile.path =
      files.map PlannedFile.path := by
  induction files generalizing earlier with
  | nil => rfl
  | cons file rest ih => rw [renderedBehind, List.map_cons, List.map_cons, ih]

theorem RenderedFile.fst_of_content? {file : RenderedFile} {entry : String × String}
    (h : file.content? = some entry) : entry.1 = file.path := by
  unfold content? at h
  split at h
  · rw [← Option.some.inj h]
  · simp at h

/-- The paths of the contents are among those of the files. -/
theorem map_fst_filterMap_content?_sublist (rendered : List RenderedFile) :
    ((rendered.filterMap (·.content?)).map Prod.fst).Sublist (rendered.map RenderedFile.path) := by
  induction rendered with
  | nil => exact .slnil
  | cons file rest ih =>
    cases hcontent : file.content? with
    | none => simpa [hcontent] using ih.cons _
    | some entry =>
      have hpath := RenderedFile.fst_of_content? hcontent
      simpa [hcontent, hpath] using ih.cons_cons file.path

section Apart

variable {templates : List Template} {target : Target} {options : RenderOptions}

/-- The contents of planned files that lead apart go to different places, none of them outside of
the directory. -/
theorem LeadApart.contents (h : LeadApart templates target options) (api : Api) :
    let files := (renderAll templates ⟨api, target⟩ options).filterMap (·.content?)
    (files.map fun file => insideNames? file.1).Nodup ∧
      ∀ file ∈ files, (insideNames? file.1).isSome = true := by
  intro files
  obtain ⟨hnodup, hinside⟩ := h api
  have hsublist : (files.map Prod.fst).Sublist
      ((plan templates ⟨api, target⟩ options).map PlannedFile.path) := by
    rw [← map_path_renderedBehind ⟨api, target⟩ [], ← renderAll_eq]
    exact map_fst_filterMap_content?_sublist _
  constructor
  · have hplaces := hsublist.map insideNames?
    rw [List.map_map, List.map_map] at hplaces
    exact hplaces.nodup hnodup
  · intro file hfile
    obtain ⟨planned, hplanned, hpath⟩ :=
      List.mem_map.1 (hsublist.subset (List.mem_map_of_mem hfile))
    rw [← hpath]
    exact hinside planned hplanned

end Apart

/-! ## The sinks of the two runs -/

namespace Workspace

/-- Every file is shown. -/
theorem answersAll_shownSink (files : List (String × String)) (workspace : Workspace) :
    answersAll shownSink (· == .written) files workspace = true := by
  induction files generalizing workspace with
  | nil => rfl
  | cons file rest ih =>
    rw [answersAll_cons, Bool.and_eq_true]
    exact ⟨rfl, ih _⟩

/-- Files with different paths that are new are shown in their order, with their contents. -/
theorem afterAll_shownSink {files : List (String × String)} {workspace : Workspace}
    (h : (workspace.shown ++ files).keys.Nodup) :
    afterAll shownSink files workspace =
      { workspace with shown := workspace.shown ++ files } := by
  induction files generalizing workspace with
  | nil => simp [afterAll]
  | cons file rest ih =>
    obtain ⟨path, content⟩ := file
    have hnew : path ∉ workspace.shown.keys := by
      intro hmem
      rw [Entries.keys, List.map_append, List.nodup_append] at h
      exact h.2.2 path hmem path (by simp) rfl
    have hshown : shownSink path content workspace =
        (.written, { workspace with shown := workspace.shown ++ [(path, content)] }) := by
      rw [shownSink, MemoryFiles.sink, Entries.put_of_notMem hnew]
    rw [afterAll, List.foldl_cons, hshown]
    refine (ih (by simpa using h)).trans ?_
    simp

/-- Writing below a directory is up to the files on disk. -/
theorem answersAll_diskSink (directory : WrittenPath) (accepts : WriteAnswer → Bool)
    (files : List (String × String)) (workspace : Workspace) :
    answersAll (diskSink directory) accepts files workspace =
      answersAll (directorySink directory .always) accepts files workspace.disk := by
  induction files generalizing workspace with
  | nil => rfl
  | cons file rest ih =>
    rw [answersAll_cons, answersAll_cons, ih]
    rfl

theorem disk_afterAll_diskSink (directory : WrittenPath) (files : List (String × String))
    (workspace : Workspace) :
    (afterAll (diskSink directory) files workspace).disk =
      afterAll (directorySink directory .always) files workspace.disk := by
  induction files generalizing workspace with
  | nil => rfl
  | cons file rest ih => exact ih _

end Workspace

/-! ## Two runs -/

/-- Whether a run fails is settled before its files go to the sink, and a sink that writes
everything is handed the files that were rendered. -/
theorem generateWith_cases {σ : Type} (target : Target) (templates : List Template)
    (options : GenerateOptions) (plugins : List (Plugin σ)) (tree : Json) (own : σ) :
    let after := (buildApiWith tree target plugins own).2
    (∃ failure, ∀ sink,
      generateWith target templates options plugins sink tree own = (.error failure, after)) ∨
    ∃ (api : Api) (elided : List String) (diagnostics : List Diagnostic), ∀ sink,
      let files := (renderAll templates ⟨api, target⟩ options.render).filterMap (·.content?)
      (∃ generation final,
        generateWith target templates options plugins sink tree own = (.ok generation, final)) ∧
      (answersAll sink (· == .written) files after = true →
        generateWith target templates options plugins sink tree own =
          (.ok ⟨⟨files.map Prod.fst, [], elided⟩, diagnostics⟩, afterAll sink files after)) := by
  intro after
  cases hbuild : buildApiWith tree target plugins own with
  | mk result final =>
    obtain rfl : after = final := by simp [after, hbuild]
    simp only [generateWith, hbuild]
    cases result with
    | error failure => exact .inl ⟨_, fun _ => rfl⟩
    | ok built =>
      let rendered := renderAll templates ⟨built.api, target⟩ options.render
      simp only [generateFiles]
      split
      · exact .inl ⟨_, fun _ => rfl⟩
      · refine .inr ⟨built.api, rendered.filterMap (·.elided?),
          built.diagnostics ++ rendered.flatMap (·.diagnostics options.strict),
          fun sink => ⟨⟨_, _, rfl⟩, fun hwritten => ?_⟩⟩
        rw [writeFiles_of_answersAll sink hwritten, List.append_nil]

namespace GenerateRun

def dry (run : GenerateRun) : GenerateRun := { run with dryRun := true }

def real (run : GenerateRun) : GenerateRun := { run with dryRun := false }

/-- What a dry run says about the real one, each with its report and with the files on disk after
it, which were `disk` before. -/
structure Foretells (run : GenerateRun) (disk : FileSystem)
    (dry real : GenerateReport × FileSystem) : Prop where
  /-- One of the runs fails exactly when the other one does. -/
  succeeded : dry.1.succeeded = real.1.succeeded
  /-- They fail with the same error and the same diagnostics. -/
  failed : dry.1.succeeded = false → dry = real
  /-- The dry run writes nothing but snapshots. -/
  untouched : run.snapshots = none → dry.2 = disk
  /-- A dry run that does not fail shows files. -/
  shows : dry.1.succeeded = true → ∃ files, dry.1.outcome = .preview files
  /-- Let there be no file in the output directory before the runs, let the snapshots go elsewhere,
  and let the system perform what it is asked for behind them. Then the real run writes exactly the
  files that are shown, in their order, and reports the same; and then exactly these files are in
  the directory, with the contents that are shown. -/
  written : ∀ files place, dry.1.outcome = .preview files →
    disk.locate (.ofText run.output) = .ok place →
    (∀ names, disk.root.read? (place ++ names) = none) → run.SnapshotsOutside disk place →
    systemPerforms (.ofText run.output) files dry.2 = true →
    (∃ elided, real.1 = { dry.1 with
      outcome := .written run.output ⟨files.map Prod.fst, [], elided⟩ run.snapshots }) ∧
    ∀ names content, real.2.root.read? (place ++ names) = some content ↔
      ∃ path, (path, content) ∈ files ∧ insideNames? path = some names

variable {run : GenerateRun} {target : Target} {templates : List Template} {tree : Json}
variable {disk : FileSystem} {workspace : Workspace}

theorem execute_of_error {failure : GenerationFailure}
    (h : generateWith target templates run.options run.plugins run.sink tree ⟨disk, []⟩ =
      (.error failure, workspace)) :
    run.execute target templates tree disk =
      (⟨apiHeading? tree, target.name, failure.diagnostics,
        failure.outcome⟩, workspace.disk) := by
  simp [execute, h, outcome]

theorem execute_of_ok {generation : Generation}
    (h : generateWith target templates run.options run.plugins run.sink tree ⟨disk, []⟩ =
      (.ok generation, workspace)) :
    run.execute target templates tree disk =
      (⟨apiHeading? tree, target.name, generation.diagnostics,
        if run.dryRun then .preview workspace.shown
        else .written run.output generation.files run.snapshots⟩, workspace.disk) := by
  simp [execute, h, outcome]

/-- A run without a result shows nothing. -/
theorem outcome_ne_preview (failure : GenerationFailure) (files : List (String × String)) :
    failure.outcome ≠ .preview files := by
  cases hreason : failure.reason <;> simp [GenerationFailure.outcome, hreason]

/-- Nor does it count as a success. -/
theorem succeeded_outcome (api : Option String) (target : String) (diagnostics : List Diagnostic)
    (failure : GenerationFailure) :
    (GenerateReport.mk api target diagnostics failure.outcome).succeeded = false := by
  cases hreason : failure.reason <;>
    simp [GenerateReport.succeeded, GenerationFailure.outcome, hreason]

/-- A dry run that hands over files with different paths shows them. -/
theorem execute_dry_of_ok {files : List (String × String)} {generation : Generation}
    (hkeys : (Entries.keys files).Nodup) (hshown : workspace.shown = [])
    (h : generateWith target templates run.options run.plugins Workspace.shownSink tree ⟨disk, []⟩ =
      (.ok generation, afterAll Workspace.shownSink files workspace)) :
    run.dry.execute target templates tree disk =
      (⟨apiHeading? tree, target.name, generation.diagnostics, .preview files⟩,
        workspace.disk) := by
  have hfinal : afterAll Workspace.shownSink files workspace =
      { workspace with shown := files } := by
    rw [Workspace.afterAll_shownSink (by simpa [hshown] using hkeys), hshown]
    rfl
  rw [hfinal] at h
  have hrun : run.dry.execute target templates tree disk = _ := execute_of_ok h
  exact hrun

/-- A dry run foretells the real one when every file leads to a place of its own. -/
theorem foretells_of_leadApart (hapart : LeadApart templates target run.options.render)
    (tree : Json) (disk : FileSystem) :
    run.Foretells disk (run.dry.execute target templates tree disk)
      (run.real.execute target templates tree disk) := by
  have huntouched : run.snapshots = none →
      (buildApiWith tree target run.plugins ⟨disk, []⟩).2.disk = disk := by
    intro hnone
    have hplugins : run.plugins = [] := by simp [plugins, hnone]
    rw [hplugins, buildApiWith_nil]
  obtain ⟨failure, hruns⟩ | ⟨api, elided, diagnostics, hruns⟩ :=
    generateWith_cases target templates run.options run.plugins tree (⟨disk, []⟩ : Workspace)
  · have hdry : run.dry.execute target templates tree disk = _ := execute_of_error (hruns _)
    have hreal : run.real.execute target templates tree disk = _ := execute_of_error (hruns _)
    rw [hdry, hreal]
    refine ⟨rfl, fun _ => rfl, huntouched, fun hsucceeded => ?_, fun files _ hshow => ?_⟩
    · rw [succeeded_outcome] at hsucceeded
      exact Bool.noConfusion hsucceeded
    · exact absurd hshow (outcome_ne_preview failure files)
  · have hshown : (buildApiWith tree target run.plugins ⟨disk, []⟩).2.shown = [] :=
      @RunM.holds_buildApiWith _ (fun workspace : Workspace => workspace.shown = []) _
        (pluginsKeep fun _ _ _ _ _ h => h) tree target ⟨disk, []⟩ rfl
    have hclear : ∀ place, (∀ names, disk.root.read? (place ++ names) = none) →
        run.SnapshotsOutside disk place →
        IsClear disk place (buildApiWith tree target run.plugins ⟨disk, []⟩).2 :=
      fun place hempty houtside =>
        RunM.holds_buildApiWith houtside.keeps_isClear tree target ⟨rfl, hempty⟩
    generalize (buildApiWith tree target run.plugins ⟨disk, []⟩).2 = after
      at hruns hshown huntouched hclear
    obtain ⟨hnodup, hinside⟩ := hapart.contents api
    generalize (renderAll templates ⟨api, target⟩ run.options.render).filterMap (·.content?) =
      files at hruns hnodup hinside
    have hkeys : (Entries.keys files).Nodup := by
      refine List.Nodup.of_map insideNames? ?_
      rwa [Entries.keys, List.map_map]
    have hdry := execute_dry_of_ok hkeys hshown
      ((hruns _).2 (Workspace.answersAll_shownSink files after))
    obtain ⟨⟨generation, final, hreal⟩, hwritten⟩ :=
      hruns (Workspace.diskSink (.ofText run.output))
    rw [hdry]
    refine ⟨?_, by simp [GenerateReport.succeeded], huntouched, fun _ => ⟨files, rfl⟩, ?_⟩
    · have hrun : run.real.execute target templates tree disk = _ := execute_of_ok hreal
      rw [hrun]
      rfl
    · rintro shown place hshow hplace hempty houtside hperforms
      obtain rfl : files = shown := by simpa using hshow
      rw [Workspace.answersAll_diskSink] at hwritten
      have hrun : run.real.execute target templates tree disk = _ :=
        execute_of_ok (hwritten (answersAll_written_of_systemPerforms hinside hperforms))
      rw [hrun]
      refine ⟨⟨elided, rfl⟩, fun names content => ?_⟩
      have hbefore := hclear place hempty houtside
      have hread := read?_afterAll (WrittenPath.parts_ofText_ne_nil run.output) hplace
        hbefore.working hinside hnodup hperforms (place ++ names) content
      rw [← Workspace.disk_afterAll_diskSink] at hread
      refine hread.trans ?_
      rw [hbefore.empty]
      simp [GoesTo]

end GenerateRun

/-! ## The target -/

namespace Haskell

theorem leadApart (settings : TargetSettings) (options : RenderOptions) :
    LeadApart templates (settings.apply target) options := by
  have hconvention : (settings.apply target).convention = convention := rfl
  intro api
  refine ⟨nodup_map_insideNames? hconvention options, fun file hfile => ?_⟩
  exact (mem_templates_of_mem_plan hconvention hfile).2

/-- With any settings, a dry run foretells what the real one comes to. -/
theorem dryRun_foretells_real (settings : TargetSettings) (run : GenerateRun) (tree : Json)
    (disk : FileSystem) :
    run.Foretells disk (run.dry.execute (settings.apply target) templates tree disk)
      (run.real.execute (settings.apply target) templates tree disk) :=
  GenerateRun.foretells_of_leadApart (leadApart settings run.options.render) tree disk

/-- A document and a package name that try to lead out of an empty directory, with the files that
come to be in it while snapshots go to another one; and a document of which no interface can be
made. -/
theorem dryRun_foretells_real_marker :
    let settings : TargetSettings := { package := some "../.." }
    let run : GenerateRun := ⟨"out", {}, false, some "log"⟩
    let disk : FileSystem := { FileSystem.within ["home", "out"] with working := ["home"] }
    let pet : Json := .object [("$ref", .string "#/components/schemas/Pet")]
    let tree : Json := .object [
      ("info", .object [("title", .string "../Pets")]),
      ("paths", .object [("/..", .object [("get", .object [("responses", .object [
        ("200", .object [("content", .object [("application/json", .object [
          ("schema", pet)])])])])])])]),
      ("components", .object [("schemas", .object [("Pet", .object [
        ("properties", .object [("parent", pet)])])])])]
    let dry := fun tree => run.dry.execute (settings.apply target) templates tree disk
    let real := fun tree => run.real.execute (settings.apply target) templates tree disk
    (∃ files elided, (dry tree).1.outcome = .preview files ∧
      files.map Prod.fst = ["lib/Unnamed/API.hs", "lib/Unnamed/Types.hs", "api.cabal",
        "stack.yaml", "Setup.hs"] ∧
      (real tree).1 = { (dry tree).1 with
        outcome := .written "out" ⟨files.map Prod.fst, [], elided⟩ (some "log") } ∧
      ∀ names content, (real tree).2.root.read? (["home", "out"] ++ names) = some content ↔
        ∃ path, (path, content) ∈ files ∧ insideNames? path = some names) ∧
    (dry (.object [])).1.succeeded = false ∧ dry (.object []) = real (.object []) := by
  intro settings run disk pet tree dry real
  constructor
  · have hforetells : run.Foretells disk (dry tree) (real tree) :=
      dryRun_foretells_real settings run tree disk
    have hview : (match (dry tree).1.outcome with
        | .preview files =>
          some (files.map Prod.fst, systemPerforms (.ofText "out") files (dry tree).2)
        | _ => none) = some (["lib/Unnamed/API.hs", "lib/Unnamed/Types.hs", "api.cabal",
          "stack.yaml", "Setup.hs"], true) := by
      decide +kernel
    have hplace : disk.locate (.ofText "out") = .ok ["home", "out"] := by decide +kernel
    have hempty : ∀ names, disk.root.read? (["home", "out"] ++ names) = none := by
      intro names
      have hdirectory : disk.root.get? ["home", "out"] = some .empty := by rfl
      rw [FileTree.read?, FileTree.get?_append, hdirectory]
      exact FileTree.read?_empty names
    have houtside : run.SnapshotsOutside disk ["home", "out"] := by
      rintro _ ⟨⟩ phase hphase
      obtain rfl | rfl : phase = "read" ∨ phase = Lowering.phaseName := by
        simpa [RunM.phaseNames] using hphase
      · decide +kernel
      · decide +kernel
    cases houtcome : (dry tree).1.outcome with
    | preview files =>
      rw [houtcome] at hview
      obtain ⟨hpaths, hperforms⟩ := Prod.mk.inj (Option.some.inj hview)
      obtain ⟨⟨elided, hreport⟩, hfiles⟩ :=
        hforetells.written files _ houtcome hplace hempty houtside hperforms
      exact ⟨files, elided, rfl, hpaths, hreport, hfiles⟩
    | written => simp [houtcome] at hview
    | failed => simp [houtcome] at hview
    | endless => simp [houtcome] at hview
  · have hforetells : run.Foretells disk (dry (.object [])) (real (.object [])) :=
      dryRun_foretells_real settings run (.object []) disk
    have hfails : (dry (.object [])).1.succeeded = false := by decide +kernel
    exact ⟨hfails, hforetells.failed hfails⟩

end Haskell

end ServantGen
