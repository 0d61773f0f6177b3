import ServantGen.Render.Template

/-!
# Planning and rendering files

The files of a template set are planned in the order of the templates and their scopes. Every
planned file is rendered by itself. A path that is planned twice belongs to the first file;
the later ones fail.
-/

namespace ServantGen

structure RenderOptions where
  /-- Render files that only serve to build the code. -/
  supportingFiles : Bool := true
  /-- Render files at the same time. The result is the same. -/
  parallel : Bool := false
  deriving DecidableEq, Repr

structure PlannedFile where
  template : Template
  scope : RenderScope
  path : String

structure RenderedFile where
  path : String
  template : String
  result : Except RenderError Rendered

def Template.plan (template : Template) (context : RenderContext) : List PlannedFile :=
  (template.scopes context).map fun scope => ⟨template, scope, template.path context scope⟩

def plan (templates : List Template) (context : RenderContext) (options : RenderOptions) :
    List PlannedFile :=
  (templates.filter fun template => options.supportingFiles || !template.isSupporting).flatMap
    fun template => template.plan context

def PlannedFile.render (context : RenderContext) (file : PlannedFile) : RenderedFile :=
  ⟨file.path, file.template.name, file.template.render context file.scope⟩

/-- Let each path belong to the first file that has it. -/
def settlePaths : Entries String → List RenderedFile → List RenderedFile
  | _, [] => []
  | owners, file :: rest =>
    match owners.get? file.path with
    | some owner =>
      let message := "path '" ++ file.path ++ "' is already produced by '" ++ owner ++ "'"
      { file with result := .error (.template file.template message) } :: settlePaths owners rest
    | none => file :: settlePaths (owners ++ [(file.path, file.template)]) rest

def renderAll (templates : List Template) (context : RenderContext) (options : RenderOptions) :
    List RenderedFile :=
  settlePaths [] ((plan templates context options).map (·.render context))

end ServantGen
