import ServantGen.Api.Basic
import ServantGen.Naming.Scope
import ServantGen.Target

/-!
# Templates

A template is a value: a name, the scopes it makes files for, and for each scope a path and a
content. Everything a template may look at is the interface and the target.
-/

namespace ServantGen

structure RenderContext where
  api : Api
  target : Target

/-- What one file is made for. -/
inductive RenderScope where
  /-- The whole interface. -/
  | api
  /-- The operations of a tag. -/
  | tag (name : String)
  /-- One model. -/
  | model (name : String)
  deriving DecidableEq, Repr

/-- What a template had to make up for. -/
inductive RenderNote where
  /-- An identifier was renamed to keep it unique. -/
  | renamed (collision : Collision)
  /-- A type was replaced by text. -/
  | fallback (message : String)
  deriving DecidableEq, Repr

def RenderNote.message : RenderNote → String
  | .renamed collision => collision.message
  | .fallback message => message

/-- Why a file could not be made. -/
inductive RenderError where
  | missingModel (name context : String)
  | template (name message : String)
  deriving DecidableEq, Repr

def RenderError.message : RenderError → String
  | .missingModel name context =>
    "model '" ++ name ++ "' referenced from " ++ context ++ " does not exist"
  | .template name message => "template '" ++ name ++ "' failed: " ++ message

/-- The outcome of a template for a scope. -/
inductive Rendered where
  /-- A content with notes. -/
  | file (content : String) (notes : List RenderNote)
  /-- There is nothing to write. -/
  | elided
  deriving DecidableEq, Repr

structure Template where
  name : String
  /-- Whether the files only serve to build the code. -/
  isSupporting : Bool
  /-- The scopes in the order of the files. -/
  scopes : RenderContext → List RenderScope
  /-- The path of a file, with slashes between its parts. -/
  path : RenderContext → RenderScope → String
  render : RenderContext → RenderScope → Except RenderError Rendered

namespace RenderContext

def tagGroup? (context : RenderContext) (tag : String) : Option TagGroup :=
  context.api.tagGroups.find? (·.tag == tag)

/-- The model of a name, or an error that says where it was referred to. -/
def resolveModel (context : RenderContext) (name referrer : String) : Except RenderError Model :=
  match context.api.models.get? name with
  | some model => .ok model
  | none => .error (.missingModel name referrer)

/-- The package name of an interface whose title has no word. -/
def fallbackPackage : String := "api"

/-- The name of the package: as set for the target, or the words of the title. -/
def packageName (context : RenderContext) : String :=
  match context.target.package with
  | some package => package
  | none =>
    let name := Text.Casing.kebab.apply context.api.info.title
    if name = "" then fallbackPackage else name

end RenderContext

end ServantGen
