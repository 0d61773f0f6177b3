import ServantGen.Code
import ServantGen.Haskell.Lexical
import ServantGen.Render.Template

/-!
# The package around the generated modules

The package description and the files that build it.
-/

namespace ServantGen.Haskell

def moduleName (context : RenderContext) : String :=
  context.target.convention.base .module context.packageName

def hasTypes (context : RenderContext) : Bool :=
  !context.api.models.models.isEmpty || !context.api.inlineEnums.isEmpty

def headerComment (context : RenderContext) (what : String) : List String :=
  let info := context.api.info
  ["-- | " ++ what ++ " for " ++ commentText info.title ++ " (version " ++
      commentText info.version ++ ").",
   "--",
   "-- Generated by apigen. Do not edit."]

/-! ## The package description -/

/-- A component of a package name with a letter in it. -/
def packageComponent (part : List Char) : List Char :=
  if part.all Char.isDigit then 'v' :: part else part

/-- A package name that the build tool accepts: letters and digits in components with a
hyphen between them, each with a letter. -/
def packageName (name : String) : String :=
  let parts := (Text.splitBy (fun c => !c.isAlphanum) name.toList).filter (!·.isEmpty)
  if parts.isEmpty then "api"
  else String.ofList (['-'].intercalate (parts.map packageComponent))

/-- The version when the document has none that is a number. -/
def defaultVersion : String := "0.1.0"

/-- The dotted number at the start of a version, after a letter `v`. -/
def packageVersion (version : String) : String :=
  let start := (Text.trimBy Text.isBlank version.toList).dropWhile fun c => c == 'v' || c == 'V'
  let numeric := start.takeWhile fun c => c.isDigit || c == '.'
  let parts := (Text.splitBy (· == '.') numeric).filter (!·.isEmpty)
  if parts.isEmpty then defaultVersion else String.ofList (['.'].intercalate parts)

/-- The libraries that the generated modules need. -/
def dependencies : List String :=
  ["aeson", "base >=4.14 && <5", "containers", "http-api-data", "servant", "servant-server",
   "text", "time", "uuid"]

def packageDescription (context : RenderContext) : Code :=
  let module := moduleName context
  Code.empty
    |>.line "cabal-version:      2.4"
    |>.line ("name:               " ++ packageName context.packageName)
    |>.line ("version:            " ++ packageVersion context.api.info.version)
    |>.line ("synopsis:           Servant API for " ++ commentText context.api.info.title)
    |>.line "build-type:         Simple"
    |>.blank
    |>.line "library"
    |>.indent
    |>.line "hs-source-dirs:   lib"
    |>.line "exposed-modules:"
    |>.indent
    |>.line (module ++ ".API")
    |>.lines (if hasTypes context then [module ++ ".Types"] else [])
    |>.dedent
    |>.line "build-depends:"
    |>.indent
    |>.lines (dependencies.map (", " ++ ·))
    |>.dedent
    |>.line "default-language: Haskell2010"
    |>.line "ghc-options:      -Wall"

/-! ## Templates -/

def indentStep : Indent := .spaces 2

/-- A template with one file for the whole interface. -/
def wholeApi (name : String) (isSupporting : Bool) (path : RenderContext → String)
    (render : RenderContext → Except RenderError Rendered) : Template where
  name := name
  isSupporting := isSupporting
  scopes := fun _ => [.api]
  path := fun context _ => path context
  render := fun context _ => render context

def packageTemplate : Template :=
  wholeApi "package.cabal" true (fun context => packageName context.packageName ++ ".cabal")
    fun context => .ok (.file ((packageDescription context).text indentStep) [])

/-- The snapshot of packages that the package is built with. -/
def resolver : String := "lts-22.43"

/-- The configuration of the build tool. -/
def stackTemplate : Template :=
  wholeApi "stack.yaml" true (fun _ => "stack.yaml") fun _ =>
    let code := Code.empty
      |>.line ("resolver: " ++ resolver)
      |>.line "packages:"
      |>.indent
      |>.line "- ."
    .ok (.file (code.text indentStep) [])

def setupTemplate : Template :=
  wholeApi "Setup.hs" true (fun _ => "Setup.hs") fun _ =>
    .ok (.file "import Distribution.Simple\n\nmain :: IO ()\nmain = defaultMain\n" [])

end ServantGen.Haskell
