import ServantGen.Haskell.ApiModule
import ServantGen.Haskell.Declaration

/-!
# The module of types

One declaration for each model and each enumeration inside a type. Constructors share one
scope, which holds all type names from the start; fields and helper functions share another.
-/

namespace ServantGen.Haskell

/-- The names of the module that are handed out while declarations are made. -/
structure ModuleNames where
  constructors : NameScope
  values : NameScope
  notes : List RenderNote

/-- Computations that hand out names. -/
abbrev NamesM := StateM ModuleNames

/-- Note a collision, and answer the name. -/
def nameOf (identifier : Identifier) : NamesM String := do
  modify fun names =>
    { names with notes := names.notes ++ (identifier.collision.map RenderNote.renamed).toList }
  return identifier.name

/-- Claim the name of a field or a helper function. -/
def valueName (context : RenderContext) (raw preferred : String) : NamesM String := do
  let names ← get
  let reserved := context.target.convention.keywords ++ generatedNames
  let (identifier, values) := names.values.claimFresh reserved raw preferred
  set { names with values }
  nameOf identifier

def constructorName (raw preferred : String) : NamesM String := do
  let names ← get
  let (identifier, constructors) := names.constructors.claimFresh [] raw preferred
  set { names with constructors }
  nameOf identifier

def selectorsOf (context : RenderContext) (name : String) (fields : List Field) :
    NamesM (List Selector) :=
  fields.mapM fun field => do
    let selector ← valueName context (name ++ "." ++ field.rawName)
      (lowerFirst name ++ Text.Casing.pascal.apply field.name)
    return ⟨selector, field.rawName, field.type, field.description⟩

def recordBody (context : RenderContext) (name : String) (fields : List Field) :
    NamesM DeclarationBody := do
  if fields.isEmpty then return .unit
  else
    let selectors ← selectorsOf context name fields
    let options ← valueName context (name ++ "#options") (lowerFirst name ++ "JsonOptions")
    let label ← valueName context (name ++ "#label") (lowerFirst name ++ "JsonField")
    return .record selectors options label

/-- The declaration of an enumeration; without values it is a name for text. -/
def enumBody (context : RenderContext) (name title : String) (values : List String) :
    NamesM DeclarationBody := do
  if values.isEmpty then return .newtype .string
  else
    let constructors ← values.mapM fun value => do
      let variant := context.target.convention.base .variant value
      let constructor ← constructorName (name ++ "." ++ value) (name ++ variant)
      return (constructor, value)
    return .enum title constructors

/-- The declaration of a union; without variants it is a name for any value. -/
def unionBody (name : String) (variants : List String) (discriminator : Option Discriminator) :
    NamesM DeclarationBody := do
  if variants.isEmpty then return .newtype .any
  else
    let constructors ← variants.mapM fun variant => do
      let constructor ← constructorName (name ++ "." ++ variant) (name ++ variant)
      return (constructor, variant)
    return .union constructors discriminator

def modelDeclaration (context : RenderContext) (model : Model) : NamesM Declaration := do
  let body ← match model.shape with
    | .record fields => recordBody context model.name fields
    | .enum values => enumBody context model.name model.rawName values
    | .union variants => unionBody model.name variants model.discriminator
    | .alias type => pure (.newtype type)
  return ⟨model.name, model.description, body⟩

/-- The declaration of an enumeration inside a type. -/
def inlineDeclaration (context : RenderContext) (inline : InlineEnum) : NamesM Declaration := do
  let body ← enumBody context inline.name inline.name inline.values
  return ⟨inline.name, none, body⟩

/-- The declarations of all models, then of all enumerations inside types. -/
def declarations (context : RenderContext) : NamesM (List Declaration) := do
  let models ← context.api.models.models.mapM (modelDeclaration context)
  let inlines ← context.api.inlineEnums.mapM (inlineDeclaration context)
  return models ++ inlines

/-- The references of a model, each with the place it is made from. -/
def placedReferences (model : Model) : List (String × String) :=
  match model.shape with
  | .record fields => fields.flatMap fun field =>
      field.type.models.map fun name => (name, model.name ++ "." ++ field.rawName)
  | .union variants => variants.map fun name => (name, model.name)
  | .alias type => type.models.map fun name => (name, model.name)
  | .enum _ => []

def checkModels (context : RenderContext) : Except RenderError Unit :=
  (context.api.models.models.flatMap placedReferences).forM fun (name, place) => do
    let _ ← context.resolveModel name place
    return ()

structure TypesModule where
  /-- The module under which it stands. -/
  module : String
  declarations : List Declaration
  notes : List RenderNote

/-- The module of the types of an interface; an error when a model refers to one that does
not exist. -/
def typesModule (context : RenderContext) : Except RenderError TypesModule := do
  checkModels context
  let (declared, names) :=
    (declarations context).run ⟨scopeOf (typeNames context), .empty, []⟩
  return ⟨moduleName context, declared, names.notes⟩

namespace TypesModule

def imports (types : TypesModule) : List Import :=
  [⟨"Data.Aeson", "FromJSON (..)"⟩, ⟨"Data.Aeson", "ToJSON (..)"⟩, ⟨"GHC.Generics", "Generic"⟩] ++
    types.declarations.flatMap fun declaration => declaration.body.imports

def exports (types : TypesModule) : List String :=
  types.declarations.map fun declaration => declaration.name ++ " (..)"

def code (context : RenderContext) (types : TypesModule) : Code :=
  let head := Code.empty
    |>.lines (["DeriveGeneric", "OverloadedStrings"].map pragma)
    |>.blank
    |>.lines (headerComment context "Types")
    |>.line ("module " ++ types.module ++ ".Types")
    |> writeExports types.exports
    |>.lines (importLines types.imports)
    |>.line "import qualified Data.Aeson as Aeson"
  types.declarations.foldl (fun code declaration => declaration.write code.blank) head

end TypesModule

/-- The module of types as a template; nothing is written when there are no types. -/
def typesTemplate : Template :=
  wholeApi "Types.hs" false (fun context => "lib/" ++ moduleName context ++ "/Types.hs")
    fun context => do
      if hasTypes context then
        let types ← typesModule context
        return .file ((types.code context).text indentStep) types.notes
      else return .elided

def templates : List Template :=
  [apiTemplate, typesTemplate, packageTemplate, stackTemplate, setupTemplate]

end ServantGen.Haskell
