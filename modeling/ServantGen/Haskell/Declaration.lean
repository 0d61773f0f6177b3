import ServantGen.Code
import ServantGen.Haskell.Lexical
import ServantGen.Haskell.TypeText
import ServantGen.Model

/-!
# Declarations of types

A declaration is one type of the generated code with its instances: how its values are read
from JSON and written to it and, for enumerations and names of scalars, how they travel in
URLs. Writing a declaration leaves the code at the level at which it found it.
-/

namespace ServantGen.Haskell

/-- A field of a record: its selector in the code and its property in JSON. -/
structure Selector where
  name : String
  property : String
  type : DataType
  description : Option String
  deriving DecidableEq, Repr

inductive DeclarationBody where
  /-- A record without fields. -/
  | unit
  /-- A record, with the names of its JSON options and of its label function. -/
  | record (selectors : List Selector) (options label : String)
  /-- An enumeration with its name in error messages: constructors and their texts. -/
  | enum (title : String) (constructors : List (String × String))
  /-- A union: constructors and the models they wrap. -/
  | union (constructors : List (String × String)) (discriminator : Option Discriminator)
  /-- A name for another type. -/
  | newtype (type : DataType)
  deriving DecidableEq, Repr

/-- A type of the generated code. -/
structure Declaration where
  name : String
  description : Option String
  body : DeclarationBody
  deriving DecidableEq, Repr

/-- Whether values of a wrapped type can be written into a URL. -/
def isScalar : DataType → Bool
  | .primitive kind => kind != .any
  | .enum .. => true
  | _ => false

def urlImports : List Import :=
  [⟨"Web.HttpApiData", "FromHttpApiData (..)"⟩, ⟨"Web.HttpApiData", "ToHttpApiData (..)"⟩]

/-- The imports that a declaration needs besides those of every one. -/
def DeclarationBody.imports : DeclarationBody → List Import
  | .unit => []
  | .record selectors _ _ => selectors.flatMap fun selector => typeImports selector.type
  | .enum .. => urlImports
  | .union _ (some _) => [⟨"Data.Text", "Text"⟩]
  | .union _ none => [⟨"Control.Applicative", "(<|>)"⟩]
  | .newtype type => typeImports type ++ if isScalar type then urlImports else []

/-! ## Writing declarations -/

def instanceHead (className name : String) : String :=
  "instance " ++ className ++ " " ++ name ++ " where"

def writeInstance (className name line : String) (code : Code) : Code :=
  code.line (instanceHead className name)
    |>.indent
    |>.line line
    |>.dedent

def writeUnit (name : String) (code : Code) : Code :=
  code.line ("data " ++ name ++ " = " ++ name)
    |>.indent
    |>.line "deriving (Show, Eq, Generic)"
    |>.dedent
    |>.blank
    |> writeInstance "FromJSON" name
        ("parseJSON = Aeson.withObject " ++ literal name ++ " (\\_ -> pure " ++ name ++ ")")
    |>.blank
    |> writeInstance "ToJSON" name "toJSON _ = Aeson.object []"

/-- One field of a record, with its description below it. -/
def writeSelector (lead : String) (code : Code) (selector : Selector) : Code :=
  let code := code.line (lead ++ " " ++ selector.name ++ " :: " ++ typeText selector.type)
  match selector.description with
  | some description => code.indent |>.comment "-- ^" "--" description |>.dedent
  | none => code

def writeSelectors (selectors : List Selector) (code : Code) : Code :=
  match selectors with
  | [] => code
  | first :: rest => rest.foldl (writeSelector ",") (writeSelector "\x7b" code first)

/-- The alternatives of a case expression from texts to texts. -/
def labelLines (pairs : List (String × String)) : List String :=
  pairs.map fun (left, right) => literal left ++ " -> " ++ literal right

def writeRecord (name : String) (selectors : List Selector) (options label : String)
    (code : Code) : Code :=
  code.line ("data " ++ name ++ " = " ++ name)
    |>.indent
    |> writeSelectors selectors
    |>.line "\x7d"
    |>.line "deriving (Show, Eq, Generic)"
    |>.dedent
    |>.blank
    |> writeInstance "FromJSON" name ("parseJSON = Aeson.genericParseJSON " ++ options)
    |>.blank
    |> writeInstance "ToJSON" name ("toJSON = Aeson.genericToJSON " ++ options)
    |>.blank
    |>.line (options ++ " :: Aeson.Options")
    |>.line (options ++ " =")
    |>.indent
    |>.line "Aeson.defaultOptions"
    |>.indent
    |>.line ("\x7b Aeson.fieldLabelModifier = " ++ label)
    |>.line ", Aeson.omitNothingFields = True"
    |>.line "\x7d"
    |>.dedent
    |>.dedent
    |>.blank
    |>.line (label ++ " :: String -> String")
    |>.line (label ++ " label = case label of")
    |>.indent
    |>.lines (labelLines (selectors.map fun selector => (selector.name, selector.property)))
    |>.line "other -> other"
    |>.dedent

def constructorLines : List String → List String
  | [] => []
  | first :: rest => ("= " ++ first) :: rest.map ("| " ++ ·)

def writeCaseInstance (className name head : String) (alternatives : List String) (code : Code) :
    Code :=
  code.line (instanceHead className name)
    |>.indent
    |>.line head
    |>.indent
    |>.lines alternatives
    |>.dedent
    |>.dedent

def writeEnum (name title : String) (constructors : List (String × String)) (code : Code) : Code :=
  let title := literal title
  code.line ("data " ++ name)
    |>.indent
    |>.lines (constructorLines (constructors.map Prod.fst))
    |>.line "deriving (Show, Eq, Ord, Enum, Bounded, Generic)"
    |>.dedent
    |>.blank
    |> writeCaseInstance "ToHttpApiData" name "toUrlPiece value = case value of"
        (constructors.map fun (constructor, value) => constructor ++ " -> " ++ literal value)
    |>.blank
    |> writeCaseInstance "FromHttpApiData" name "parseUrlPiece text = case text of"
        ((constructors.map fun (constructor, value) =>
            literal value ++ " -> Right " ++ constructor) ++
          ["other -> Left (\"unknown \" <> " ++ title ++ " <> \": \" <> other)"])
    |>.blank
    |> writeInstance "ToJSON" name "toJSON = Aeson.String . toUrlPiece"
    |>.blank
    |> writeInstance "FromJSON" name
        ("parseJSON = Aeson.withText " ++ title ++ " (either (fail . show) pure . parseUrlPiece)")

/-- The alternatives by tag: each tag whose model is wrapped by a constructor. -/
def tagLines (constructors : List (String × String)) (mapping : List (String × String)) :
    List String :=
  mapping.filterMap fun (tag, model) =>
    (constructors.find? fun (_, variant) => variant == model).map fun (constructor, _) =>
      literal tag ++ " -> " ++ constructor ++ " <$> parseJSON (Aeson.Object object)"

/-- The reading of a union: by its tag, or by trying one variant after the other. -/
def writeUnionReader (name : String) (constructors : List (String × String))
    (discriminator : Option Discriminator) (code : Code) : Code :=
  match discriminator with
  | some discriminator =>
    code.line ("parseJSON = Aeson.withObject " ++ literal name ++ " $ \\object -> do")
      |>.indent
      |>.line ("tag <- object Aeson..: " ++ literal discriminator.property)
      |>.line "case (tag :: Text) of"
      |>.indent
      |>.lines (tagLines constructors discriminator.mapping)
      |>.line ("other -> fail (\"unknown " ++ name ++ " tag: \" <> show other)")
      |>.dedent
      |>.dedent
  | none =>
    let attempts := constructors.map fun (constructor, _) =>
      "(" ++ constructor ++ " <$> parseJSON json)"
    let lines := match attempts with
      | [] => []
      | first :: rest => first :: rest.map ("  <|> " ++ ·)
    code.line "parseJSON json ="
      |>.indent
      |>.lines lines
      |>.dedent

def writeUnion (name : String) (constructors : List (String × String))
    (discriminator : Option Discriminator) (code : Code) : Code :=
  code.line ("data " ++ name)
    |>.indent
    |>.lines (constructorLines (constructors.map fun (constructor, variant) =>
        constructor ++ " " ++ variant))
    |>.line "deriving (Show, Eq, Generic)"
    |>.dedent
    |>.blank
    |> writeCaseInstance "ToJSON" name "toJSON value = case value of"
        (constructors.map fun (constructor, _) => constructor ++ " inner -> toJSON inner")
    |>.blank
    |>.line (instanceHead "FromJSON" name)
    |>.indent
    |> writeUnionReader name constructors discriminator
    |>.dedent

def writeNewtype (name : String) (type : DataType) (code : Code) : Code :=
  let code := code.line ("newtype " ++ name ++ " = " ++ name ++ " " ++ atomText type)
    |>.indent
    |>.line "deriving (Show, Eq, Generic)"
    |>.dedent
    |>.blank
    |> writeInstance "FromJSON" name ("parseJSON json = " ++ name ++ " <$> parseJSON json")
    |>.blank
    |> writeInstance "ToJSON" name ("toJSON (" ++ name ++ " inner) = toJSON inner")
  if isScalar type then
    code.blank
      |> writeInstance "FromHttpApiData" name
          ("parseUrlPiece piece = " ++ name ++ " <$> parseUrlPiece piece")
      |>.blank
      |> writeInstance "ToHttpApiData" name ("toUrlPiece (" ++ name ++ " inner) = toUrlPiece inner")
  else code

def Declaration.write (declaration : Declaration) (code : Code) : Code :=
  let name := declaration.name
  let code := match declaration.description with
    | some description => code.comment "-- |" "--" description
    | none => code
  match declaration.body with
  | .unit => writeUnit name code
  | .record selectors options label => writeRecord name selectors options label code
  | .enum title constructors => writeEnum name title constructors code
  | .union constructors discriminator => writeUnion name constructors discriminator code
  | .newtype type => writeNewtype name type code

end ServantGen.Haskell
