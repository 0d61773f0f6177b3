import ServantGen.Target
import ServantGen.Text.Blank
import ServantGen.Text.Numeral

/-!
# Lexical rules of Haskell

String literals, text inside comments, keywords and the identifiers of the generated
modules.
-/

namespace ServantGen.Haskell

/-! ## String literals -/

/-- A character that a literal holds as it is. -/
def isPlain (c : Char) : Bool :=
  ' ' ≤ c && c ≤ '~' && c ≠ '"' && c ≠ '\\'

/-- A character that is written by its number. -/
def isNumbered (c : Char) : Bool :=
  !isPlain c && c ≠ '"' && c ≠ '\\' && c ≠ '\n' && c ≠ '\t' && c ≠ '\r'

/-- A character inside a literal: as it is, by a named escape or by its number. -/
def escapeChar (c : Char) : List Char :=
  match c with
  | '"' => ['\\', '"']
  | '\\' => ['\\', '\\']
  | '\n' => ['\\', 'n']
  | '\t' => ['\\', 't']
  | '\r' => ['\\', 'r']
  | c => if isPlain c then [c] else '\\' :: Nat.toDigits 10 c.toNat

/-- The inside of a literal; a numbered character that stands before a digit is closed by an
empty escape, so that the digit does not join the number. -/
def literalBody : List Char → List Char
  | [] => []
  | [c] => escapeChar c
  | c :: d :: rest =>
    let closing := if isNumbered c && d.isDigit then ['\\', '&'] else []
    escapeChar c ++ closing ++ literalBody (d :: rest)

/-- A string literal, which is also a literal at the level of types. -/
def literal (text : String) : String :=
  String.ofList ('"' :: literalBody text.toList ++ ['"'])

/-! ## Comments -/

/-- Put a blank between `left` and `right` wherever they are neighbours. -/
def part (left right : Char) : List Char → List Char
  | c :: d :: rest =>
    if c = left ∧ d = right then c :: ' ' :: part left right (d :: rest)
    else c :: part left right (d :: rest)
  | text => text

/-- Text on one line that neither opens nor closes a block comment. -/
def commentText (text : String) : String :=
  let line := [' '].intercalate (Text.wordsOf text.toList)
  String.ofList (part '-' '}' (part '{' '-' line))

/-! ## Identifiers -/

/-- The words of the language and of its common extensions. -/
def keywords : List String :=
  ["as", "case", "class", "data", "default", "deriving", "do", "else", "family", "forall",
   "foreign", "hiding", "if", "import", "in", "infix", "infixl", "infixr", "instance", "let",
   "mdo", "module", "newtype", "of", "pattern", "proc", "qualified", "rec", "then", "type",
   "where"]

/-- Names that the generated modules define or use without qualification. -/
def generatedNames : List String :=
  ["api", "emptyServer", "serverFromBackend", "API", "Bool", "Day", "Double", "Float", "Generic",
   "Handler", "Int", "Integer", "Map", "Maybe", "NoContent", "Proxy", "Server", "String", "Text",
   "UTCTime", "UUID", "Value"]

/-- What goes in front of a leading digit: a letter of the case that the role asks for. -/
def digitLead : Role → String
  | .type | .variant | .module => "N"
  | .field | .function | .parameter => "n"

def convention : Convention where
  typeCase := Text.Casing.pascal.apply
  valueCase := Text.Casing.camel.apply
  variantCase := Text.Casing.pascal.apply
  moduleCase := Text.Casing.pascal.apply
  digitLead := digitLead
  keywords := keywords
  escape := fun name => name ++ "_"

def lowerFirst (name : String) : String :=
  match name.toList with
  | [] => ""
  | c :: rest => String.ofList (c.toLower :: rest)

/-- The target with nothing set by the user. -/
def target : Target where
  name := "haskell-servant"
  convention := convention
  reservedWords := generatedNames
  delimiter := .braces
  rootMarker := ""
  package := none

end ServantGen.Haskell
