import ServantGen.Text.Words

/-!
# Naming conventions

How a language writes identifiers: a casing for each role an identifier plays, what goes in
front of a leading digit, which words are taken and how a taken word is told from an
identifier.
-/

namespace ServantGen

/-- What an identifier stands for in generated code. -/
inductive Role where
  | type
  | field
  | function
  | parameter
  | variant
  | module
  deriving DecidableEq, Repr, Inhabited

/-- The name in place of one without any letter or digit. -/
def unnamed : String := "unnamed"

/-- The identifiers of a language. -/
structure Convention where
  typeCase : String → String
  /-- Fields, functions and parameters. -/
  valueCase : String → String
  variantCase : String → String
  moduleCase : String → String
  /-- What goes in front of an identifier that would start with a digit. -/
  digitLead : Role → String
  /-- The words of the language. -/
  keywords : List String
  /-- An identifier in place of a word that is taken. -/
  escape : String → String

namespace Convention

def casing (convention : Convention) : Role → String → String
  | .type => convention.typeCase
  | .field | .function | .parameter => convention.valueCase
  | .variant => convention.variantCase
  | .module => convention.moduleCase

/-- Whether a name is a word of the language. -/
def isKeyword (convention : Convention) (name : String) : Bool :=
  convention.keywords.contains name

/-- The name, or its escape when it is a word of the language. -/
def avoidKeyword (convention : Convention) (name : String) : String :=
  if convention.isKeyword name then convention.escape name else name

/-- The cased name, or the cased `unnamed` when nothing of the name is left. -/
def cased (convention : Convention) (role : Role) (raw : String) : String :=
  let name := convention.casing role raw
  if name = "" then convention.casing role unnamed else name

/-- The identifier for a raw name in a role, which may still be a taken word. -/
def base (convention : Convention) (role : Role) (raw : String) : String :=
  let name := convention.cased role raw
  if name.toList.head?.any Char.isDigit then convention.digitLead role ++ name else name

/-- The identifier for a raw name in a role, never a word of the language as it stands. -/
def identifier (convention : Convention) (role : Role) (raw : String) : String :=
  convention.avoidKeyword (convention.base role raw)

end Convention

end ServantGen
