/-!
# The characters of a YAML text and where they stand

The layout of a text carries meaning, so every character is kept together with its place.
All line ends that count as one are unified first: a carriage return, a line feed, the two
together and the next-line character become a line feed; the two separators of Unicode keep
their identity.
-/

namespace ServantGen.Yaml

/-- Why a text does not stand for one JSON tree. -/
inductive Fault where
  /-- A character that no text may hold, or that cannot start anything. -/
  | character
  /-- A tab where only blanks may indent. -/
  | tab
  | openQuote
  | escape
  /-- The line of a block scalar's marks has something else on it. -/
  | blockHeader
  | anchor
  | tag
  | directive
  /-- A key that needs a colon, or a mark where none is allowed. -/
  | key
  /-- Tokens that do not follow each other. -/
  | order
  | unknownAnchor
  | manyDocuments
  | tooDeep
  | tooManyAliases
  /-- A value that does not match its tag, or that JSON cannot hold. -/
  | value
  deriving DecidableEq, Repr

/-- A character and its place: how many bytes are before it, its line and its column. Columns
count characters. -/
structure Spot where
  char : Char
  index : Nat
  line : Nat
  column : Nat
  deriving DecidableEq, Repr

/-- A text as located characters. -/
abbrev Spots := List Spot

/-! ## Classes of characters -/

/-- Whether a text may hold a character. -/
def isAllowed (c : Char) : Bool :=
  c == '\t' || c == '\n' || c == '\r' || (' ' ≤ c && c ≤ '~') || c == '\u0085' ||
    (c.toNat ≥ 0xA0 && c.toNat ≠ 0xFFFE && c.toNat ≠ 0xFFFF)

/-- Whether a character ends a line. -/
def isBreak (c : Char) : Bool :=
  c == '\n' || c == '\r' || c == '\u0085' || c == '\u2028' || c == '\u2029'

/-- Whether a character separates on a line. -/
def isBlank (c : Char) : Bool :=
  c == ' ' || c == '\t'

/-- Whether a character belongs to a name of an anchor, a tag or a directive. -/
def isNameChar (c : Char) : Bool :=
  c.isAlphanum || c == '_' || c == '-'

def hexDigit? (c : Char) : Option Nat :=
  if c.isDigit then some (c.toNat - '0'.toNat)
  else if 'a' ≤ c && c ≤ 'f' then some (c.toNat - 'a'.toNat + 10)
  else if 'A' ≤ c && c ≤ 'F' then some (c.toNat - 'A'.toNat + 10)
  else none

/-! ## Locating -/

/-- One character for all line ends that count as a line feed. -/
def unified (c : Char) : Char :=
  if c == '\r' || c == '\u0085' then '\n' else c

/-- The located characters of a text that starts at a place. -/
def locateFrom (index line column : Nat) : List Char → Spots
  | [] => []
  | '\r' :: '\n' :: rest => ⟨'\n', index, line, column⟩ :: locateFrom (index + 2) (line + 1) 0 rest
  | c :: rest =>
    let after := index + c.utf8Size
    if isBreak c then ⟨unified c, index, line, column⟩ :: locateFrom after (line + 1) 0 rest
    else ⟨c, index, line, column⟩ :: locateFrom after line (column + 1) rest

def locate (text : List Char) : Spots :=
  locateFrom 0 0 0 text

/-- The byte order mark. At the start of a line it takes a column and says nothing. -/
def byteOrderMark : Char := '\uFEFF'

/-! ## Looking ahead -/

def peek? (input : Spots) : Option Char :=
  input.head?.map Spot.char

/-- Whether a character is next. -/
def startsWith (c : Char) (input : Spots) : Bool :=
  peek? input == some c

/-- Whether a blank, a line end or the end of the text is next. -/
def atGap (input : Spots) : Bool :=
  (peek? input).all fun c => isBlank c || isBreak c

def atLineEnd (input : Spots) : Bool :=
  (peek? input).all isBreak

/-- Whether one of some characters is next. -/
def startsWithAny (chars : List Char) (input : Spots) : Bool :=
  (peek? input).any chars.contains

/-- Whether three equal marks stand alone at the start of a line. -/
def isMarkLine (mark : Char) : Spots → Bool
  | a :: b :: c :: rest =>
    a.column == 0 && a.char == mark && b.char == mark && c.char == mark && atGap rest
  | _ => false

/-- Whether a document starts or ends here. -/
def atDocumentMark (input : Spots) : Bool :=
  isMarkLine '-' input || isMarkLine '.' input

def skipBlanks (input : Spots) : Spots :=
  input.dropWhile fun spot => isBlank spot.char

/-- The rest of the line after blanks and a comment. -/
def skipComment (input : Spots) : Spots :=
  let rest := skipBlanks input
  if startsWith '#' rest then rest.dropWhile fun spot => !isBreak spot.char else rest

/-- The characters of a name, and the text after them. -/
def takeName (input : Spots) : String × Spots :=
  let isName (spot : Spot) := isNameChar spot.char
  (String.ofList ((input.takeWhile isName).map Spot.char), input.dropWhile isName)

end ServantGen.Yaml
