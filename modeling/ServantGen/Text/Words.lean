/-!
# Words of a name, and the four ways to write them

A name is cut into words of ASCII letters and digits; every other character separates.
Inside a run of letters and digits a word starts at a capital that follows a small letter
or a digit (`myModel`, `v2Api`), and at the last capital of a row of capitals when a small
letter follows it (`HTTPServer` is `HTTP`, `Server`). Whether two neighbours belong to one
word is decided by the two and the character after them.
-/

namespace ServantGen.Text

/-- A word starts at `here` when `before` precedes it in the same run and `after` is the
next character of the name. -/
def startsWord (before here : Char) (after : Option Char) : Bool :=
  here.isUpper &&
    (before.isLower || before.isDigit || (before.isUpper && after.any Char.isLower))

/-- Put a character in front of the first word. -/
def attach (c : Char) : List (List Char) → List (List Char)
  | [] => [[c]]
  | word :: words => (c :: word) :: words

def wordChars : List Char → List (List Char)
  | [] => []
  | [c] => if c.isAlphanum then [[c]] else []
  | c :: d :: rest =>
    if c.isAlphanum then
      if d.isAlphanum && !startsWord c d rest.head? then attach c (wordChars (d :: rest))
      else [c] :: wordChars (d :: rest)
    else wordChars (d :: rest)

def words (name : String) : List String :=
  (wordChars name.toList).map String.ofList

/-- A word with a capital first letter and small letters after it. -/
def capitalized : List Char → List Char
  | [] => []
  | c :: rest => c.toUpper :: rest.map Char.toLower

/-- How the words of a name are written as one. -/
inductive Casing where
  /-- Each word starts with a capital: `HelloWorld`. -/
  | pascal
  /-- Each word but the first starts with a capital: `helloWorld`. -/
  | camel
  /-- Small words with underscores between them: `hello_world`. -/
  | snake
  /-- Small words with hyphens between them: `hello-world`. -/
  | kebab
  deriving DecidableEq, Repr, Inhabited

namespace Casing

/-- Small words with one character between neighbours. -/
def joined (mark : Char) (words : List (List Char)) : List Char :=
  [mark].intercalate (words.map (·.map Char.toLower))

def write : Casing → List (List Char) → List Char
  | .pascal, words => (words.map capitalized).flatten
  | .camel, [] => []
  | .camel, first :: rest => first.map Char.toLower ++ (rest.map capitalized).flatten
  | .snake, words => joined '_' words
  | .kebab, words => joined '-' words

def apply (casing : Casing) (name : String) : String :=
  String.ofList (casing.write (wordChars name.toList))

end Casing

end ServantGen.Text
