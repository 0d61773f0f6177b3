/-!
# ASCII letters in Unicode text

Names, keywords and media types are compared without regard to the case of ASCII
letters; every other character stands for itself.
-/

namespace ServantGen.Text

def lower (text : String) : String :=
  String.ofList (text.toList.map Char.toLower)

/-- The text with ASCII small letters written as capitals. -/
def upper (text : String) : String :=
  String.ofList (text.toList.map Char.toUpper)

/-- Two texts that differ at most in the case of ASCII letters. -/
def sameLetters (left right : String) : Bool :=
  left.toList.map Char.toLower == right.toList.map Char.toLower

end ServantGen.Text
