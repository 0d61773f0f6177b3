/-!
# Cutting text apart and putting it together

All cutting is done on lists of characters, so that each rule is a recursion on the
text; the versions on `String` only convert.
-/

namespace ServantGen.Text

/-- The pieces between the characters that satisfy `isBreak`; there is one piece more
than there are breaks, and pieces may be empty. -/
def splitBy (isBreak : Char → Bool) : List Char → List (List Char)
  | [] => [[]]
  | c :: rest =>
    if isBreak c then [] :: splitBy isBreak rest
    else match splitBy isBreak rest with
      | [] => [[c]]
      | piece :: pieces => (c :: piece) :: pieces

theorem splitBy_ne_nil (isBreak : Char → Bool) (cs : List Char) : splitBy isBreak cs ≠ [] := by
  cases cs with
  | nil => simp [splitBy]
  | cons c rest =>
    rw [splitBy]
    split
    · simp
    · split <;> simp

/-- The pieces of a text between the occurrences of one character. -/
def splitOn (mark : Char) (text : String) : List String :=
  (splitBy (· == mark) text.toList).map String.ofList

/-- The text after the first occurrence of a mark, together with the text before it. -/
def cutAt (mark : Char) : List Char → Option (List Char × List Char)
  | [] => none
  | c :: rest =>
    if c == mark then some ([], rest)
    else (cutAt mark rest).map fun (before, after) => (c :: before, after)

/-- The text that remains when a leading `lead` is taken away. -/
def stripStart? (lead text : List Char) : Option (List Char) :=
  match lead, text with
  | [], text => some text
  | _ :: _, [] => none
  | l :: lead, c :: text => if l == c then stripStart? lead text else none

/-- The text that remains when a trailing `tail` is taken away. -/
def stripEnd? (tail text : List Char) : Option (List Char) :=
  (stripStart? tail.reverse text.reverse).map List.reverse

def occursIn (part : List Char) : List Char → Bool
  | [] => part.isEmpty
  | c :: rest => part.isPrefixOf (c :: rest) || occursIn part rest

/-- The text without the leading and trailing characters that satisfy `drop`. -/
def trimBy (drop : Char → Bool) (text : List Char) : List Char :=
  ((text.dropWhile drop).reverse.dropWhile drop).reverse

/-- The text without the trailing characters that satisfy `drop`. -/
def trimEndBy (drop : Char → Bool) (text : List Char) : List Char :=
  (text.reverse.dropWhile drop).reverse

/-- The lines of a text. A line ends at a line feed, with a carriage return before the
feed counted to the line's end; text that ends with a feed has no further empty line. -/
def lines (text : List Char) : List (List Char) :=
  let pieces := splitBy (· == '\n') text
  let ended := pieces.dropLast.map fun line => (stripEnd? ['\r'] line).getD line
  match pieces.getLast? with
  | none | some [] => ended
  | some last => ended ++ [last]

/-- The texts one after another, with `glue` between neighbours. -/
def join (glue : String) (texts : List String) : String :=
  String.intercalate glue texts

def replicate (count : Nat) (text : String) : String :=
  String.join (List.replicate count text)

end ServantGen.Text
