import ServantGen.Text.Split

/-!
# Blank characters

The characters with the Unicode property `White_Space`, and the three things done with
them: trimming a text, cutting it into words, and asking whether it says anything.
-/

namespace ServantGen.Text

/-- Ranges of code points with the property `White_Space`, in increasing order. -/
def blankRanges : List (Nat × Nat) :=
  [(0x09, 0x0D), (0x20, 0x20), (0x85, 0x85), (0xA0, 0xA0), (0x1680, 0x1680),
   (0x2000, 0x200A), (0x2028, 0x2029), (0x202F, 0x202F), (0x205F, 0x205F), (0x3000, 0x3000)]

def isBlank (c : Char) : Bool :=
  blankRanges.any fun (low, high) => low ≤ c.toNat && c.toNat ≤ high

/-- Every blank of ASCII programming languages is blank here. -/
theorem isBlank_of_isWhitespace (c : Char) (h : c.isWhitespace = true) : isBlank c = true := by
  simp only [Char.isWhitespace, Bool.or_eq_true, decide_eq_true_eq] at h
  rcases h with ((rfl | rfl) | rfl) | rfl <;> decide

def trim (text : String) : String :=
  String.ofList (trimBy isBlank text.toList)

def trimEnd (text : String) : String :=
  String.ofList (trimEndBy isBlank text.toList)

/-- The maximal runs of characters that are not blank. -/
def wordsOf (text : List Char) : List (List Char) :=
  (splitBy isBlank text).filter (!·.isEmpty)

def saysNothing (text : String) : Bool :=
  text.toList.all isBlank

end ServantGen.Text
