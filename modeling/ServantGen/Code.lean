import ServantGen.Text.Blank

/-!
# Indented code

Code is collected line by line at a current level of indentation. A line remembers the level
it was written at, so that the layout of the result can be read off the lines; the text of an
indentation step is chosen only when the lines are put together.
-/

namespace ServantGen

inductive Indent where
  | spaces (width : Nat)
  | tab
  deriving DecidableEq, Repr

/-- The text of one step. Widths other than two, four and eight count as four. -/
def Indent.text : Indent → String
  | .spaces 2 => "  "
  | .spaces 8 => "        "
  | .spaces _ => "    "
  | .tab => "\t"

inductive Piece where
  /-- A line that is not empty, at a level. -/
  | line (level : Nat) (text : String)
  | blank
  /-- Text without indentation or line end. -/
  | raw (text : String)
  deriving DecidableEq, Repr

def Piece.text (indent : Indent) : Piece → String
  | .line level text => Text.replicate level indent.text ++ text ++ "\n"
  | .blank => "\n"
  | .raw text => text

structure Code where
  level : Nat
  pieces : List Piece
  deriving DecidableEq, Repr

namespace Code

def empty : Code := ⟨0, []⟩

def add (piece : Piece) (code : Code) : Code :=
  { code with pieces := code.pieces ++ [piece] }

def blank (code : Code) : Code :=
  code.add .blank

/-- Add a line; one without text is an empty line, without indentation. -/
def line (text : String) (code : Code) : Code :=
  if text = "" then code.blank else code.add (.line code.level text)

def raw (text : String) (code : Code) : Code :=
  code.add (.raw text)

def indent (code : Code) : Code :=
  { code with level := code.level + 1 }

/-- Write the next lines one level further out, but never left of the margin. -/
def dedent (code : Code) : Code :=
  { code with level := code.level - 1 }

def lines (texts : List String) (code : Code) : Code :=
  texts.foldl (fun code text => code.line text) code

/-- The line of a comment: its mark, and the text after a blank if there is any. -/
def commentLine (mark : String) (text : List Char) : String :=
  match Text.trimEndBy Text.isBlank text with
  | [] => mark
  | text => mark ++ " " ++ String.ofList text

/-- The lines of a comment: `first` marks the first line and `rest` the others. -/
def commentLines (first rest text : String) : List String :=
  match Text.lines (Text.trimBy Text.isBlank text.toList) with
  | [] => []
  | line :: lines => commentLine first line :: lines.map (commentLine rest)

/-- Add a comment of several lines. -/
def comment (first rest text : String) (code : Code) : Code :=
  code.lines (commentLines first rest text)

def append (other code : Code) : Code :=
  { code with pieces := code.pieces ++ other.pieces }

def text (indent : Indent) (code : Code) : String :=
  String.join (code.pieces.map (Piece.text indent))

@[simp] theorem level_add (piece : Piece) (code : Code) : (code.add piece).level = code.level := rfl

@[simp] theorem level_blank (code : Code) : code.blank.level = code.level := rfl

@[simp] theorem level_line (text : String) (code : Code) : (code.line text).level = code.level := by
  unfold line
  split <;> rfl

@[simp] theorem level_lines (texts : List String) (code : Code) :
    (code.lines texts).level = code.level := by
  induction texts generalizing code with
  | nil => rfl
  | cons text texts ih => exact (ih _).trans (level_line _ _)

@[simp] theorem level_comment (first rest text : String) (code : Code) :
    (code.comment first rest text).level = code.level :=
  level_lines _ _

@[simp] theorem dedent_indent (code : Code) : code.indent.dedent = code := rfl

end Code

end ServantGen
