import ServantGen.Code
import ServantGen.Proofs.Text.Characters

/-!
# The lines of written code

Code is put together from pieces, and its readers see lines. Where every piece is one line, the
two agree: cutting the text at line feeds gives back the rows in the order in which they were
written. Writing only ever adds at the end, so the rows written first are the first lines of the
text whatever comes behind them.
-/

namespace ServantGen

open Text (OnOneLine)

/-! ## Pieces -/

namespace Piece

def row (indent : Indent) : Piece → String
  | .line level text => Text.replicate level indent.text ++ text
  | .blank => ""
  | .raw text => text

def IsRow : Piece → Prop
  | .line _ text => OnOneLine text
  | .blank => True
  | .raw _ => False

theorem onOneLine_indent (indent : Indent) : OnOneLine indent.text := by
  unfold Indent.text
  split <;> decide

theorem onOneLine_replicate (level : Nat) (indent : Indent) :
    OnOneLine (Text.replicate level indent.text) := by
  induction level with
  | zero => simp [Text.replicate, Text.MadeOf]
  | succ level ih =>
    rw [Text.replicate, List.replicate_succ, String.join_cons]
    exact Text.madeOf_append.2 ⟨onOneLine_indent indent, ih⟩

theorem IsRow.onOneLine_row {piece : Piece} (h : piece.IsRow) (indent : Indent) :
    OnOneLine (piece.row indent) := by
  cases piece with
  | line level text => exact Text.madeOf_append.2 ⟨onOneLine_replicate level indent, h⟩
  | blank => simp [row, Text.MadeOf]
  | raw text => exact h.elim

theorem IsRow.text_eq {piece : Piece} (h : piece.IsRow) (indent : Indent) :
    piece.text indent = piece.row indent ++ "\n" := by
  cases piece with
  | line level text => rfl
  | blank => rfl
  | raw text => exact h.elim

/-- Cutting written lines at their ends gives their rows. -/
theorem splitOn_join_append (indent : Indent) {pieces : List Piece}
    (h : ∀ piece ∈ pieces, piece.IsRow) (rest : String) :
    Text.splitOn '\n' (String.join (pieces.map (Piece.text indent)) ++ rest) =
      pieces.map (row indent) ++ Text.splitOn '\n' rest := by
  induction pieces with
  | nil => simp
  | cons piece pieces ih =>
    obtain ⟨hpiece, hpieces⟩ := List.forall_mem_cons.1 h
    have hsplit := @Text.splitOn_eq_cons '\n'
      (String.join ((piece :: pieces).map (Piece.text indent)) ++ rest) (piece.row indent)
      (String.join (pieces.map (Piece.text indent)) ++ rest) (by simp [hpiece.text_eq indent])
      (hpiece.onOneLine_row indent)
    rw [hsplit, ih hpieces, List.map_cons, List.cons_append]

end Piece

/-! ## Rows -/

namespace Code

def rowAt (indent : Indent) (level : Nat) (text : String) : String :=
  if text = "" then "" else Text.replicate level indent.text ++ text

/-- What the pieces of code write, without the ends of lines. -/
def rows (indent : Indent) (code : Code) : List String :=
  code.pieces.map (Piece.row indent)

/-- Code whose pieces are whole lines. -/
def IsRows (code : Code) : Prop :=
  ∀ piece ∈ code.pieces, piece.IsRow

/-- Code to which nothing was added but at the end. -/
def Continues (first code : Code) : Prop :=
  first.pieces <+: code.pieces

@[simp] theorem rowAt_zero (indent : Indent) (text : String) : rowAt indent 0 text = text := by
  unfold rowAt
  split
  · rename_i h
    exact h.symm
  · simp [Text.replicate]

@[simp] theorem map_rowAt_zero (indent : Indent) (texts : List String) :
    texts.map (rowAt indent 0) = texts := by
  simp [List.map_congr_left fun text _ => rowAt_zero indent text]

section Rows

variable (indent : Indent) (code : Code)

@[simp] theorem level_empty : empty.level = 0 := rfl

@[simp] theorem level_indent : code.indent.level = code.level + 1 := rfl

@[simp] theorem level_dedent : code.dedent.level = code.level - 1 := rfl

@[simp] theorem rows_empty : empty.rows indent = [] := rfl

@[simp] theorem rows_indent : code.indent.rows indent = code.rows indent := rfl

@[simp] theorem rows_dedent : code.dedent.rows indent = code.rows indent := rfl

@[simp] theorem rows_blank : code.blank.rows indent = code.rows indent ++ [""] := by
  simp [rows, blank, add, Piece.row]

@[simp] theorem rows_line (text : String) :
    (code.line text).rows indent = code.rows indent ++ [rowAt indent code.level text] := by
  unfold line rowAt
  split
  · exact rows_blank indent code
  · simp [rows, add, Piece.row]

@[simp] theorem rows_lines (texts : List String) :
    (code.lines texts).rows indent =
      code.rows indent ++ texts.map (rowAt indent code.level) := by
  induction texts generalizing code with
  | nil => simp [lines]
  | cons text texts ih =>
    have hlines : code.lines (text :: texts) = (code.line text).lines texts := rfl
    simp [hlines, ih]

@[simp] theorem isRows_empty : empty.IsRows := by
  simp [IsRows, empty]

@[simp] theorem isRows_indent : code.indent.IsRows ↔ code.IsRows := Iff.rfl

@[simp] theorem isRows_dedent : code.dedent.IsRows ↔ code.IsRows := Iff.rfl

@[simp] theorem isRows_blank : code.blank.IsRows ↔ code.IsRows := by
  simp [IsRows, blank, add, or_imp, forall_and, Piece.IsRow]

@[simp] theorem isRows_line (text : String) :
    (code.line text).IsRows ↔ code.IsRows ∧ OnOneLine text := by
  unfold line
  split
  · rename_i h
    simp [h, Text.MadeOf]
  · simp [IsRows, add, or_imp, forall_and, Piece.IsRow]

@[simp] theorem isRows_lines (texts : List String) :
    (code.lines texts).IsRows ↔ code.IsRows ∧ ∀ text ∈ texts, OnOneLine text := by
  induction texts generalizing code with
  | nil => simp [lines]
  | cons text texts ih =>
    have hlines : code.lines (text :: texts) = (code.line text).lines texts := rfl
    simp [hlines, ih, and_assoc]

/-- Where all pieces are lines, the lines of the text are the rows, and there is nothing behind
the last of them. -/
theorem splitOn_text {code : Code} (h : code.IsRows) (indent : Indent) :
    Text.splitOn '\n' (code.text indent) = code.rows indent ++ [""] := by
  have hsplit := Piece.splitOn_join_append indent h ""
  rwa [String.append_empty] at hsplit

end Rows

/-! ## Adding at the end -/

namespace Continues

variable {first middle code : Code}

theorem refl (code : Code) : code.Continues code := List.prefix_rfl

theorem trans (h : first.Continues middle) (h' : middle.Continues code) : first.Continues code :=
  List.IsPrefix.trans h h'

theorem add (h : first.Continues code) (piece : Piece) : first.Continues (code.add piece) :=
  h.trans (List.prefix_append _ _)

theorem blank (h : first.Continues code) : first.Continues code.blank := h.add .blank

theorem line (h : first.Continues code) (text : String) : first.Continues (code.line text) := by
  unfold Code.line
  split
  · exact h.blank
  · exact h.add _

theorem lines (h : first.Continues code) (texts : List String) :
    first.Continues (code.lines texts) := by
  induction texts generalizing code with
  | nil => exact h
  | cons text texts ih => exact ih (h.line text)

theorem indent (h : first.Continues code) : first.Continues code.indent := h

theorem dedent (h : first.Continues code) : first.Continues code.dedent := h

theorem foldl {α : Type} {write : Code → α → Code}
    (hwrite : ∀ (code : Code) (item : α), code.Continues (write code item))
    (h : first.Continues code) (items : List α) : first.Continues (items.foldl write code) := by
  induction items generalizing code with
  | nil => exact h
  | cons item items ih => exact ih (h.trans (hwrite code item))

/-- Where the first pieces are lines they are the first lines of the text. -/
theorem exists_splitOn_text (h : first.Continues code) (hrows : first.IsRows) (indent : Indent) :
    ∃ others, Text.splitOn '\n' (code.text indent) = first.rows indent ++ others := by
  obtain ⟨more, hpieces⟩ := h
  refine ⟨Text.splitOn '\n' (String.join (more.map (Piece.text indent))), ?_⟩
  rw [Code.text, ← hpieces, List.map_append, String.join_append]
  exact Piece.splitOn_join_append indent hrows _

end Continues

end Code

end ServantGen
