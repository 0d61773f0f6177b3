import ServantGen.Haskell.Lexical
import ServantGen.Proofs.Text.Characters

/-!
# Lexemes of generated lines

A reader of a generated line sees lexemes: words, brackets and commas, and literals, with blanks
between them and nothing behind the mark of a comment. The reader goes over the characters once
and remembers only how far it has come, so two texts are read one after the other wherever the
first ends between two lexemes. Texts put together from literals, words and brackets can thus be
read piece by piece.
-/

namespace ServantGen.Haskell

open Text (MadeOf)

/-! ## Reading a line -/

/-- Characters that are lexemes by themselves. -/
def isSpecial (c : Char) : Bool :=
  ['(', ')', '[', ']', '{', '}', ','].contains c

/-- Characters of which operators are made. -/
def isSymbol (c : Char) : Bool :=
  "!#$%&*+./<=>?@\\^|-~:".toList.contains c

/-- Characters that go on with a word. -/
def isWordChar (c : Char) : Bool :=
  c ≠ ' ' && c ≠ '"' && !isSpecial c

/-- Whether a word is the mark of a comment, unless it goes on. -/
def isDashes (read : List Char) : Bool :=
  2 ≤ read.length && read.all (· == '-')

/-- How far the reading of a line has come. -/
inductive Reading where
  /-- In a word of which something was read, or between two lexemes when nothing was. -/
  | word (read : List Char)
  | literal (read : List Char)
  /-- In a literal, behind a backslash. -/
  | escape (read : List Char)
  | comment
  deriving DecidableEq, Repr

def wordLexemes (read : List Char) : List String :=
  if read = [] ∨ isDashes read = true then [] else [String.ofList read]

namespace Reading

/-- Read one character, and what lexemes end with it. -/
def step : Reading → Char → Reading × List String
  | .word read, c =>
    if isDashes read && !isSymbol c then (.comment, [])
    else if isWordChar c then (.word (read ++ [c]), [])
    else if c = '"' then (.literal [c], wordLexemes read)
    else if c = ' ' then (.word [], wordLexemes read)
    else (.word [], wordLexemes read ++ [String.singleton c])
  | .literal read, c =>
    if c = '\\' then (.escape (read ++ [c]), [])
    else if c = '"' then (.word [], [String.ofList (read ++ [c])])
    else (.literal (read ++ [c]), [])
  | .escape read, c => (.literal (read ++ [c]), [])
  | .comment, _ => (.comment, [])

/-- Read a text, and what lexemes end in it. -/
def scan : Reading → List Char → Reading × List String
  | reading, [] => (reading, [])
  | reading, c :: cs =>
    let (next, ended) := reading.step c
    let (last, others) := scan next cs
    (last, ended ++ others)

/-- The lexeme that ends with the line. -/
def finish : Reading → List String
  | .word read => wordLexemes read
  | .literal read | .escape read => [String.ofList read]
  | .comment => []

/-- The reading of a line that has not begun. -/
def start : Reading := .word []

end Reading

def lexemes (text : String) : List String :=
  let (last, ended) := Reading.start.scan text.toList
  ended ++ last.finish

theorem Reading.scan_append (reading : Reading) (first rest : List Char) :
    reading.scan (first ++ rest) =
      (((reading.scan first).1.scan rest).1,
        (reading.scan first).2 ++ ((reading.scan first).1.scan rest).2) := by
  induction first generalizing reading with
  | nil => rfl
  | cons c first ih =>
    simp only [List.cons_append, scan, ih]
    simp

/-- Where a word ends, what it is ends with it, and the reader is where it would be without the
word. -/
theorem Reading.step_word_of_break {read : List Char} (hread : isDashes read = false) {c : Char}
    (hc : isWordChar c = false) :
    (Reading.word read).step c = ((start.step c).1, wordLexemes read ++ (start.step c).2) := by
  have hdashes : isDashes [] = false := rfl
  simp only [step, start, hread, hc, hdashes, Bool.false_and, Bool.false_eq_true, if_false]
  split
  · simp [wordLexemes]
  · split <;> simp [wordLexemes]

/-! ## Texts that end between lexemes -/

/-- A text consists of whole lexemes, whatever comes behind it. -/
def Spells (text : String) (spelled : List String) : Prop :=
  Reading.start.scan text.toList = (.start, spelled)

instance (text : String) (spelled : List String) : Decidable (Spells text spelled) :=
  inferInstanceAs (Decidable (_ = _))

/-- A text ends in a word or between two lexemes. -/
def EndsPlainly (text : String) : Prop :=
  ∃ read ended, isDashes read = false ∧
    Reading.start.scan text.toList = (.word read, ended)

/-- A text starts with a character that ends any word. -/
def StartsApart (text : String) : Prop :=
  text.toList.head?.any (fun c => !isWordChar c) = true

instance (text : String) : Decidable (StartsApart text) :=
  inferInstanceAs (Decidable (_ = _))

section Cutting

variable {first rest : String} {spelled others : List String}

theorem startsApart_iff :
    StartsApart first ↔ ∃ c cs, first.toList = c :: cs ∧ isWordChar c = false := by
  unfold StartsApart
  cases first.toList <;> simp

theorem StartsApart.append (h : StartsApart first) (rest : String) :
    StartsApart (first ++ rest) := by
  obtain ⟨c, cs, hcs, hc⟩ := startsApart_iff.1 h
  exact startsApart_iff.2 ⟨c, cs ++ rest.toList, by simp [hcs], hc⟩

theorem Spells.endsPlainly (h : Spells first spelled) : EndsPlainly first :=
  ⟨[], spelled, rfl, h⟩

theorem Spells.lexemes_eq (h : Spells first spelled) : lexemes first = spelled := by
  unfold lexemes
  rw [h]
  exact List.append_nil _

/-- What comes behind whole lexemes is read as if they were not there. -/
theorem Spells.scan_append (h : Spells first spelled) (rest : String) :
    Reading.start.scan (first ++ rest).toList =
      ((Reading.start.scan rest.toList).1, spelled ++ (Reading.start.scan rest.toList).2) := by
  rw [String.toList_append, Reading.scan_append, h]

/-- What comes behind a word is read as if the word were not there, if it ends the word. -/
theorem EndsPlainly.scan_append (h : EndsPlainly first) (hrest : StartsApart rest) :
    Reading.start.scan (first ++ rest).toList =
      ((Reading.start.scan rest.toList).1,
        lexemes first ++ (Reading.start.scan rest.toList).2) := by
  obtain ⟨read, ended, hread, hscan⟩ := h
  obtain ⟨c, cs, hcs, hc⟩ := startsApart_iff.1 hrest
  have hfirst : lexemes first = ended ++ wordLexemes read := by
    unfold lexemes
    rw [hscan]
    rfl
  rw [String.toList_append, Reading.scan_append, hscan, hcs, hfirst]
  simp [Reading.scan, Reading.step_word_of_break hread hc]

theorem Spells.append (h : Spells first spelled) (h' : Spells rest others) :
    Spells (first ++ rest) (spelled ++ others) := by
  unfold Spells
  rw [h.scan_append, h']

theorem EndsPlainly.spells_append (h : EndsPlainly first) (h' : Spells rest others)
    (hrest : StartsApart rest) : Spells (first ++ rest) (lexemes first ++ others) := by
  unfold Spells
  rw [h.scan_append hrest, h']

theorem Spells.endsPlainly_append (h : Spells first spelled) (h' : EndsPlainly rest) :
    EndsPlainly (first ++ rest) := by
  obtain ⟨read, ended, hread, hscan⟩ := h'
  refine ⟨read, spelled ++ ended, hread, ?_⟩
  rw [h.scan_append, hscan]

theorem EndsPlainly.append (h : EndsPlainly first) (h' : EndsPlainly rest)
    (hrest : StartsApart rest) : EndsPlainly (first ++ rest) := by
  obtain ⟨read, ended, hread, hscan⟩ := h'
  refine ⟨read, lexemes first ++ ended, hread, ?_⟩
  rw [h.scan_append hrest, hscan]

theorem Spells.lexemes_append (h : Spells first spelled) (rest : String) :
    lexemes (first ++ rest) = spelled ++ lexemes rest := by
  unfold lexemes
  rw [h.scan_append]
  exact List.append_assoc _ _ _

theorem EndsPlainly.lexemes_append (h : EndsPlainly first) (hrest : StartsApart rest) :
    lexemes (first ++ rest) = lexemes first ++ lexemes rest := by
  rw [lexemes, h.scan_append hrest, lexemes.eq_def rest]
  exact List.append_assoc _ _ _

end Cutting

/-- Texts with whole lexemes between them are read one after the other. -/
theorem endsPlainly_join {glue : String} {between : List String} (hglue : Spells glue between)
    (hapart : StartsApart glue) {texts : List String} (h : ∀ text ∈ texts, EndsPlainly text) :
    EndsPlainly (Text.join glue texts) ∧
      lexemes (Text.join glue texts) = between.intercalate (texts.map lexemes) := by
  unfold Text.join
  induction texts with
  | nil => exact ⟨⟨[], [], rfl, rfl⟩, rfl⟩
  | cons text texts ih =>
    obtain ⟨htext, htexts⟩ := List.forall_mem_cons.1 h
    cases texts with
    | nil => simpa [List.intercalate] using htext
    | cons next texts =>
      obtain ⟨hends, hlexemes⟩ := ih htexts
      have happend : String.intercalate glue (text :: next :: texts) =
          text ++ (glue ++ String.intercalate glue (next :: texts)) := by
        rw [String.intercalate_cons_cons, String.append_assoc]
      rw [happend]
      constructor
      · exact htext.append (hglue.endsPlainly_append hends) (hapart.append _)
      · rw [htext.lexemes_append (hapart.append _), hglue.lexemes_append, hlexemes]
        simp only [List.map_cons, List.intercalate_cons_cons, List.append_assoc]

/-! ## Words -/

/-- An identifier: letters, digits and underscores. -/
structure IsWord (text : String) : Prop where
  ne_empty : text ≠ ""
  made : MadeOf (fun c => c.isAlphanum || c == '_') text

instance (text : String) : Decidable (IsWord text) :=
  decidable_of_iff (text ≠ "" ∧ MadeOf (fun c => c.isAlphanum || c == '_') text)
    ⟨fun h => ⟨h.1, h.2⟩, fun h => ⟨h.1, h.2⟩⟩

theorem isWordChar_of_identifier {c : Char} (h : (c.isAlphanum || c == '_') = true) :
    isWordChar c = true ∧ c ≠ '-' := by
  have hne : ∀ d : Char, (d.isAlphanum || d == '_') = false → c ≠ d := by
    rintro d hd rfl
    simp [h] at hd
  have hspecial : isSpecial c = false := by
    simp [isSpecial, hne '(' (by decide), hne ')' (by decide), hne '[' (by decide),
      hne ']' (by decide), hne '{' (by decide), hne '}' (by decide), hne ',' (by decide)]
  simp [isWordChar, hspecial, hne ' ' (by decide), hne '"' (by decide), hne '-' (by decide)]

theorem isDashes_eq_false {read : List Char} (h : '-' ∉ read) : isDashes read = false := by
  cases read with
  | nil => rfl
  | cons c read =>
    have hc : c ≠ '-' := fun heq => h (heq ▸ List.mem_cons_self)
    simp [isDashes, hc]

theorem Reading.scan_word {read cs : List Char} (hread : '-' ∉ read)
    (hcs : ∀ c ∈ cs, isWordChar c = true ∧ c ≠ '-') :
    (Reading.word read).scan cs = (.word (read ++ cs), []) := by
  induction cs generalizing read with
  | nil => simp [scan]
  | cons c cs ih =>
    obtain ⟨⟨hword, hc⟩, hcs⟩ := List.forall_mem_cons.1 hcs
    have hnext : '-' ∉ read ++ [c] := by simpa using ⟨hread, hc.symm⟩
    simp [scan, step, isDashes_eq_false hread, hword, ih hnext hcs]

section Words

variable {text : String}

theorem IsWord.scan_eq (h : IsWord text) :
    Reading.start.scan text.toList = (.word text.toList, []) :=
  Reading.scan_word List.not_mem_nil fun c hc => isWordChar_of_identifier (h.made c hc)

theorem IsWord.isDashes_eq (h : IsWord text) : isDashes text.toList = false :=
  isDashes_eq_false fun hmem => absurd (h.made _ hmem) (by decide)

theorem IsWord.endsPlainly (h : IsWord text) : EndsPlainly text :=
  ⟨text.toList, [], h.isDashes_eq, h.scan_eq⟩

theorem IsWord.lexemes_eq (h : IsWord text) : lexemes text = [text] := by
  have hne : text.toList ≠ [] := by simpa using h.ne_empty
  simp [lexemes, h.scan_eq, Reading.finish, wordLexemes, hne, h.isDashes_eq]

theorem IsWord.append {more : String} (h : IsWord text)
    (hmore : MadeOf (fun c => c.isAlphanum || c == '_') more) : IsWord (text ++ more) :=
  ⟨by simp [h.ne_empty], Text.madeOf_append.2 ⟨h.made, hmore⟩⟩

/-- A word has no bracket and is made of no symbols. -/
theorem IsWord.ne {word : String} (h : IsWord text) {c : Char}
    (hc : (c.isAlphanum || c == '_') = false) (hmem : c ∈ word.toList) : text ≠ word :=
  h.made.ne hc hmem

end Words

theorem isWord_decimal (n : Nat) : IsWord (Text.decimal n) where
  ne_empty := by simp [Text.decimal]
  made := (Text.madeOf_decimal n).mono fun c hc => by simp [Text.isAlphanum_of_isDigit hc]

/-! ## Literals -/

/-- Characters that do not end the literal they stand in. -/
def StaysInside (cs : List Char) : Prop :=
  ∀ read, (Reading.literal read).scan cs = (.literal (read ++ cs), [])

theorem StaysInside.append {first rest : List Char} (h : StaysInside first)
    (h' : StaysInside rest) : StaysInside (first ++ rest) := by
  intro read
  rw [Reading.scan_append, h, h']
  simp

theorem staysInside_nil : StaysInside [] := fun read => by simp [Reading.scan]

theorem staysInside_of_ne {cs : List Char} (h : ∀ c ∈ cs, c ≠ '\\' ∧ c ≠ '"') :
    StaysInside cs := by
  intro read
  induction cs generalizing read with
  | nil => exact staysInside_nil read
  | cons c cs ih =>
    obtain ⟨⟨hslash, hquote⟩, hcs⟩ := List.forall_mem_cons.1 h
    simp [Reading.scan, Reading.step, hslash, hquote, ih hcs]

/-- A backslash takes the next character with it. -/
theorem staysInside_escaped (c : Char) {rest : List Char} (h : StaysInside rest) :
    StaysInside ('\\' :: c :: rest) := by
  intro read
  simp [Reading.scan, Reading.step, h (read ++ ['\\', c])]

theorem staysInside_escapeChar (c : Char) : StaysInside (escapeChar c) := by
  unfold escapeChar
  split
  iterate 5 exact staysInside_escaped _ staysInside_nil
  split
  · rename_i hplain
    refine staysInside_of_ne ?_
    simp only [isPlain, Bool.and_eq_true, decide_eq_true_eq] at hplain
    simpa using ⟨hplain.2, hplain.1.2⟩
  · have hdigits : ∀ d ∈ Nat.toDigits 10 c.toNat, d ≠ '\\' ∧ d ≠ '"' := by
      intro d hd
      have hdigit := Nat.isDigit_of_mem_toDigits (by decide) (by decide) hd
      constructor <;> rintro rfl <;> exact absurd hdigit (by decide)
    cases hcs : Nat.toDigits 10 c.toNat with
    | nil => exact absurd hcs Nat.toDigits_ne_nil
    | cons d rest =>
      rw [hcs] at hdigits
      exact staysInside_escaped d (staysInside_of_ne (List.forall_mem_cons.1 hdigits).2)

theorem staysInside_literalBody (cs : List Char) : StaysInside (literalBody cs) := by
  fun_induction literalBody cs with
  | case1 => exact staysInside_nil
  | case2 c => exact staysInside_escapeChar c
  | case3 c d rest closing ih =>
    refine ((staysInside_escapeChar c).append ?_).append ih
    simp only [closing]
    split
    · exact staysInside_escaped _ staysInside_nil
    · exact staysInside_nil

/-- A literal is one lexeme, whatever its text. -/
theorem spells_literal (text : String) : Spells (literal text) [literal text] := by
  unfold Spells literal
  rw [String.toList_ofList, List.cons_append, Reading.scan]
  simp [Reading.start, Reading.step, Reading.scan_append, staysInside_literalBody text.toList ['"'],
    Reading.scan, isDashes, isWordChar, wordLexemes]

end ServantGen.Haskell
