import ServantGen.Yaml.Spot

/-!
# Scalars of YAML

Plain scalars, scalars in quotes and block scalars. Between the words of a plain or quoted
scalar stands a gap: blanks on one line, or line ends, of which a single line feed reads as a
blank and each further one as itself.
-/

namespace ServantGen.Yaml

/-! ## Gaps -/

/-- What stands between two words of a scalar. -/
inductive Gap where
  | none
  /-- Blanks on one line, latest first. -/
  | blanks (latestFirst : List Char)
  /-- The first line end, if it was not taken back by a backslash, and the others, latest
  first. Blanks after a line end do not count. -/
  | lines (first : Option Char) (othersLatestFirst : List Char)
  deriving DecidableEq, Repr

namespace Gap

def hasLine : Gap → Bool
  | .lines .. => true
  | _ => false

def addBlank (c : Char) : Gap → Gap
  | .none => .blanks [c]
  | .blanks cs => .blanks (c :: cs)
  | gap => gap

/-- The gap with one more line end; blanks before it are dropped. -/
def addLine (c : Char) : Gap → Gap
  | .lines first others => .lines first (c :: others)
  | _ => .lines (some c) []

def text : Gap → List Char
  | .none => []
  | .blanks cs => cs.reverse
  | .lines (some '\n') [] => [' ']
  | .lines (some '\n') others => others.reverse
  | .lines first others => first.toList ++ others.reverse

/-- Put the gap and then a character behind a text whose characters are latest first. -/
def join (gap : Gap) (c : Char) (latestFirst : List Char) : List Char :=
  c :: (gap.text.reverse ++ latestFirst)

end Gap

structure ScalarRead where
  text : List Char
  rest : Spots
  /-- Whether a line ended after the scalar before the rest. -/
  lineEnded : Bool

/-! ## Plain scalars -/

/-- The marks that end a plain scalar inside brackets. -/
def flowMarks : List Char := [',', '[', ']', '\x7b', '\x7d']

/-- A plain scalar that was read, characters latest first, with a gap behind it. -/
def plainRead (latestFirst : List Char) (gap : Gap) (rest : Spots) : ScalarRead :=
  ⟨latestFirst.reverse, rest, gap.hasLine⟩

/-- Read a plain scalar. It ends before a colon with a gap behind it, before a comment, where
a document starts or ends, on a line that is indented less than `indent`, and inside brackets
before a mark. `latestFirst` is what was read. -/
def plainFrom (indent : Int) (inFlow : Bool) (latestFirst : List Char) (gap : Gap) :
    Spots → Except Fault ScalarRead
  | [] => .ok (plainRead latestFirst gap [])
  | spot :: rest =>
    let c := spot.char
    let outside := !inFlow && spot.column < indent
    if isBlank c then
      if gap.hasLine && c == '\t' && spot.column < indent then .error .tab
      else plainFrom indent inFlow latestFirst (gap.addBlank c) rest
    else if isBreak c then plainFrom indent inFlow latestFirst (gap.addLine c) rest
    else if gap ≠ .none && (outside || c == '#' || atDocumentMark (spot :: rest)) then
      .ok (plainRead latestFirst gap (spot :: rest))
    else if inFlow && c == ':' && startsWithAny ('?' :: flowMarks) rest then .error .key
    else if (c == ':' && atGap rest) || (inFlow && flowMarks.contains c) then
      .ok (plainRead latestFirst gap (spot :: rest))
    else plainFrom indent inFlow (gap.join c latestFirst) .none rest

/-- Read a plain scalar where the surrounding collection is indented by `indent`. -/
def readPlain (indent : Int) (inFlow : Bool) (input : Spots) : Except Fault ScalarRead :=
  plainFrom (indent + 1) inFlow [] .none input

/-! ## Quoted scalars -/

/-- What follows a backslash in double quotes. -/
inductive Escape where
  | char (c : Char)
  /-- A character by its number of so many hexadecimal digits. -/
  | number (digits : Nat)
  | unknown

def escapeOf (c : Char) : Escape :=
  match c with
  | '0' => .char '\x00'
  | 'a' => .char '\x07'
  | 'b' => .char '\x08'
  | 't' | '\t' => .char '\t'
  | 'n' => .char '\n'
  | 'v' => .char '\x0b'
  | 'f' => .char '\x0c'
  | 'r' => .char '\r'
  | 'e' => .char '\x1b'
  | ' ' | '"' | '/' | '\\' => .char c
  | 'N' => .char '\u0085'
  | '_' => .char '\u00a0'
  | 'L' => .char '\u2028'
  | 'P' => .char '\u2029'
  | 'x' => .number 2
  | 'u' => .number 4
  | 'U' => .number 8
  | _ => .unknown

def hexValue? (digits : List Char) : Option Nat :=
  digits.foldlM (fun value c => (hexDigit? c).map (16 * value + ·)) 0

def charOf? (n : Nat) : Option Char :=
  if n < 0xD800 || (0xDFFF < n && n < 0x110000) then some (Char.ofNat n) else none

/-- The character that the next digits denote, if there are enough of them. -/
def numbered? (digits : Nat) (input : Spots) : Option Char := do
  let chars := (input.take digits).map Spot.char
  if chars.length < digits then none
  else
    let value ← hexValue? chars
    charOf? value

/-- Read a scalar in single quotes behind the opening one. A quote is written twice. -/
def singleFrom (latestFirst : List Char) (gap : Gap) : Spots → Except Fault ScalarRead
  | [] => .error .openQuote
  | spot :: rest =>
    let c := spot.char
    if isBlank c then singleFrom latestFirst (gap.addBlank c) rest
    else if isBreak c then singleFrom latestFirst (gap.addLine c) rest
    else if atDocumentMark (spot :: rest) then .error .openQuote
    else if c == '\'' then
      match rest with
      | next :: rest =>
        if next.char == '\'' then singleFrom (gap.join c latestFirst) .none rest
        else .ok ⟨(gap.text.reverse ++ latestFirst).reverse, next :: rest, false⟩
      | [] => .ok ⟨(gap.text.reverse ++ latestFirst).reverse, [], false⟩
    else singleFrom (gap.join c latestFirst) .none rest

/-- Read a scalar in double quotes behind the opening one. A backslash at the end of a line
takes the line end back. -/
def doubleFrom (latestFirst : List Char) (gap : Gap) (input : Spots) : Except Fault ScalarRead :=
  match input with
  | [] => .error .openQuote
  | spot :: rest =>
    let c := spot.char
    if isBlank c then doubleFrom latestFirst (gap.addBlank c) rest
    else if isBreak c then doubleFrom latestFirst (gap.addLine c) rest
    else if atDocumentMark (spot :: rest) then .error .openQuote
    else if c == '"' then .ok ⟨(gap.text.reverse ++ latestFirst).reverse, rest, false⟩
    else if c == '\\' then
      match rest with
      | [] => .error .escape
      | next :: rest =>
        if isBreak next.char then
          doubleFrom (gap.text.reverse ++ latestFirst) (.lines none []) rest
        else match escapeOf next.char with
          | .char c => doubleFrom (gap.join c latestFirst) .none rest
          | .number digits =>
            match numbered? digits rest with
            | some c => doubleFrom (gap.join c latestFirst) .none (rest.drop digits)
            | none => .error .escape
          | .unknown => .error .escape
    else doubleFrom (gap.join c latestFirst) .none rest
termination_by input.length
decreasing_by all_goals grind

/-! ## Block scalars -/

/-- What becomes of the line ends behind a block scalar. -/
inductive Chomping where
  | strip
  /-- One line end is kept. -/
  | clip
  | keep
  deriving DecidableEq, Repr

/-- The marks of a block scalar: what becomes of its last line ends, and by how much it is
indented if that is said. -/
structure BlockHeader where
  chomping : Chomping
  increment : Option Nat

/-- Read a mark for the last line ends. -/
def takeChomping (input : Spots) : Option Chomping × Spots :=
  match input with
  | spot :: rest =>
    if spot.char == '+' then (some .keep, rest)
    else if spot.char == '-' then (some .strip, rest)
    else (none, input)
  | [] => (none, input)

/-- Read a digit for the indentation. -/
def takeIncrement (input : Spots) : Except Fault (Option Nat × Spots) :=
  match input with
  | spot :: rest =>
    if spot.char == '0' then .error .blockHeader
    else if spot.char.isDigit then .ok (hexDigit? spot.char, rest)
    else .ok (none, input)
  | [] => .ok (none, input)

/-- Read the marks of a block scalar, in either order, and the rest of their line. -/
def readBlockHeader (input : Spots) : Except Fault (BlockHeader × Spots) := do
  let (early, rest) := takeChomping input
  let (increment, rest) ← takeIncrement rest
  let (late, rest) := if early.isNone && increment.isSome then takeChomping rest else (none, rest)
  let rest := skipComment rest
  if atLineEnd rest then .ok (⟨(early.or late).getD .clip, increment⟩, rest.drop 1)
  else .error .blockHeader

/-- Lines without content before a line of a block scalar. -/
structure BlockGap where
  /-- The line ends, latest first. -/
  breaks : List Char
  /-- The largest column reached. -/
  reached : Nat
  rest : Spots

/-- Skip indentation and lines without content. The indentation is known, or everything
counts as such. -/
def blockGapFrom (indent : Option Nat) (breaks : List Char) (reached : Nat) :
    Spots → Except Fault BlockGap
  | [] => .ok ⟨breaks, reached, []⟩
  | spot :: rest =>
    let indents := indent.all (spot.column < ·)
    if indents && spot.char == ' ' then
      blockGapFrom indent breaks (max reached (spot.column + 1)) rest
    else if indents && spot.char == '\t' then .error .tab
    else if isBreak spot.char then blockGapFrom indent (spot.char :: breaks) reached rest
    else .ok ⟨breaks, reached, spot :: rest⟩

/-- A block scalar while it is read, characters latest first. -/
structure BlockText where
  latestFirst : List Char
  /-- The end of the last line. -/
  lineEnd : List Char
  /-- The ends of the empty lines after it. -/
  breaks : List Char
  /-- Whether the last line started with a blank. -/
  wasBlank : Bool

/-- Add a line. In folded text a line end between two lines that start with no blank reads as
a blank, or as nothing when empty lines follow. -/
def BlockText.addLine (literal isBlankLine : Bool) (line : List Char) (text : BlockText) :
    List Char :=
  let folds := !literal && text.lineEnd == ['\n'] && !text.wasBlank && !isBlankLine
  let joint := if folds then (if text.breaks.isEmpty then [' '] else []) else text.lineEnd
  line.reverse ++ (text.breaks ++ (joint ++ text.latestFirst))

/-- Read the lines of a block scalar that are indented by exactly `indent`; `fuel` bounds
their number. -/
def blockLinesFrom (literal : Bool) (indent : Nat) :
    Nat → BlockText → Spots → Except Fault (BlockText × Spots)
  | 0, text, input => .ok (text, input)
  | _, text, [] => .ok (text, [])
  | fuel + 1, text, spot :: rest =>
    if spot.column ≠ indent then .ok (text, spot :: rest)
    else do
      let blank := isBlank spot.char
      let inLine (spot : Spot) := !isBreak spot.char
      let line := spot.char :: (rest.takeWhile inLine).map Spot.char
      let after := rest.dropWhile inLine
      let gap ← blockGapFrom (some indent) [] 0 (after.drop 1)
      blockLinesFrom literal indent fuel
        { latestFirst := text.addLine literal blank line
          lineEnd := (peek? after).toList
          breaks := gap.breaks
          wasBlank := blank } gap.rest

def BlockText.finish (chomping : Chomping) (text : BlockText) : List Char :=
  match chomping with
  | .strip => text.latestFirst.reverse
  | .clip => (text.lineEnd ++ text.latestFirst).reverse
  | .keep => (text.breaks ++ (text.lineEnd ++ text.latestFirst)).reverse

/-- Read a block scalar behind its mark, where the surrounding collection is indented by
`indent`. Without a digit the first line with content decides the indentation. -/
def readBlock (literal : Bool) (indent : Int) (input : Spots) : Except Fault ScalarRead := do
  let (header, rest) ← readBlockHeader input
  let known := header.increment.map fun n => if indent ≥ 0 then indent.toNat + n else n
  let gap ← blockGapFrom known [] 0 rest
  let width := known.getD (max gap.reached (max (indent + 1).toNat 1))
  let (text, rest) ← blockLinesFrom literal width (gap.rest.length + 1)
    ⟨[], [], gap.breaks, false⟩ gap.rest
  return ⟨text.finish header.chomping, rest, true⟩

end ServantGen.Yaml
