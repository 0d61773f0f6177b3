import ServantGen.Yaml.Tag

/-!
# Tokens of YAML

Indentation and line ends become tokens: a collection in block style has a token where it
starts and one where it ends. Whether a scalar was a key is known only at the colon behind
it. So the place of every token that may start a key is remembered, and at the colon the
token for the key, and if need be the one for the start of a mapping, are put in at that
place. A place is forgotten when its line ends or the colon is too far away; a key that the
layout requires must not be forgotten.
-/

namespace ServantGen.Yaml

inductive Token where
  | version (major minor : Nat)
  | tagHandle (handle : String) (expansion : Octets)
  | documentStart
  | documentEnd
  | blockSequenceStart
  | blockMappingStart
  | blockEnd
  | flowSequenceStart
  | flowSequenceEnd
  | flowMappingStart
  | flowMappingEnd
  | blockEntry
  | flowEntry
  | key
  | value
  | alias (name : String)
  | anchor (name : String)
  | tag (written : WrittenTag)
  | scalar (isPlain : Bool) (text : String)
  deriving DecidableEq, Repr

structure KeyPlace where
  /-- How many tokens are before it. -/
  position : Nat
  /-- Whether the layout requires a key there. -/
  required : Bool
  index : Nat
  line : Nat
  column : Nat

/-- Tokens while they are collected. -/
structure Lexer where
  /-- The tokens, latest first. -/
  latestFirst : List Token
  /-- How many tokens there are. -/
  count : Nat
  /-- The column of the innermost collection in block style, `-1` outside of all. -/
  indent : Int
  /-- The columns of the collections around it. -/
  outer : List Int
  /-- The place that may start a key outside of all brackets. -/
  blockKey : Option KeyPlace
  /-- The same for each open bracket, innermost first. -/
  flowKeys : List (Option KeyPlace)
  /-- Whether a key may start at the next token. -/
  keyAllowed : Bool

namespace Lexer

def initial : Lexer := ⟨[], 0, -1, [], none, [], true⟩

/-- Whether a bracket is open. -/
def inFlow (lexer : Lexer) : Bool :=
  !lexer.flowKeys.isEmpty

def add (token : Token) (lexer : Lexer) : Lexer :=
  { lexer with latestFirst := token :: lexer.latestFirst, count := lexer.count + 1 }

def insert (position : Nat) (token : Token) (lexer : Lexer) : Lexer :=
  let later := lexer.count - position
  { lexer with
    latestFirst := lexer.latestFirst.take later ++ token :: lexer.latestFirst.drop later
    count := lexer.count + 1 }

def allowKey (allowed : Bool) (lexer : Lexer) : Lexer :=
  { lexer with keyAllowed := allowed }

/-! ## Indentation -/

/-- Close the collections in block style that are indented more than `column`; `fuel` is
their number. -/
def closeFrom (column : Int) : Nat → Lexer → Lexer
  | 0, lexer => lexer
  | fuel + 1, lexer =>
    if lexer.indent > column then
      closeFrom column fuel
        { lexer.add .blockEnd with indent := lexer.outer.headD (-1), outer := lexer.outer.tail }
    else lexer

/-- Close the collections in block style that are indented more than `column`, unless a
bracket is open. -/
def closeBlocks (column : Int) (lexer : Lexer) : Lexer :=
  if lexer.inFlow then lexer else closeFrom column lexer.outer.length lexer

/-- Open a collection in block style at a column that is further in, unless a bracket is
open. Its token goes to the end or behind the first `position` tokens. -/
def openBlock (column : Nat) (position : Option Nat) (token : Token) (lexer : Lexer) : Lexer :=
  if !lexer.inFlow && lexer.indent < column then
    let opened := match position with
      | some position => lexer.insert position token
      | none => lexer.add token
    { opened with indent := column, outer := lexer.indent :: lexer.outer }
  else lexer

/-! ## Places of keys -/

/-- The place that may start a key at the current level. -/
def keyPlace? (lexer : Lexer) : Option KeyPlace :=
  match lexer.flowKeys with
  | [] => lexer.blockKey
  | place :: _ => place

def setKeyPlace (place : Option KeyPlace) (lexer : Lexer) : Lexer :=
  match lexer.flowKeys with
  | [] => { lexer with blockKey := place }
  | _ :: rest => { lexer with flowKeys := place :: rest }

/-- Forget the place of a key, unless a key is required there. -/
def forgetKey (lexer : Lexer) : Except Fault Lexer :=
  if lexer.keyPlace?.any KeyPlace.required then .error .key else .ok (lexer.setKeyPlace none)

/-- Remember the next token as one that may start a key, if that is allowed. -/
def rememberKey (spot : Spot) (lexer : Lexer) : Except Fault Lexer :=
  if lexer.keyAllowed then do
    let forgotten ← lexer.forgetKey
    let required := !lexer.inFlow && lexer.indent == spot.column
    return forgotten.setKeyPlace (some ⟨lexer.count, required, spot.index, spot.line, spot.column⟩)
  else .ok lexer

/-- The largest distance in bytes between the start of a key and its colon. -/
def maxKeyLength : Nat := 1024

/-- Whether a place is out of reach from a spot. -/
def KeyPlace.isStale (spot : Spot) (place : KeyPlace) : Bool :=
  place.line < spot.line || place.index + maxKeyLength < spot.index

/-- A place unless it is out of reach; one where a key is required must not be. -/
def refreshed (spot : Spot) : Option KeyPlace → Except Fault (Option KeyPlace)
  | none => .ok none
  | some place =>
    if !KeyPlace.isStale spot place then .ok (some place)
    else if place.required then .error .key
    else .ok none

/-- Forget all places that are out of reach. -/
def forgetStale (spot : Spot) (lexer : Lexer) : Except Fault Lexer := do
  let blockKey ← refreshed spot lexer.blockKey
  let flowKeys ← lexer.flowKeys.mapM (refreshed spot)
  return { lexer with blockKey, flowKeys }

end Lexer

/-! ## Anchors -/

/-- The marks that may follow the name of an anchor directly. -/
def anchorEnds : List Char := ['?', ':', ',', ']', '\x7d', '%', '@', '`']

/-- Read the name of an anchor or an alias behind its mark. -/
def readAnchor (input : Spots) : Except Fault (String × Spots) :=
  let (name, rest) := takeName input
  if name ≠ "" && (atGap rest || startsWithAny anchorEnds rest) then .ok (name, rest)
  else .error .anchor

/-! ## Directives -/

/-- The longest part of a version. -/
def maxVersionDigits : Nat := 9

def readVersionPart (input : Spots) : Except Fault (Nat × Spots) :=
  let isDigit (spot : Spot) := spot.char.isDigit
  let digits := input.takeWhile isDigit
  if digits.isEmpty || digits.length > maxVersionDigits then .error .directive
  else
    let value := digits.foldl (fun value spot => 10 * value + (spot.char.toNat - '0'.toNat)) 0
    .ok (value, input.dropWhile isDigit)

def readVersion (input : Spots) : Except Fault (Token × Spots) := do
  let (major, rest) ← readVersionPart (skipBlanks input)
  if !startsWith '.' rest then .error .directive
  else
    let (minor, rest) ← readVersionPart (rest.drop 1)
    return (.version major minor, rest)

def readTagDirective (input : Spots) : Except Fault (Token × Spots) := do
  let start := skipBlanks input
  let (handle, rest) := readHandle start
  if !startsWith '!' start || !(handle == ['!'] || isFullHandle handle) then .error .directive
  else if !(peek? rest).any isBlank then .error .directive
  else
    let (expansion, rest) ← readTagText true [] (skipBlanks rest)
    if atGap rest then .ok (.tagHandle (String.ofList handle) expansion, rest)
    else .error .directive

/-- Read a directive behind its mark, to the end of its line. -/
def readDirective (input : Spots) : Except Fault (Token × Spots) := do
  let (name, rest) := takeName input
  let (token, rest) ←
    if !atGap rest then .error .directive
    else match name with
      | "YAML" => readVersion rest
      | "TAG" => readTagDirective rest
      | _ => .error .directive
  let rest := skipComment rest
  if atLineEnd rest then .ok (token, rest.drop 1) else .error .directive

/-! ## The next token -/

/-- Skip blanks, comments and line ends, and a byte order mark that starts a line. Outside of
brackets a line end allows a key, and a tab counts as a blank only where no key is allowed. -/
def skipToToken (inFlow : Bool) (keyAllowed inComment : Bool) : Spots → Bool × Spots
  | [] => (keyAllowed, [])
  | spot :: rest =>
    let c := spot.char
    if isBreak c then skipToToken inFlow (keyAllowed || !inFlow) false rest
    else if inComment || c == ' ' || (c == '\t' && (inFlow || !keyAllowed)) ||
        (c == byteOrderMark && spot.column == 0) then
      skipToToken inFlow keyAllowed inComment rest
    else if c == '#' then skipToToken inFlow keyAllowed true rest
    else (keyAllowed, spot :: rest)

/-- The marks that cannot start a plain scalar. -/
def plainBlocked : List Char :=
  ['-', '?', ':', ',', '[', ']', '\x7b', '\x7d', '#', '&', '*', '!', '|', '>', '\'', '"', '%', '@',
   '`']

/-- Whether a plain scalar starts with a character. Some marks may start one when no gap
follows. -/
def startsPlain (inFlow : Bool) (c : Char) (rest : Spots) : Bool :=
  !(isBlank c || isBreak c || plainBlocked.contains c) ||
    (c == '-' && !(peek? rest).any isBlank) ||
    (!inFlow && (c == '?' || c == ':') && !atGap rest)

namespace Lexer

/-- Open a bracket, which may itself start a key. -/
def openFlow (spot : Spot) (token : Token) (lexer : Lexer) : Except Fault Lexer := do
  let lexer ← lexer.rememberKey spot
  return { lexer.add token with flowKeys := none :: lexer.flowKeys, keyAllowed := true }

def closeFlow (token : Token) (lexer : Lexer) : Except Fault Lexer := do
  let lexer ← lexer.forgetKey
  return { lexer.add token with flowKeys := lexer.flowKeys.tail, keyAllowed := false }

/-- A comma. -/
def flowEntry (lexer : Lexer) : Except Fault Lexer := do
  let lexer ← lexer.forgetKey
  return (lexer.add .flowEntry).allowKey true

/-- A mark in block style may stand only where a key may start. -/
def openMarked (spot : Spot) (token : Token) (lexer : Lexer) : Except Fault Lexer :=
  if lexer.inFlow then .ok lexer
  else if lexer.keyAllowed then .ok (lexer.openBlock spot.column none token)
  else .error .key

/-- A hyphen. -/
def blockEntry (spot : Spot) (lexer : Lexer) : Except Fault Lexer := do
  let opened ← lexer.openMarked spot .blockSequenceStart
  let lexer ← opened.forgetKey
  return (lexer.add .blockEntry).allowKey true

/-- A question mark. -/
def explicitKey (spot : Spot) (lexer : Lexer) : Except Fault Lexer := do
  let opened ← lexer.openMarked spot .blockMappingStart
  let lexer ← opened.forgetKey
  return (lexer.add .key).allowKey (!lexer.inFlow)

/-- A colon: it makes the remembered place a key, or belongs to a key with a mark of its
own. -/
def value (spot : Spot) (lexer : Lexer) : Except Fault Lexer :=
  match lexer.keyPlace? with
  | some place =>
    let keyed := (lexer.insert place.position .key).openBlock place.column (some place.position)
      .blockMappingStart
    .ok (((keyed.setKeyPlace none).allowKey false).add .value)
  | none => do
    let opened ← lexer.openMarked spot .blockMappingStart
    return (opened.allowKey (!lexer.inFlow)).add .value

/-- Something that may start a key and is read by itself. -/
def keyable (spot : Spot) (token : Token) (lexer : Lexer) : Except Fault Lexer := do
  let lexer ← lexer.rememberKey spot
  return (lexer.add token).allowKey false

/-- Something that stands outside of all collections. -/
def topLevel (token : Token) (lexer : Lexer) : Except Fault Lexer := do
  let lexer ← (lexer.closeBlocks (-1)).forgetKey
  return (lexer.add token).allowKey false

/-- A scalar that was read, with or without the right to start a key. -/
def scalar (spot : Spot) (isPlain : Bool) (read : ScalarRead) (lexer : Lexer) :
    Except Fault (Lexer × Spots) := do
  let keyed ← lexer.keyable spot (.scalar isPlain (String.ofList read.text))
  return (if read.lineEnded then keyed.allowKey true else keyed, read.rest)

/-- Read the next token, which starts at `spot`. -/
def next (lexer : Lexer) (spot : Spot) (rest : Spots) : Except Fault (Lexer × Spots) := do
  let input := spot :: rest
  let c := spot.char
  if spot.column == 0 && c == '%' then
    let (token, rest) ← readDirective rest
    return (← lexer.topLevel token, rest)
  else if isMarkLine '-' input then return (← lexer.topLevel .documentStart, rest.drop 2)
  else if isMarkLine '.' input then return (← lexer.topLevel .documentEnd, rest.drop 2)
  else if c == '[' then return (← lexer.openFlow spot .flowSequenceStart, rest)
  else if c == '\x7b' then return (← lexer.openFlow spot .flowMappingStart, rest)
  else if c == ']' then return (← lexer.closeFlow .flowSequenceEnd, rest)
  else if c == '\x7d' then return (← lexer.closeFlow .flowMappingEnd, rest)
  else if c == ',' then return (← lexer.flowEntry, rest)
  else if c == '-' && atGap rest then return (← lexer.blockEntry spot, rest)
  else if c == '?' && (lexer.inFlow || atGap rest) then return (← lexer.explicitKey spot, rest)
  else if c == ':' && (lexer.inFlow || atGap rest) then return (← lexer.value spot, rest)
  else if c == '*' then
    let (name, rest) ← readAnchor rest
    return (← lexer.keyable spot (.alias name), rest)
  else if c == '&' then
    let (name, rest) ← readAnchor rest
    return (← lexer.keyable spot (.anchor name), rest)
  else if c == '!' then
    let (tag, rest) ← readTag lexer.inFlow input
    return (← lexer.keyable spot (.tag tag), rest)
  else if (c == '|' || c == '>') && !lexer.inFlow then
    let lexer ← lexer.forgetKey
    let read ← readBlock (c == '|') lexer.indent rest
    return ((lexer.add (.scalar false (String.ofList read.text))).allowKey true, read.rest)
  else if c == '\'' then lexer.scalar spot false (← singleFrom [] .none rest)
  else if c == '"' then lexer.scalar spot false (← doubleFrom [] .none rest)
  else if startsPlain lexer.inFlow c rest then
    lexer.scalar spot true (← readPlain lexer.indent lexer.inFlow input)
  else .error .character

/-- The tokens of the rest of a text; `fuel` bounds their number. -/
def tokensFrom : Nat → Lexer → Spots → Except Fault Lexer
  | 0, lexer, _ => .ok lexer
  | fuel + 1, lexer, input =>
    let (keyAllowed, input) := skipToToken lexer.inFlow lexer.keyAllowed false input
    let lexer := lexer.allowKey keyAllowed
    match input with
    | [] => (lexer.closeBlocks (-1)).forgetKey
    | spot :: rest => do
      let lexer ← lexer.forgetStale spot
      let (lexer, rest) ← (lexer.closeBlocks spot.column).next spot rest
      tokensFrom fuel lexer rest

end Lexer

def tokens (text : String) : Except Fault (List Token) := do
  let chars := text.toList
  if !chars.all isAllowed then .error .character
  else
    let lexer ← Lexer.tokensFrom (chars.length + 1) .initial (locate chars)
    return lexer.latestFirst.reverse

end ServantGen.Yaml
