import ServantGen.Json.Basic
import ServantGen.Text.Split

/-!
# Reading JSON

A reader of strict JSON that tells where and why it stops. `Json.parse` answers a tree or a
`Fault`: a cause and the number of bytes read until then, from which line and column follow.
Nesting is limited, so the recursion of `value` is on the levels that remain; the loops over
digits are recursions on the text, and those over characters, items and members on a `bound`
that is larger than the length of the whole text.

Numbers: an integer that fits 64 bits stays an integer. Any other number takes its leading
digits as far as they fit an unsigned word and scales them once by a rounded power of ten,
so a literal with very many digits may be off by a unit in the last place.
-/

namespace ServantGen.Json

namespace Reader

/-- Why a text is not JSON. -/
inductive Cause where
  | endInArray
  | endInObject
  | endInString
  | endInValue
  | expectedColon
  | expectedCommaOrBracket
  | expectedCommaOrBrace
  | expectedWord
  | expectedValue
  | invalidEscape
  | invalidNumber
  | numberTooLarge
  | controlCharacter
  | keyNotString
  | loneSurrogate
  | trailingComma
  | trailingText
  | cutEscape
  | tooDeep
  deriving DecidableEq, Repr

def Cause.message : Cause → String
  | .endInArray => "EOF while parsing a list"
  | .endInObject => "EOF while parsing an object"
  | .endInString => "EOF while parsing a string"
  | .endInValue => "EOF while parsing a value"
  | .expectedColon => "expected `:`"
  | .expectedCommaOrBracket => "expected `,` or `]`"
  | .expectedCommaOrBrace => "expected `,` or `\x7d`"
  | .expectedWord => "expected ident"
  | .expectedValue => "expected value"
  | .invalidEscape => "invalid escape"
  | .invalidNumber => "invalid number"
  | .numberTooLarge => "number out of range"
  | .controlCharacter => "control character (\\u0000-\\u001F) found while parsing a string"
  | .keyNotString => "key must be a string"
  | .loneSurrogate => "lone leading surrogate in hex escape"
  | .trailingComma => "trailing comma"
  | .trailingText => "trailing characters"
  | .cutEscape => "unexpected end of hex escape"
  | .tooDeep => "recursion limit exceeded"

def byteCount (text : List Char) : Nat :=
  text.foldl (fun n c => n + c.utf8Size) 0

/-- A stop: its cause and how many bytes of the text lie behind the place it is reported at. -/
structure Stop where
  cause : Cause
  remaining : Nat

/-- Stop at the place reached. -/
def stopAt {α : Type} (cause : Cause) (rest : List Char) : Except Stop α :=
  .error ⟨cause, byteCount rest⟩

/-- Stop one byte further on, at the byte that is looked at, or at the end of the text. -/
def stopOn {α : Type} (cause : Cause) (rest : List Char) : Except Stop α :=
  .error ⟨cause, byteCount rest - 1⟩

/-- Stop after the first byte of a character. -/
def stopPast {α : Type} (cause : Cause) (c : Char) (rest : List Char) : Except Stop α :=
  .error ⟨cause, byteCount rest + c.utf8Size - 1⟩

/-- The blanks of JSON. -/
def isSpace (c : Char) : Bool :=
  c == ' ' || c == '\n' || c == '\t' || c == '\r'

/-- The text after leading blanks. -/
def skipSpace (text : List Char) : List Char :=
  text.dropWhile isSpace

/-! ## Numbers -/

/-- The largest unsigned word. -/
def maxWord : Nat := twoTo 64 - 1

/-- The largest exponent that is counted exactly. -/
def maxExponent : Nat := twoTo 31 - 1

/-- Take leading digits as long as the number they make fits an unsigned word: the number,
how many digits were taken and the text left. -/
def takeDigits (value taken : Nat) : List Char → Nat × Nat × List Char
  | [] => (value, taken, [])
  | c :: rest =>
    match Text.digit? c with
    | none => (value, taken, c :: rest)
    | some d =>
      if value * 10 + d ≤ maxWord then takeDigits (value * 10 + d) (taken + 1) rest
      else (value, taken, c :: rest)

def skipDigits (text : List Char) : Nat × List Char :=
  ((text.takeWhile Char.isDigit).length, text.dropWhile Char.isDigit)

/-- Scale a magnitude by a power of ten: one rounded product or quotient with a rounded
power, after quotients by the largest power as long as the exponent is out of reach.
Nothing when the result would be infinite. -/
def scaleByTen : Nat → Double → Int → Option Double
  | 0, x, _ => some x
  | fuel + 1, x, exponent =>
    if exponent.natAbs ≤ 308 then
      let power := Double.ofNat (tenTo exponent.natAbs)
      if exponent ≥ 0 then
        let scaled := x.mul power
        if scaled.isFinite then some scaled else none
      else some (x.div power)
    else if x.magnitude = 0 then some x
    else if exponent ≥ 0 then none
    else scaleByTen fuel (x.div (Double.ofNat (tenTo 308))) (exponent + 308)

/-- The number `digits * 10 ^ exponent` with a sign. -/
def doubleOf (negative : Bool) (digits : Nat) (exponent : Int) (rest : List Char) :
    Except Stop (Number × List Char) :=
  match scaleByTen 8 (Double.ofNat digits) exponent with
  | none => stopAt .numberTooLarge rest
  | some x => .ok (.double (if negative then x.negate else x), rest)

/-- Read the digits of an exponent, of which `value` is known; an exponent that cannot be
counted makes the number zero or too large. -/
def exponentDigits (negative isZero down : Bool)
    (finish : Nat → List Char → Except Stop (Number × List Char))
    (value : Nat) : List Char → Except Stop (Number × List Char)
  | [] => finish value []
  | c :: rest =>
    match Text.digit? c with
    | none => finish value (c :: rest)
    | some d =>
      if value * 10 + d ≤ maxExponent then
        exponentDigits negative isZero down finish (value * 10 + d) rest
      else if !isZero && !down then stopAt .numberTooLarge rest
      else
        let zero : Double := ⟨0⟩
        .ok (.double (if negative then zero.negate else zero), (skipDigits rest).2)

def exponent (negative : Bool) (digits : Nat) (start : Int) (text : List Char) :
    Except Stop (Number × List Char) :=
  let (down, text) := match text with
    | '+' :: rest => (false, rest)
    | '-' :: rest => (true, rest)
    | _ => (false, text)
  match text with
  | [] => stopAt .endInValue []
  | c :: rest =>
    match Text.digit? c with
    | none => stopPast .invalidNumber c rest
    | some d =>
      let finish (value : Nat) (rest : List Char) : Except Stop (Number × List Char) :=
        let shifted := if down then start - value else start + value
        let bound : Int := maxExponent
        doubleOf negative digits (max (-bound - 1) (min bound shifted)) rest
      exponentDigits negative (digits = 0) down finish d rest

/-- Finish a number whose digits and decimal places are known. -/
def afterDigits (negative : Bool) (digits : Nat) (places : Int) (text : List Char) :
    Except Stop (Number × List Char) :=
  match text with
  | 'e' :: rest | 'E' :: rest => exponent negative digits places rest
  | _ => doubleOf negative digits places text

/-- Read the part of a number after its point; `start` is the exponent of the digits so far. -/
def fraction (negative : Bool) (digits : Nat) (start : Int) (text : List Char) :
    Except Stop (Number × List Char) :=
  let (value, taken, rest) := takeDigits digits 0 text
  let places := start - taken
  match rest with
  | c :: _ =>
    if c.isDigit then afterDigits negative value places (skipDigits rest).2
    else if taken = 0 then stopOn .invalidNumber rest
    else afterDigits negative value places rest
  | [] => if taken = 0 then stopOn .endInValue [] else doubleOf negative value places []

/-- Read what follows the digits of an integer that fit a word. -/
def afterInteger (negative : Bool) (digits : Nat) (text : List Char) :
    Except Stop (Number × List Char) :=
  match text with
  | '.' :: rest => fraction negative digits 0 rest
  | 'e' :: rest | 'E' :: rest => exponent negative digits 0 rest
  | _ =>
    if !negative then .ok (.int digits, text)
    else if digits = 0 || digits > twoTo 63 then .ok (.double (Double.ofNat digits).negate, text)
    else .ok (.int (-digits), text)

/-- Read what follows the digits of an integer that fit a word when more digits follow. -/
def longInteger (negative : Bool) (digits : Nat) (text : List Char) :
    Except Stop (Number × List Char) :=
  let (count, rest) := skipDigits text
  match rest with
  | '.' :: rest => fraction negative digits count rest
  | _ => afterDigits negative digits count rest

def number (negative : Bool) (text : List Char) : Except Stop (Number × List Char) :=
  match text with
  | [] => stopAt .endInValue []
  | '0' :: rest =>
    match rest with
    | c :: _ => if c.isDigit then stopOn .invalidNumber rest else afterInteger negative 0 rest
    | [] => afterInteger negative 0 []
  | c :: rest =>
    if !c.isDigit then stopPast .invalidNumber c rest
    else
      let (value, _, rest) := takeDigits 0 0 (c :: rest)
      match rest with
      | d :: _ => if d.isDigit then longInteger negative value rest
                  else afterInteger negative value rest
      | [] => afterInteger negative value []

/-! ## Strings -/

def hexValue? (c : Char) : Option Nat :=
  if c.isDigit then some (c.toNat - '0'.toNat)
  else if 'a' ≤ c && c ≤ 'f' then some (c.toNat - 'a'.toNat + 10)
  else if 'A' ≤ c && c ≤ 'F' then some (c.toNat - 'A'.toNat + 10)
  else none

/-- Read four hexadecimal digits. Four bytes count as read even if they are no digits. -/
def fourHex (text : List Char) : Except Stop (Nat × List Char) :=
  let digits := (text.take 4).map hexValue?
  match digits with
  | [some a, some b, some c, some d] => .ok (((a * 16 + b) * 16 + c) * 16 + d, text.drop 4)
  | _ =>
    let size := byteCount text
    if size < 4 then stopAt .endInString [] else .error ⟨.invalidEscape, size - 4⟩

/-- Read the second half of a pair of escapes for one character, with `high` in front. -/
def pairedEscape (high : Nat) (text : List Char) : Except Stop (Char × List Char) :=
  match text with
  | [] => stopAt .endInString []
  | '\\' :: 'u' :: rest => do
    let (low, rest) ← fourHex rest
    if 0xDC00 ≤ low && low ≤ 0xDFFF then
      .ok (Char.ofNat (0x10000 + (high - 0xD800) * 0x400 + (low - 0xDC00)), rest)
    else stopAt .loneSurrogate rest
  | '\\' :: [] => stopAt .endInString []
  | '\\' :: rest => stopOn .cutEscape rest
  | _ => stopOn .cutEscape text

def escape (text : List Char) : Except Stop (Char × List Char) :=
  match text with
  | [] => stopAt .endInString []
  | '"' :: rest => .ok ('"', rest)
  | '\\' :: rest => .ok ('\\', rest)
  | '/' :: rest => .ok ('/', rest)
  | 'b' :: rest => .ok ('\x08', rest)
  | 'f' :: rest => .ok ('\x0c', rest)
  | 'n' :: rest => .ok ('\n', rest)
  | 'r' :: rest => .ok ('\r', rest)
  | 't' :: rest => .ok ('\t', rest)
  | 'u' :: rest => do
    let (code, rest) ← fourHex rest
    if 0xDC00 ≤ code && code ≤ 0xDFFF then stopAt .loneSurrogate rest
    else if 0xD800 ≤ code && code ≤ 0xDBFF then pairedEscape code rest
    else .ok (Char.ofNat code, rest)
  | c :: rest => stopPast .invalidEscape c rest

/-- Read the characters of a string after its quote, with those read so far in reverse. -/
def stringChars : Nat → List Char → List Char → Except Stop (String × List Char)
  | 0, _, text => stopAt .endInString text
  | fuel + 1, done, text =>
    match text with
    | [] => stopAt .endInString []
    | '"' :: rest => .ok (String.ofList done.reverse, rest)
    | '\\' :: rest => do
      let (c, rest) ← escape rest
      stringChars fuel (c :: done) rest
    | c :: rest =>
      if c.toNat < 0x20 then stopAt .controlCharacter rest
      else stringChars fuel (c :: done) rest

def stringBody (bound : Nat) (text : List Char) : Except Stop (String × List Char) :=
  stringChars bound [] text

/-! ## Values -/

def word (value : Json) : List Char → List Char → Except Stop (Json × List Char)
  | [], text => .ok (value, text)
  | _ :: _, [] => stopAt .endInValue []
  | expected :: more, c :: rest =>
    if c = expected then word value more rest
    else stopPast .expectedWord c rest

/-- Read the items of an array after its bracket, the first one or a later one. -/
def arrayItems (item : List Char → Except Stop (Json × List Char)) :
    Nat → Bool → List Json → List Char → Except Stop (Json × List Char)
  | 0, _, _, text => stopAt .endInArray text
  | fuel + 1, first, done, text =>
    let step (text : List Char) : Except Stop (Json × List Char) := do
      let (value, rest) ← item text
      arrayItems item fuel false (value :: done) rest
    match skipSpace text with
    | [] => stopOn .endInArray []
    | ']' :: rest => .ok (.array done.reverse, rest)
    | c :: rest =>
      if first then step (c :: rest)
      else if c = ',' then
        match skipSpace rest with
        | [] => stopOn .endInValue []
        | ']' :: rest => stopOn .trailingComma (']' :: rest)
        | rest => step rest
      else stopOn .expectedCommaOrBracket (c :: rest)

/-- Read a member of an object after the quote of its key. -/
def member (bound : Nat) (item : List Char → Except Stop (Json × List Char)) (text : List Char) :
    Except Stop ((String × Json) × List Char) := do
  let (key, rest) ← stringBody bound text
  match skipSpace rest with
  | [] => stopOn .endInObject []
  | ':' :: rest => do
    let (value, rest) ← item rest
    .ok ((key, value), rest)
  | rest => stopOn .expectedColon rest

/-- Read the members of an object after its brace, the first one or a later one. -/
def objectMembers (bound : Nat) (item : List Char → Except Stop (Json × List Char)) :
    Nat → Bool → Entries Json → List Char → Except Stop (Json × List Char)
  | 0, _, _, text => stopAt .endInObject text
  | fuel + 1, first, done, text =>
    let step (text : List Char) : Except Stop (Json × List Char) := do
      let ((key, value), rest) ← member bound item text
      objectMembers bound item fuel false (done.put key value) rest
    match skipSpace text with
    | [] => stopOn .endInObject []
    | '}' :: rest => .ok (.object done, rest)
    | c :: rest =>
      if first then
        if c = '"' then step rest else stopOn .keyNotString (c :: rest)
      else if c = ',' then
        match skipSpace rest with
        | [] => stopOn .endInValue []
        | '"' :: rest => step rest
        | '}' :: rest => stopOn .trailingComma ('}' :: rest)
        | rest => stopOn .keyNotString rest
      else stopOn .expectedCommaOrBrace (c :: rest)

/-- Read a value when `levels` more levels of nesting are allowed. -/
def value (bound : Nat) : Nat → List Char → Except Stop (Json × List Char)
  | levels, text =>
    match skipSpace text with
    | [] => stopOn .endInValue []
    | 'n' :: rest => word .null ['u', 'l', 'l'] rest
    | 't' :: rest => word (.bool true) ['r', 'u', 'e'] rest
    | 'f' :: rest => word (.bool false) ['a', 'l', 's', 'e'] rest
    | '"' :: rest => do
      let (text, rest) ← stringBody bound rest
      .ok (.string text, rest)
    | '-' :: rest => do
      let (n, rest) ← number true rest
      .ok (.number n, rest)
    | '[' :: rest =>
      match levels with
      | 0 => stopOn .tooDeep ('[' :: rest)
      | levels + 1 => arrayItems (value bound levels) bound true [] rest
    | '{' :: rest =>
      match levels with
      | 0 => stopOn .tooDeep ('{' :: rest)
      | levels + 1 => objectMembers bound (value bound levels) bound true [] rest
    | c :: rest =>
      if c.isDigit then do
        let (n, rest) ← number false (c :: rest)
        .ok (.number n, rest)
      else stopOn .expectedValue (c :: rest)

/-- Arrays and objects may be nested this deep. -/
def maxNesting : Nat := 127

end Reader

/-- A cause and the place it was found at. -/
structure Fault where
  cause : Reader.Cause
  /-- Lines are counted from one. -/
  line : Nat
  /-- Bytes of the line that were read. -/
  column : Nat
  deriving DecidableEq, Repr

def Fault.message (fault : Fault) : String :=
  fault.cause.message ++ " at line " ++ Text.decimal fault.line ++ " column " ++
    Text.decimal fault.column

/-- The line and column that lie `index` bytes into a text. -/
def placeOf (line column : Nat) : Nat → List Char → Nat × Nat
  | _, [] => (line, column)
  | index, c :: rest =>
    if index = 0 then (line, column)
    else if index < c.utf8Size then (line, column + index)
    else if c = '\n' then placeOf (line + 1) 0 (index - 1) rest
    else placeOf line (column + c.utf8Size) (index - c.utf8Size) rest

open Reader in
/-- Read a text that holds one value and nothing else but blanks. -/
def parse (text : String) : Except Fault Json :=
  let chars := text.toList
  let whole : Except Stop Json := do
    let (json, rest) ← value (chars.length + 1) maxNesting chars
    match skipSpace rest with
    | [] => .ok json
    | rest => stopOn .trailingText rest
  match whole with
  | .ok json => .ok json
  | .error stop =>
    let (line, column) := placeOf 1 0 (byteCount chars - stop.remaining) chars
    .error ⟨stop.cause, line, column⟩

end ServantGen.Json
