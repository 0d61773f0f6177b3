import ServantGen.Text.Split
import ServantGen.Toml.Value

/-!
# Reading TOML

A document is a list of lines: headers, keys with values, comments and empty lines. Values
may nest to a fixed depth, so the recursion of `value` is on the levels that remain; the other
loops are recursions on the text or on a `bound` that is larger than the length of the whole
text.
-/

namespace ServantGen.Toml

namespace Reader

/-! ## Blanks, comments and line ends -/

/-- The blanks inside a line. -/
def isSpace (c : Char) : Bool :=
  c == ' ' || c == '\t'

def skipSpace (text : List Char) : List Char :=
  text.dropWhile isSpace

/-- Whether comments and strings may hold a character. -/
def isPrintable (c : Char) : Bool :=
  c == '\t' || (c.toNat ≥ 0x20 && c.toNat ≠ 0x7F)

def skipComment (text : List Char) : List Char :=
  match text with
  | '#' :: rest => rest.dropWhile isPrintable
  | _ => text

def lineEnd? : List Char → Option (List Char)
  | '\n' :: rest => some rest
  | '\r' :: '\n' :: rest => some rest
  | _ => none

/-- Go past the rest of a line, on which only a comment may stand. -/
def endLine (text : List Char) : Except Fault (List Char) :=
  match skipComment (skipSpace text) with
  | [] => .ok []
  | rest => match lineEnd? rest with
    | some rest => .ok rest
    | none => .error .syntaxError

/-- The text after blanks, comments and line ends. -/
def skipLines (inComment : Bool) : List Char → List Char
  | [] => []
  | '\n' :: rest => skipLines false rest
  | '\r' :: '\n' :: rest => skipLines false rest
  | c :: rest =>
    if inComment then if isPrintable c then skipLines true rest else c :: rest
    else if c == '#' then skipLines true rest
    else if isSpace c then skipLines false rest
    else c :: rest

/-- The text after blanks, comments and line ends, from outside a comment. -/
def nextToken (text : List Char) : List Char :=
  skipLines false text

/-! ## Strings -/

def hexDigit? (c : Char) : Option Nat :=
  if c.isDigit then some (c.toNat - '0'.toNat)
  else if 'a' ≤ c && c ≤ 'f' then some (c.toNat - 'a'.toNat + 10)
  else if 'A' ≤ c && c ≤ 'F' then some (c.toNat - 'A'.toNat + 10)
  else none

/-- The character whose number is written in the next digits. -/
def numberedChar (count : Nat) (text : List Char) : Except Fault (Char × List Char) :=
  let digits := text.take count
  match digits.foldlM (fun value c => (hexDigit? c).map (16 * value + ·)) 0 with
  | some value =>
    if digits.length = count && (value < 0xD800 || (0xDFFF < value && value < 0x110000)) then
      .ok (Char.ofNat value, text.drop count)
    else .error .syntaxError
  | none => .error .syntaxError

def escape (text : List Char) : Except Fault (Char × List Char) :=
  match text with
  | 'b' :: rest => .ok ('\x08', rest)
  | 'e' :: rest => .ok ('\x1b', rest)
  | 't' :: rest => .ok ('\t', rest)
  | 'n' :: rest => .ok ('\n', rest)
  | 'f' :: rest => .ok ('\x0c', rest)
  | 'r' :: rest => .ok ('\r', rest)
  | '"' :: rest => .ok ('"', rest)
  | '\\' :: rest => .ok ('\\', rest)
  | 'x' :: rest => numberedChar 2 rest
  | 'u' :: rest => numberedChar 4 rest
  | 'U' :: rest => numberedChar 8 rest
  | _ => .error .syntaxError

/-- A string on one line behind its opening quote; with escapes in double quotes. `fuel`
bounds the length and `read` is what was read, latest first. -/
def lineString (quote : Char) : Nat → List Char → List Char → Except Fault (String × List Char)
  | 0, _, _ => .error .syntaxError
  | _, _, [] => .error .syntaxError
  | fuel + 1, read, c :: rest =>
    if c = quote then .ok (String.ofList read.reverse, rest)
    else if c = '\\' && quote = '"' then do
      let (c, rest) ← escape rest
      lineString quote fuel (c :: read) rest
    else if isPrintable c then lineString quote fuel (c :: read) rest
    else .error .syntaxError

/-- How many quotes are next. -/
def quoteCount (quote : Char) (text : List Char) : Nat :=
  (text.takeWhile (· == quote)).length

/-- The text after blanks and line ends. -/
def skipBlankLines : List Char → List Char
  | '\n' :: rest => skipBlankLines rest
  | '\r' :: '\n' :: rest => skipBlankLines rest
  | c :: rest => if isSpace c then skipBlankLines rest else c :: rest
  | [] => []

/-- The text after a backslash at the end of a line: blanks and line ends are dropped, and
there must be a line end among them. -/
def continued? (text : List Char) : Option (List Char) :=
  (lineEnd? (skipSpace text)).map skipBlankLines

/-- A string of several lines behind its opening quotes. Three quotes end it, with up to two
more that belong to it. Line ends stay as they are written. -/
def longString (quote : Char) : Nat → List Char → List Char → Except Fault (String × List Char)
  | 0, _, _ => .error .syntaxError
  | _, _, [] => .error .syntaxError
  | fuel + 1, read, text@(c :: rest) =>
    if c = quote then
      let count := quoteCount quote text
      if count ≥ 3 then
        let inner := min (count - 3) 2
        .ok (String.ofList (List.replicate inner quote ++ read).reverse, text.drop (inner + 3))
      else longString quote fuel (List.replicate count quote ++ read) (text.drop count)
    else if c = '\\' && quote = '"' then
      match continued? rest with
      | some rest => longString quote fuel read rest
      | none => do
        let (c, rest) ← escape rest
        longString quote fuel (c :: read) rest
    else match text with
      | '\r' :: '\n' :: rest => longString quote fuel ('\n' :: '\r' :: read) rest
      | _ =>
        if c = '\n' || isPrintable c then longString quote fuel (c :: read) rest
        else .error .syntaxError

def string (bound : Nat) (quote : Char) (text : List Char) : Except Fault (String × List Char) :=
  if quoteCount quote text ≥ 3 then
    let rest := text.drop 3
    longString quote bound [] ((lineEnd? rest).getD rest)
  else lineString quote bound [] (text.drop 1)

/-! ## Keys -/

/-- Whether a character may stand in a key without quotes. -/
def isBare (c : Char) : Bool :=
  c.isAlphanum || c == '_' || c == '-'

def keyPart (bound : Nat) (text : List Char) : Except Fault (String × List Char) :=
  match text with
  | c :: _ =>
    if c = '"' || c = '\'' then lineString c bound [] (text.drop 1)
    else
      let name := text.takeWhile isBare
      if name.isEmpty then .error .syntaxError
      else .ok (String.ofList name, text.dropWhile isBare)
  | [] => .error .syntaxError

/-- A key: parts with dots between them, at most so many. -/
def keyFrom (bound : Nat) : Nat → List Char → Except Fault (List String × List Char)
  | 0, _ => .error .tooDeep
  | parts + 1, text => do
    let (part, rest) ← keyPart bound (skipSpace text)
    match skipSpace rest with
    | '.' :: rest =>
      let (others, rest) ← keyFrom bound parts rest
      return (part :: others, rest)
    | rest => return ([part], rest)

def maxKeyParts : Nat := 80

def key (bound : Nat) (text : List Char) : Except Fault (List String × List Char) :=
  keyFrom bound maxKeyParts text

/-! ## Numbers, dates and words -/

/-- Whether digits of a kind are written with single underscores between them. -/
def isGrouped (isDigit : Char → Bool) (digits : List Char) : Bool :=
  let groups := (digits.splitBy fun a b => (a == '_') == (b == '_'))
  !digits.isEmpty && digits.head? ≠ some '_' && digits.getLast? ≠ some '_' &&
    groups.all fun group => group == ['_'] || group.all isDigit

/-- Whether digits are a decimal integer: no leading zero. -/
def isDecimal (digits : List Char) : Bool :=
  isGrouped Char.isDigit digits && (digits.head? ≠ some '0' || digits.length == 1)

def digitsValue (base : Nat) (digits : List Char) : Nat :=
  (digits.filterMap hexDigit?).foldl (fun value d => base * value + d) 0

/-- The text without a sign. -/
def unsigned : List Char → List Char
  | '-' :: rest | '+' :: rest => rest
  | text => text

/-- Whether a character is a digit of any base. -/
def isAnyDigit (c : Char) : Bool :=
  (hexDigit? c).isSome

/-- Whether a word starts like a decimal integer with underscores in it. Up to the first
underscore stand a sign and digits without a leading zero. Behind it a character is looked at
only where it touches an underscore: there must be a digit. A space, a point or the mark of an
exponent makes no integer. -/
def isUnderscored (word : List Char) : Bool :=
  match Text.splitBy (· == '_') word with
  | first :: second :: others =>
    let later := second :: others
    !word.any [' ', '.', 'e', 'E'].contains && !(first :: later).any List.isEmpty &&
      (unsigned first).all Char.isDigit && (unsigned first).head? ≠ some '0' &&
      later.all (fun part => part.head?.any isAnyDigit) &&
      (first :: later).dropLast.all (fun part => part.getLast?.any isAnyDigit)
  | _ => false

/-- Whether digits of a base are written behind the mark of the base; there may be none. -/
def isBased (isDigit : Char → Bool) (digits : List Char) : Bool :=
  digits.isEmpty || isGrouped isDigit digits

def isInteger (word : List Char) : Bool :=
  match word with
  | '0' :: 'x' :: digits => isBased isAnyDigit digits
  | '0' :: 'o' :: digits => isBased (fun c => '0' ≤ c && c ≤ '7') digits
  | '0' :: 'b' :: digits => isBased (fun c => c == '0' || c == '1') digits
  | _ => isDecimal (unsigned word) || isUnderscored word

def isFloat (word : List Char) : Bool :=
  let digits := unsigned word
  let isMark (c : Char) := c == 'e' || c == 'E'
  let mantissa := digits.takeWhile (!isMark ·)
  let exponent := digits.drop (mantissa.length + 1)
  let hasExponent := mantissa.length < digits.length
  let whole := mantissa.takeWhile (· ≠ '.')
  let fraction := mantissa.drop (whole.length + 1)
  let hasFraction := whole.length < mantissa.length
  digits == "inf".toList || digits == "nan".toList ||
    (isDecimal whole && (hasFraction || hasExponent) &&
      (!hasFraction || isGrouped Char.isDigit fraction) &&
      (!hasExponent || isGrouped Char.isDigit (unsigned exponent)))

/-- Two decimal digits as a number, if they are in a range. -/
def twoDigits? (low high : Nat) : List Char → Option (List Char)
  | a :: b :: rest =>
    if a.isDigit && b.isDigit then
      let value := digitsValue 10 [a, b]
      if low ≤ value && value ≤ high then some rest else none
    else none
  | _ => none

/-- The text after a mark. -/
def mark? (c : Char) : List Char → Option (List Char)
  | d :: rest => if c == d then some rest else none
  | [] => none

def daysIn (year month : Nat) : Nat :=
  if month == 2 then
    if year % 4 == 0 && (year % 100 ≠ 0 || year % 400 == 0) then 29 else 28
  else if [4, 6, 9, 11].contains month then 30
  else 31

def date? (text : List Char) : Option (List Char) := do
  let year := text.take 4
  if year.length < 4 || !year.all Char.isDigit then none
  else
    let rest ← mark? '-' (text.drop 4)
    let afterMonth ← twoDigits? 1 12 rest
    let day ← mark? '-' afterMonth
    twoDigits? 1 (daysIn (digitsValue 10 year) (digitsValue 10 (rest.take 2))) day

def seconds? (text : List Char) : Option (List Char) := do
  match ← twoDigits? 0 60 text with
  | '.' :: fraction =>
    if fraction.head?.any Char.isDigit then some (fraction.dropWhile Char.isDigit) else none
  | rest => some rest

/-- The text after a time of day. Seconds may be left out. -/
def time? (text : List Char) : Option (List Char) := do
  let rest ← twoDigits? 0 23 text
  let rest ← mark? ':' rest
  match ← twoDigits? 0 59 rest with
  | ':' :: rest => seconds? rest
  | rest => some rest

/-- Whether a text is empty or an offset from universal time. -/
def isOffset (text : List Char) : Bool :=
  match text with
  | [] => true
  | ['Z'] | ['z'] => true
  | sign :: rest =>
    (sign == '+' || sign == '-') &&
      ((do
        let rest ← twoDigits? 0 23 rest
        let rest ← mark? ':' rest
        twoDigits? 0 59 rest) == some [])

/-- Whether a word is a date, a time, or both. -/
def isMoment (word : List Char) : Bool :=
  match date? word with
  | some [] => true
  | some (c :: rest) =>
    (c == 'T' || c == 't' || c == ' ') &&
      match time? rest with
      | some rest => isOffset rest
      | none => false
  | none => time? word == some []

/-- Whether a character belongs to a value without quotes: all but blanks, line ends and the
marks between values do. -/
def isWordChar (c : Char) : Bool :=
  !([' ', '\t', '\n', '\r', '=', ',', '[', ']', '\x7b', '\x7d', '#'].contains c)

/-- Whether a character opens a string. -/
def isQuote (c : Char) : Bool :=
  c == '"' || c == '\''

/-- The word at the start of a text and what comes behind it. Blanks belong to a word when it
goes on behind them, as between a date and a time; a string does not continue a word. `read` and
`blanks` are what was read, latest first. -/
def wordFrom (read blanks : List Char) : List Char → List Char × List Char
  | [] => (read.reverse, blanks.reverse)
  | c :: rest =>
    if isSpace c then wordFrom read (c :: blanks) rest
    else if isWordChar c && (blanks.isEmpty || !isQuote c) then
      wordFrom (c :: (blanks ++ read)) [] rest
    else (read.reverse, blanks.reverse ++ c :: rest)

/-- The word at the start of a text and what comes behind it. -/
def word (text : List Char) : List Char × List Char :=
  wordFrom [] [] text

/-- A text is cut into its first word and the rest; nothing is lost. -/
theorem wordFrom_append (read blanks text : List Char) :
    (wordFrom read blanks text).1 ++ (wordFrom read blanks text).2 =
      read.reverse ++ (blanks.reverse ++ text) := by
  fun_induction wordFrom read blanks text <;> simp_all

/-- A value without quotes or brackets. -/
def wordValue (text : List Char) : Except Fault (Toml × List Char) :=
  let (first, rest) := word text
  let name := String.ofList first
  if name = "true" then .ok (.bool true, rest)
  else if name = "false" then .ok (.bool false, rest)
  else if isFloat first then .ok (.float name, rest)
  else if isMoment first then .ok (.moment name, rest)
  else if isInteger first then .ok (.integer name, rest)
  else .error .syntaxError

/-! ## Values -/

/-- The items of an array, each with a comma behind it except perhaps the last. -/
def arrayItems (item : List Char → Except Fault (Toml × List Char)) :
    Nat → List Toml → List Char → Except Fault (Toml × List Char)
  | 0, _, _ => .error .syntaxError
  | fuel + 1, read, text => do
    match nextToken text with
    | ']' :: rest => return (.array read.reverse, rest)
    | start =>
      let (value, rest) ← item start
      match nextToken rest with
      | ',' :: rest => arrayItems item fuel (value :: read) rest
      | ']' :: rest => return (.array (value :: read).reverse, rest)
      | _ => .error .syntaxError

/-- The entries of a table in braces, each with a comma behind it except perhaps the last.
Lines may end everywhere but inside a key. -/
def inlineEntries (bound : Nat) (item : List Char → Except Fault (Toml × List Char)) :
    Nat → DraftTable → List Char → Except Fault (Toml × List Char)
  | 0, _, _ => .error .syntaxError
  | fuel + 1, entries, text => do
    match nextToken text with
    | '\x7d' :: rest => return (.table (Draft.finishEntries entries), rest)
    | start =>
      let (keys, rest) ← key bound start
      match nextToken rest with
      | '=' :: rest =>
        let (value, rest) ← item (nextToken rest)
        let entries ← DraftTable.defineAt keys value entries
        match nextToken rest with
        | ',' :: rest => inlineEntries bound item fuel entries rest
        | '\x7d' :: rest => return (.table (Draft.finishEntries entries), rest)
        | _ => .error .syntaxError
      | _ => .error .syntaxError

/-- A value that may nest so many levels. -/
def value (bound : Nat) : Nat → List Char → Except Fault (Toml × List Char)
  | levels, text =>
    match text with
    | '"' :: _ => do
      let (content, rest) ← string bound '"' text
      return (.string content, rest)
    | '\'' :: _ => do
      let (content, rest) ← string bound '\'' text
      return (.string content, rest)
    | '[' :: rest =>
      match levels with
      | 0 => .error .tooDeep
      | levels + 1 => arrayItems (value bound levels) bound [] rest
    | '\x7b' :: rest =>
      match levels with
      | 0 => .error .tooDeep
      | levels + 1 => inlineEntries bound (value bound levels) bound [] rest
    | _ => wordValue text

/-- How deep values may nest. -/
def maxNesting : Nat := 80

/-! ## Documents -/

/-- A document that is being read: its tables, and the path of the one that keys go to. -/
structure Progress where
  root : DraftTable
  current : List String

/-- Open a table by a function of its last key. -/
def openAt (action : String → DraftTable → Except Fault DraftTable) (keys : List String)
    (root : DraftTable) : Except Fault Progress :=
  match keys.getLast? with
  | none => .error .syntaxError
  | some last => do
    let root ← DraftTable.within false (action last) keys.dropLast root
    return ⟨root, keys⟩

def header (bound : Nat) (progress : Progress) (text : List Char) :
    Except Fault (Progress × List Char) := do
  match text with
  | '[' :: rest =>
    let (keys, rest) ← key bound rest
    match rest with
    | ']' :: ']' :: rest => return (← openAt DraftTable.openElement keys progress.root, rest)
    | _ => .error .syntaxError
  | _ =>
    let (keys, rest) ← key bound text
    match rest with
    | ']' :: rest => return (← openAt DraftTable.openTable keys progress.root, rest)
    | _ => .error .syntaxError

def assignment (bound : Nat) (progress : Progress) (text : List Char) :
    Except Fault (Progress × List Char) := do
  let (keys, rest) ← key bound text
  match rest with
  | '=' :: rest =>
    let (content, rest) ← value bound maxNesting (skipSpace rest)
    let root ← DraftTable.within false (DraftTable.defineAt keys content) progress.current
      progress.root
    return ({ progress with root }, rest)
  | _ => .error .syntaxError

/-- The lines of a document; `fuel` bounds their number. -/
def documentLines (bound : Nat) : Nat → Progress → List Char → Except Fault Progress
  | 0, progress, _ => .ok progress
  | fuel + 1, progress, text =>
    match nextToken text with
    | [] => .ok progress
    | '[' :: rest => do
      let (progress, rest) ← header bound progress rest
      documentLines bound fuel progress (← endLine rest)
    | start => do
      let (progress, rest) ← assignment bound progress start
      documentLines bound fuel progress (← endLine rest)

end Reader

/-- The mark that may open a text. -/
def byteOrderMark : Char := '\uFEFF'

def parse (text : String) : Except Fault Toml := do
  let chars := match text.toList with
    | c :: rest => if c == byteOrderMark then rest else c :: rest
    | [] => []
  let bound := chars.length + 1
  let progress ← Reader.documentLines bound bound ⟨[], []⟩ chars
  return .table (Draft.finishEntries progress.root)

end ServantGen.Toml
