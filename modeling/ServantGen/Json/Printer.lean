import ServantGen.Json.Basic
import ServantGen.Text.Split

/-!
# Writing JSON

Two layouts: everything on one line without blanks, and one member or item per line with
two blanks of indentation for each level. Strings escape the quote, the backslash and the
control characters; everything else is written as it is.
-/

namespace ServantGen

namespace Number

/-- A number as text. A floating-point number that is not finite has no spelling and is
written `null`. -/
def write : Number → String
  | .int (.ofNat n) => Text.decimal n
  | .int (.negSucc n) => "-" ++ Text.decimal (n + 1)
  | .double x => if x.isFinite then x.write else "null"

end Number

namespace Json

def hexDigit (n : Nat) : Char :=
  if n < 10 then Char.ofNat ('0'.toNat + n) else Char.ofNat ('a'.toNat + (n - 10))

def escapeChar (c : Char) : List Char :=
  match c with
  | '"' => ['\\', '"']
  | '\\' => ['\\', '\\']
  | '\n' => ['\\', 'n']
  | '\r' => ['\\', 'r']
  | '\t' => ['\\', 't']
  | '\x08' => ['\\', 'b']
  | '\x0c' => ['\\', 'f']
  | c =>
    if c.toNat < 0x20 then
      ['\\', 'u', '0', '0', hexDigit (c.toNat / 16), hexDigit (c.toNat % 16)]
    else [c]

def quote (text : String) : String :=
  String.ofList ('"' :: text.toList.flatMap escapeChar ++ ['"'])

mutual

def compact : Json → String
  | .null => "null"
  | .bool true => "true"
  | .bool false => "false"
  | .number n => n.write
  | .string text => quote text
  | .array items => "[" ++ Text.join "," (compactItems items) ++ "]"
  | .object fields => "\x7b" ++ Text.join "," (compactFields fields) ++ "\x7d"

def compactItems : List Json → List String
  | [] => []
  | item :: items => item.compact :: compactItems items

def compactFields : List (String × Json) → List String
  | [] => []
  | (key, value) :: fields => (quote key ++ ":" ++ value.compact) :: compactFields fields

end

/-- Two blanks for each level. -/
def margin (level : Nat) : String :=
  Text.replicate level "  "

/-- Parts on lines of their own between brackets; nothing between the brackets when there
are no parts. -/
def bracketed (left right : String) (level : Nat) (parts : List String) : String :=
  if parts.isEmpty then left ++ right
  else
    left ++ "\n" ++ Text.join ",\n" (parts.map (margin (level + 1) ++ ·)) ++ "\n" ++
      margin level ++ right

mutual

/-- A tree over several lines, starting at an indentation level. -/
def prettyAt (level : Nat) : Json → String
  | .array items => bracketed "[" "]" level (prettyItems (level + 1) items)
  | .object fields => bracketed "\x7b" "\x7d" level (prettyFields (level + 1) fields)
  | .null => "null"
  | .bool value => compact (.bool value)
  | .number n => n.write
  | .string text => quote text

def prettyItems (level : Nat) : List Json → List String
  | [] => []
  | item :: items => item.prettyAt level :: prettyItems level items

def prettyFields (level : Nat) : List (String × Json) → List String
  | [] => []
  | (key, value) :: fields =>
    (quote key ++ ": " ++ value.prettyAt level) :: prettyFields level fields

end

def pretty (json : Json) : String :=
  json.prettyAt 0

end Json

end ServantGen
