import ServantGen.Yaml.Node

/-!
# JSON trees of YAML documents

A plain scalar without a tag is read by its form: nothing, a truth value, an integer, a
floating-point number or else a text. Every other scalar is a text unless its tag says what
it is. The keys of a mapping are the texts of scalars, and a key that occurs again takes the
later value.
-/

namespace ServantGen.Yaml

/-! ## Scalars by their form -/

/-- The spellings of nothing. -/
def isNull (text : String) : Bool :=
  ["null", "Null", "NULL", "~"].contains text

/-- The spellings of the truth values. -/
def bool? (text : String) : Option Bool :=
  if ["true", "True", "TRUE"].contains text then some true
  else if ["false", "False", "FALSE"].contains text then some false
  else none

/-- The number that digits of a base denote; at least one is needed. -/
def digitsIn? (base : Nat) (digits : List Char) : Option Nat :=
  if digits.isEmpty then none
  else digits.foldlM (fun value c => (hexDigit? c).bind fun d =>
    if d < base then some (base * value + d) else none) 0

/-- Whether digits with a leading zero follow an optional sign; they are no number. -/
def isPaddedNumeral (text : List Char) : Bool :=
  let digits := match text with
    | '-' :: rest | '+' :: rest => rest
    | _ => text
  digits.length > 1 && digits.head? == some '0' && digits.tail.all Char.isDigit

/-- The number that a text without sign denotes: digits behind a mark for their base, or
decimal digits. -/
def magnitude? (text : List Char) : Option Nat :=
  let based : Option Nat := match text with
    | '0' :: 'x' :: rest => digitsIn? 16 rest
    | '0' :: 'o' :: rest => digitsIn? 8 rest
    | '0' :: 'b' :: rest => digitsIn? 2 rest
    | _ => none
  based.or (if isPaddedNumeral text then none else digitsIn? 10 text)

/-- An integer with an optional sign. -/
def int? (text : List Char) : Option Int :=
  match text with
  | '-' :: rest => (magnitude? rest).map fun n => -(n : Int)
  | '+' :: rest => (magnitude? rest).map Int.ofNat
  | _ => (magnitude? text).map Int.ofNat

/-- Where an integer fits. -/
inductive IntRange where
  /-- A signed or an unsigned word. -/
  | word
  /-- Two words, which JSON does not have. -/
  | doubleWord
  | none

def rangeOf (value : Int) : IntRange :=
  if -(twoTo 63 : Int) ≤ value && value < (twoTo 64 : Int) then .word
  else if -(twoTo 127 : Int) ≤ value && value < (twoTo 128 : Int) then .doubleWord
  else .none

def takeDigits (text : List Char) : List Char × List Char :=
  (text.takeWhile Char.isDigit, text.dropWhile Char.isDigit)

/-- The exponent of a decimal number, which ends the text. -/
def exponent? (text : List Char) : Option Int :=
  match text with
  | [] => some 0
  | c :: rest =>
    if c == 'e' || c == 'E' then
      match rest with
      | '-' :: digits => (digitsIn? 10 digits).map fun n => -(n : Int)
      | '+' :: digits => (digitsIn? 10 digits).map Int.ofNat
      | digits => (digitsIn? 10 digits).map Int.ofNat
    else none

/-- The largest exponent that can matter; beyond it a number is zero or infinite. -/
def maxExponent : Int := 400

/-- The number `digits * 10 ^ exponent`, rounded to the nearest. -/
def roundedDecimal (digits : List Char) (exponent : Int) : Option Double :=
  match digitsIn? 10 digits with
  | none => none
  | some 0 => some (Double.ofNat 0)
  | some value =>
    let lead := exponent + digits.length
    if lead > maxExponent then some Double.infinity
    else if lead < -maxExponent then some (Double.ofNat 0)
    else if exponent ≥ 0 then some (Double.nearest (value * tenTo exponent.toNat) 1)
    else some (Double.nearest value (tenTo exponent.natAbs))

/-- A decimal number without sign: digits with a point anywhere among them, and an
exponent. -/
def decimal? (text : List Char) : Option Double := do
  let (whole, rest) := takeDigits text
  let (fraction, rest) := match rest with
    | '.' :: rest => takeDigits rest
    | _ => ([], rest)
  let exponent ← exponent? rest
  let digits := (whole ++ fraction).dropWhile (· == '0')
  if whole.isEmpty && fraction.isEmpty then none
  else roundedDecimal (if digits.isEmpty then ['0'] else digits) (exponent - fraction.length)

/-- The spellings of infinity and of no number. JSON has neither. -/
def isBeyondJson (text : String) : Bool :=
  [".inf", ".Inf", ".INF", "+.inf", "+.Inf", "+.INF", "-.inf", "-.Inf", "-.INF",
   ".nan", ".NaN", ".NAN"].contains text

/-- A finite floating-point number with an optional sign. -/
def double? (text : List Char) : Option Double := do
  let value ← match text with
    | '-' :: rest => (decimal? rest).map Double.negate
    | '+' :: rest => decimal? rest
    | _ => decimal? text
  if value.isFinite then some value else none

/-- A floating-point number in JSON, which has no infinity. -/
def float? (text : String) : Option Json :=
  if isBeyondJson text then some .null
  else (double? text.toList).map fun value => .number (.double value)

/-- An integer in JSON; nothing when the text is none. -/
def integer? (text : String) : Option (Except Fault Json) :=
  match int? text.toList with
  | none => none
  | some value =>
    match rangeOf value with
    | .word => some (.ok (.number (.int value)))
    | .doubleWord => some (.error .value)
    | .none => none

/-- A plain scalar by its form. -/
def plainValue (text : String) : Except Fault Json :=
  if text = "" || isNull text then .ok .null
  else match bool? text with
    | some value => .ok (.bool value)
    | none =>
      match integer? text with
      | some result => result
      | none =>
        if isPaddedNumeral text.toList then .ok (.string text)
        else .ok ((float? text).getD (.string text))

/-! ## Scalars by their tag -/

/-- Whether a tag belongs to the application: it starts with a mark. -/
def isLocalTag (tag : Octets) : Bool :=
  tag.head? == some markOctet

/-- Whether a tag names a type of the application, which JSON has no place for. A name is a
text. -/
def isLocalType (tag : Octets) : Bool :=
  isLocalTag tag && Octets.isText tag.tail

/-- A scalar without a tag: a plain one by its form, any other as a text. -/
def untaggedValue (isPlain : Bool) (text : String) : Except Fault Json :=
  if isPlain then plainValue text else .ok (.string text)

/-- A scalar as its tag says. A tag of the application without a name says nothing. -/
def taggedValue (tag : Octets) (isPlain : Bool) (text : String) : Except Fault Json :=
  if isLocalType tag then .error .value
  else if isLocalTag tag then untaggedValue isPlain text
  else if tag = commonTag "bool" then
    match bool? text with
    | some value => .ok (.bool value)
    | none => .error .value
  else if tag = commonTag "int" then (integer? text).getD (.error .value)
  else if tag = commonTag "float" then
    match float? text with
    | some value => .ok value
    | none => .error .value
  else if tag = commonTag "null" then if isNull text then .ok .null else .error .value
  else .ok (.string text)

def scalarValue (tag : Option Octets) (isPlain : Bool) (text : String) : Except Fault Json :=
  match tag with
  | some tag => taggedValue tag isPlain text
  | none => untaggedValue isPlain text

/-! ## Nodes -/

mutual

/-- How many steps it takes to walk a node: one for a scalar and two for a collection. -/
def Node.steps : Node → Nat
  | .scalar .. | .alias _ => 1
  | .sequence _ items => itemsSteps items + 2
  | .mapping _ entries => entriesSteps entries + 2

def Node.itemsSteps : List Node → Nat
  | [] => 0
  | item :: items => item.steps + itemsSteps items

def Node.entriesSteps : List (Node × Node) → Nat
  | [] => 0
  | (name, content) :: entries => name.steps + content.steps + entriesSteps entries

end

/-- How deep collections may nest, those behind aliases included. -/
def maxDepth : Nat := 128

/-- How often aliases may be followed for each step of the document. -/
def aliasesPerStep : Nat := 100

/-- Making trees: how many aliases may still be followed is counted down. -/
abbrev TreeM := StateT Nat (Except Fault)

/-- The node of an alias; every other node stands for itself. -/
def followed (anchors : List (Nat × Node)) : Node → TreeM Node
  | .alias number => do
    let left ← get
    match left, (anchors.find? (·.1 == number)).map Prod.snd with
    | 0, _ => throw .tooManyAliases
    | _, none => throw .unknownAnchor
    | left + 1, some node =>
      set left
      return node
  | node => return node

def keyText (anchors : List (Nat × Node)) (name : Node) : TreeM String := do
  match ← followed anchors name with
  | .scalar _ _ text => return text
  | _ => throw .value

/-- A collection in JSON must not have a type of the application. -/
def checkTag (tag : Option Octets) : TreeM Unit :=
  if tag.any isLocalType then throw .value else pure ()

/-- The tree of a node, with so many levels of collections left. -/
def treeOf (anchors : List (Nat × Node)) : Nat → Node → TreeM Json
  | 0, start => do
    match ← followed anchors start with
    | .scalar tag isPlain text => liftM (scalarValue tag isPlain text)
    | _ => throw .tooDeep
  | depth + 1, start => do
    match ← followed anchors start with
    | .scalar tag isPlain text => liftM (scalarValue tag isPlain text)
    | .sequence tag items =>
      checkTag tag
      return .array (← items.mapM (treeOf anchors depth))
    | .mapping tag entries =>
      checkTag tag
      let pairs ← entries.mapM fun (name, content) => do
        let key ← keyText anchors name
        return (key, ← treeOf anchors depth content)
      return .object (Entries.ofPairs pairs)
    | .alias _ => throw .unknownAnchor

def Document.toJson (document : Document) : Except Fault Json :=
  (treeOf document.anchors maxDepth document.root).run' (aliasesPerStep * document.root.steps)

def parse (text : String) : Except Fault Json := do
  let tokens ← tokens text
  let document ← Document.ofTokens tokens
  document.toJson

end ServantGen.Yaml
