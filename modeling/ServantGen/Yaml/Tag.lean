import ServantGen.Yaml.Scalar

/-!
# Tags of YAML

A tag is written as a handle and a suffix, or in full in angle brackets. Percent signs write
single octets, so a tag is a list of octets and need not be a text. The octet zero ends what is
written: nothing behind it belongs to the tag.
-/

namespace ServantGen.Yaml

abbrev Octets := List UInt8

namespace Octets

def ofAscii (text : List Char) : Octets :=
  text.map fun c => c.toNat.toUInt8

def isText (octets : Octets) : Bool :=
  (String.fromUTF8? (ByteArray.mk octets.toArray)).isSome

def beforeZero (octets : Octets) : Octets :=
  octets.takeWhile (· ≠ 0)

/-- What stands before the first zero holds none. -/
theorem zero_notMem_beforeZero (octets : Octets) : 0 ∉ octets.beforeZero := by
  induction octets with
  | nil => simp [beforeZero]
  | cons octet rest ih => by_cases h : octet = 0 <;> simp_all [beforeZero, eq_comm]

end Octets

/-- Whether a tag may hold a character. Some marks are allowed only in the full form. -/
def isTagChar (full : Bool) (c : Char) : Bool :=
  isNameChar c || [';', '/', '?', ':', '@', '&', '=', '+', '$', '.', '%', '!', '~', '*', '\'',
    '(', ')'].contains c || (full && [',', '[', ']'].contains c)

/-! ## Octets behind percent signs -/

/-- The value of two hexadecimal digits behind a percent sign. -/
def octet? : List Char → Option Nat
  | '%' :: high :: low :: _ => hexValue? [high, low]
  | _ => none

/-- How many octets a character takes whose first one is `lead`. -/
def octetCount? (lead : Nat) : Option Nat :=
  if lead < 0x80 then some 1
  else if 0xC0 ≤ lead && lead < 0xE0 then some 2
  else if 0xE0 ≤ lead && lead < 0xF0 then some 3
  else if 0xF0 ≤ lead && lead < 0xF8 then some 4
  else none

/-- Whether an octet may follow the first one of a character. -/
def isTrailing (octet : Nat) : Bool :=
  0x80 ≤ octet && octet < 0xC0

/-- The octets of a character that are written behind percent signs: a first one, which says
how many follow, and those. -/
def octetGroup? (text : List Char) : Option (List Nat) := do
  let lead ← octet? text
  let count ← octetCount? lead
  let trailing ← (List.range (count - 1)).mapM fun i => octet? (text.drop (3 * (i + 1)))
  if trailing.all isTrailing then some (lead :: trailing) else none

/-- The octets of the characters of a tag; `fuel` bounds their number. -/
def decodeTag : Nat → List Char → Except Fault Octets
  | 0, _ => .ok []
  | _, [] => .ok []
  | fuel + 1, text@(c :: rest) =>
    if c ≠ '%' then (decodeTag fuel rest).map (c.toNat.toUInt8 :: ·)
    else
      match octetGroup? text with
      | none => .error .tag
      | some octets =>
        (decodeTag fuel (text.drop (3 * octets.length))).map (octets.map Nat.toUInt8 ++ ·)

/-! ## Handles and suffixes -/

/-- A tag as it is written. A tag without handle is written in full. -/
structure WrittenTag where
  handle : String
  suffix : Octets
  deriving DecidableEq, Repr

/-- Read the characters of a tag behind those of `lead`; at least one is needed in all. The
mark that starts `lead` does not count. -/
def readTagText (full : Bool) (lead : List Char) (input : Spots) :
    Except Fault (Octets × Spots) := do
  let isTag (spot : Spot) := isTagChar full spot.char
  let raw := (input.takeWhile isTag).map Spot.char
  if raw.isEmpty && lead.isEmpty then .error .tag
  else
    let octets ← decodeTag raw.length raw
    return ((Octets.ofAscii (lead.drop 1) ++ octets).beforeZero, input.dropWhile isTag)

/-- Read a handle: an exclamation mark, and a name with another one behind it if there is. -/
def readHandle (input : Spots) : List Char × Spots :=
  let isName (spot : Spot) := isNameChar spot.char
  let name := ((input.drop 1).takeWhile isName).map Spot.char
  let rest := (input.drop 1).dropWhile isName
  if startsWith '!' rest then ('!' :: name ++ ['!'], rest.drop 1) else ('!' :: name, rest)

/-- Whether a handle is more than an exclamation mark and ends with one. -/
def isFullHandle (handle : List Char) : Bool :=
  handle.length > 1 && handle.getLast? == some '!'

def markOctet : UInt8 := 0x21

def markOnly : Octets := [markOctet]

def readFullTag (input : Spots) : Except Fault (WrittenTag × Spots) := do
  let (octets, rest) ← readTagText true [] (input.drop 2)
  if startsWith '>' rest then .ok (⟨"", octets⟩, rest.drop 1) else .error .tag

def readShortTag (input : Spots) : Except Fault (WrittenTag × Spots) := do
  let (handle, rest) := readHandle input
  if isFullHandle handle then
    let (suffix, rest) ← readTagText false [] rest
    return (⟨String.ofList handle, suffix⟩, rest)
  else
    let (suffix, rest) ← readTagText false handle rest
    return (if suffix.isEmpty then ⟨"", markOnly⟩ else ⟨"!", suffix⟩, rest)

def readTag (inFlow : Bool) (input : Spots) : Except Fault (WrittenTag × Spots) := do
  let (tag, rest) ←
    if startsWith '<' (input.drop 1) then readFullTag input else readShortTag input
  if atGap rest || (inFlow && startsWith ',' rest) then .ok (tag, rest) else .error .tag

end ServantGen.Yaml
