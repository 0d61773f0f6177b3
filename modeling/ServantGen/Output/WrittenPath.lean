import ServantGen.Text.Split

/-!
# Paths as they are written

A path is text: parts with slashes between them. Empty parts and single dots lead nowhere, and
two dots lead upwards. How long a path is depends on all that is written, so the parts are kept
as they are.
-/

namespace ServantGen

/-- A path as it is written. -/
structure WrittenPath where
  /-- Whether a slash comes first; the path then starts at the root. -/
  isAbsolute : Bool
  /-- The parts between slashes, also those that lead nowhere. -/
  parts : List String
  deriving DecidableEq, Repr, Inhabited

namespace WrittenPath

def ofText (text : String) : WrittenPath :=
  match Text.splitOn '/' text with
  | "" :: part :: parts => ⟨true, part :: parts⟩
  | parts => ⟨false, parts⟩

/-- How many bytes the path has: those of the parts and of the slashes. -/
def byteSize (path : WrittenPath) : Nat :=
  let lead := if path.isAbsolute then 1 else 0
  path.parts.foldl (fun size part => size + part.utf8ByteSize) lead + (path.parts.length - 1)

def isEmpty (path : WrittenPath) : Bool :=
  path.byteSize == 0

/-- Whether a part leads nowhere. -/
def isIdle (part : String) : Bool :=
  part == "" || part == "."

/-- The parts that lead somewhere. -/
def names (path : WrittenPath) : List String :=
  path.parts.filter (!isIdle ·)

/-- The path to a place below the one of `path`. A slash at the end of `path` is not doubled. -/
def join (path : WrittenPath) (inside : List String) : WrittenPath :=
  if inside.isEmpty then path
  else if path.parts.getLast? = some "" then
    { path with parts := path.parts.dropLast ++ inside }
  else { path with parts := path.parts ++ inside }

@[simp] theorem join_nil (path : WrittenPath) : path.join [] = path := by
  simp [join]

@[simp] theorem isAbsolute_join (path : WrittenPath) (inside : List String) :
    (path.join inside).isAbsolute = path.isAbsolute := by
  unfold join
  split
  · rfl
  · split <;> rfl

/-- Joining adds the parts that lead somewhere. -/
theorem names_join (path : WrittenPath) (inside : List String) :
    (path.join inside).names = path.names ++ inside.filter (!isIdle ·) := by
  unfold join names
  split
  · simp_all
  · split
    · rename_i h
      obtain ⟨before, hbefore⟩ := List.getLast?_eq_some_iff.mp h
      simp [hbefore, isIdle]
    · simp

/-- The path that is written behind another one, which it does without if it starts at the
root. -/
def append (path other : WrittenPath) : WrittenPath :=
  if other.isAbsolute then other else path.join other.parts

/-- The parts, latest first, without idle ones at the end. A dot that starts a relative path
stays. -/
def trimmed (isAbsolute : Bool) : List String → List String
  | [] => []
  | [part] => if part == "" || (isAbsolute && part == ".") then [] else [part]
  | part :: rest => if isIdle part then trimmed isAbsolute rest else part :: rest

/-- The path without its last part, by what is written alone: idle parts do not count, and two
dots are a part like any other. -/
def parent (path : WrittenPath) : WrittenPath :=
  let latestFirst := trimmed path.isAbsolute path.parts.reverse
  { path with parts := (trimmed path.isAbsolute latestFirst.tail).reverse }

/-- Whether a single dot comes last, with or without slashes behind it. -/
def endsInDot (path : WrittenPath) : Bool :=
  (path.parts.reverse.dropWhile (· == "")).head? == some "."

/-! ## What the system takes -/

def maxBytes : Nat := 4095

def maxNameBytes : Nat := 255

def isTooLong (name : String) : Bool :=
  name.utf8ByteSize > maxNameBytes

/-- Whether a name holds the character that ends paths inside the system. -/
def hasNul (name : String) : Bool :=
  name.toList.contains (Char.ofNat 0)

end WrittenPath

end ServantGen
