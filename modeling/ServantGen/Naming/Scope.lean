import ServantGen.Json.Basic

/-!
# Scopes of identifiers

In a scope every identifier has one owner. A raw name claims the identifier it prefers; when
that is taken it gets the preferred identifier with the least number from two on that is
neither taken nor reserved. There are only finitely many taken and reserved names, so the
search is over a list of candidates that is longer than both together.
-/

namespace ServantGen

/-- A raw name had to give way to another one. -/
structure Collision where
  raw : String
  /-- The identifier it would have received. -/
  preferred : String
  /-- The raw name that holds the preferred identifier. -/
  existing : String
  /-- The identifier it received. -/
  assigned : String
  deriving DecidableEq, Repr

def Collision.message (c : Collision) : String :=
  "'" ++ c.raw ++ "' maps to identifier '" ++ c.preferred ++ "' already used by '" ++
    c.existing ++ "'; renamed to '" ++ c.assigned ++ "'"

structure Identifier where
  name : String
  /-- Present when the preferred identifier was taken. -/
  collision : Option Collision
  deriving DecidableEq, Repr

/-- A set of identifiers with their owners. -/
structure NameScope where
  /-- The first identifier of each raw name. -/
  firstNames : Entries String
  /-- The raw name that holds each identifier, latest first. -/
  owners : Entries String
  deriving Repr, Inhabited

namespace NameScope

def empty : NameScope := ⟨[], []⟩

/-- The first identifier of a raw name. -/
def get? (scope : NameScope) (raw : String) : Option String :=
  scope.firstNames.get? raw

/-- The raw name that holds an identifier. -/
def owner? (scope : NameScope) (name : String) : Option String :=
  scope.owners.get? name

/-- Whether an identifier is held. -/
def isTaken (scope : NameScope) (name : String) : Bool :=
  (scope.owner? name).isSome

def size (scope : NameScope) : Nat :=
  scope.owners.length

/-- A name with a number behind it. -/
def numbered (name : String) (n : Nat) : String :=
  name ++ Text.decimal n

/-- Whether a numbered candidate may be handed out. -/
def isFree (scope : NameScope) (reserved : List String) (name : String) : Bool :=
  !scope.isTaken name && !reserved.contains name

/-- The least number of at least two that makes a free identifier. -/
def freshNumber? (scope : NameScope) (reserved : List String) (preferred : String) : Option Nat :=
  (List.range (scope.size + reserved.length + 1)).findSome? fun i =>
    if scope.isFree reserved (numbered preferred (i + 2)) then some (i + 2) else none

/-- The identifier for a raw name whose preferred one is taken. -/
def alternative (scope : NameScope) (reserved : List String) (preferred : String) : String :=
  match scope.freshNumber? reserved preferred with
  | some n => numbered preferred n
  | none => preferred ++ "_"

def record (scope : NameScope) (raw name : String) : NameScope where
  firstNames :=
    if scope.firstNames.has raw then scope.firstNames else scope.firstNames ++ [(raw, name)]
  owners := (name, raw) :: scope.owners

@[simp] theorem owner?_record_same (scope : NameScope) (raw name : String) :
    (scope.record raw name).owner? name = some raw := by
  simp [record, owner?, Entries.get?]

theorem owner?_record_of_ne (scope : NameScope) (raw : String) {name other : String}
    (h : name ≠ other) : (scope.record raw name).owner? other = scope.owner? other := by
  simp [record, owner?, Entries.get?, h]

@[simp] theorem size_record (scope : NameScope) (raw name : String) :
    (scope.record raw name).size = scope.size + 1 := rfl

/-- Claim an identifier that is held by nobody yet. -/
def claimFresh (scope : NameScope) (reserved : List String) (raw preferred : String) :
    Identifier × NameScope :=
  match scope.owner? preferred with
  | none => (⟨preferred, none⟩, scope.record raw preferred)
  | some existing =>
    let assigned := scope.alternative reserved preferred
    (⟨assigned, some ⟨raw, preferred, existing, assigned⟩⟩, scope.record raw assigned)

/-- Claim an identifier for a raw name; a raw name seen before keeps its first one. -/
def claim (scope : NameScope) (reserved : List String) (raw preferred : String) :
    Identifier × NameScope :=
  match scope.get? raw with
  | some name => (⟨name, none⟩, scope)
  | none => scope.claimFresh reserved raw preferred

theorem claim_of_get?_eq_some {scope : NameScope} {raw name : String}
    (h : scope.get? raw = some name) (reserved : List String) (preferred : String) :
    scope.claim reserved raw preferred = (⟨name, none⟩, scope) := by
  simp [claim, h]

@[simp] theorem owner?_claimFresh (scope : NameScope) (reserved : List String)
    (raw preferred : String) :
    (scope.claimFresh reserved raw preferred).2.owner?
      (scope.claimFresh reserved raw preferred).1.name = some raw := by
  unfold claimFresh
  split <;> simp

end NameScope

end ServantGen
