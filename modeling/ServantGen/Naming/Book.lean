import ServantGen.Naming.Scope
import ServantGen.Target

/-!
# The identifiers of a run

Types and functions have scopes that last for a whole run; fields and parameters have
scopes of their own that the caller keeps.
-/

namespace ServantGen

namespace Target

def claimIn (target : Target) (scope : NameScope) (raw : String) (role : Role) :
    Identifier × NameScope :=
  scope.claim target.reserved raw (target.identifier role raw)

/-- Claim an identifier in a scope that is held by nobody yet. -/
def freshIn (target : Target) (scope : NameScope) (raw : String) (role : Role) :
    Identifier × NameScope :=
  scope.claimFresh target.reserved raw (target.identifier role raw)

end Target

/-- The identifiers of types and functions. -/
structure NameBook where
  types : NameScope
  functions : NameScope
  deriving Repr, Inhabited

namespace NameBook

def empty : NameBook := ⟨.empty, .empty⟩

/-- Claim a type name; the same raw name always receives the same identifier. -/
def claimType (target : Target) (raw : String) (book : NameBook) : Identifier × NameBook :=
  let (identifier, types) := target.claimIn book.types raw .type
  (identifier, { book with types })

/-- Claim a new type name, also for a raw name that has one. -/
def freshType (target : Target) (raw : String) (book : NameBook) : Identifier × NameBook :=
  let (identifier, types) := target.freshIn book.types raw .type
  (identifier, { book with types })

def freshFunction (target : Target) (raw : String) (book : NameBook) : Identifier × NameBook :=
  let (identifier, functions) := target.freshIn book.functions raw .function
  (identifier, { book with functions })

/-- The type name that a raw name received first. -/
def existingType? (book : NameBook) (raw : String) : Option String :=
  book.types.get? raw

end NameBook

end ServantGen
