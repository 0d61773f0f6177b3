import ServantGen.Naming.Convention
import ServantGen.Text.Split

/-!
# Targets of generation

A target is a language's naming convention together with what a user may set: words to
avoid, how placeholders are marked in routes, what stands for the empty route, and the name
of the package.
-/

namespace ServantGen

/-- What surrounds a placeholder in a route. -/
structure Delimiter where
  opening : String
  closing : String
  deriving DecidableEq, Repr, Inhabited

namespace Delimiter

def braces : Delimiter := ⟨"\x7b", "\x7d"⟩

/-- The name of the placeholder, if a component is one placeholder and nothing else. -/
def placeholder? (delimiter : Delimiter) (component : String) : Option String :=
  let opening := delimiter.opening.toList
  let closing := delimiter.closing.toList
  if opening.isEmpty then none
  else do
    let rest ← Text.stripStart? opening component.toList
    let inner ← Text.stripEnd? closing rest
    let nested := Text.occursIn opening inner || (!closing.isEmpty && Text.occursIn closing inner)
    if inner.isEmpty || nested then none else some (String.ofList inner)

/-- Whether a component has an opening mark anywhere. -/
def mentionsPlaceholder (delimiter : Delimiter) (component : String) : Bool :=
  delimiter.opening ≠ "" && Text.occursIn delimiter.opening.toList component.toList

end Delimiter

/-- What code is generated for, and how. -/
structure Target where
  /-- The name under which the target is chosen. -/
  name : String
  convention : Convention
  /-- Words to avoid besides those of the language. -/
  reservedWords : List String
  delimiter : Delimiter
  /-- The text that stands for the empty route; may be empty. -/
  rootMarker : String
  /-- The name of the package; made from the title when absent. -/
  package : Option String

namespace Target

/-- All words that identifiers avoid. -/
def reserved (target : Target) : List String :=
  target.convention.keywords ++ target.reservedWords

def isReserved (target : Target) (name : String) : Bool :=
  target.reserved.contains name

/-- The identifier for a raw name in a role, escaped when its base is to be avoided. -/
def identifier (target : Target) (role : Role) (raw : String) : String :=
  let base := target.convention.base role raw
  if target.isReserved base then target.convention.escape base else base

end Target

end ServantGen
