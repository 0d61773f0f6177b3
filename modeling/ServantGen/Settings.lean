import ServantGen.Target

/-!
# Settings

What a user may set in a file of settings. Every setting is optional; options on the command
line come first.
-/

namespace ServantGen

/-- The targets that code can be generated for. -/
inductive TargetName where
  | haskellServant
  deriving DecidableEq, Repr, Inhabited

def TargetName.text : TargetName → String
  | .haskellServant => "haskell-servant"

def TargetName.ofText? (text : String) : Option TargetName :=
  if text = TargetName.haskellServant.text then some .haskellServant else none

structure GenerateSettings where
  target : Option TargetName := none
  output : Option String := none
  strict : Option Bool := none
  supportingFiles : Option Bool := none
  parallel : Option Bool := none
  deriving DecidableEq, Repr

structure TargetSettings where
  package : Option String := none
  reservedWords : List String := []
  rootMarker : Option String := none
  delimiter : Option Delimiter := none
  deriving DecidableEq, Repr

structure Settings where
  generate : GenerateSettings := {}
  target : TargetSettings := {}
  deriving DecidableEq, Repr

/-- A target with settings on top of its own. Reserved words are added, the others replace. -/
def TargetSettings.apply (settings : TargetSettings) (target : Target) : Target :=
  { target with
    package := settings.package.or target.package
    reservedWords := target.reservedWords ++ settings.reservedWords
    rootMarker := settings.rootMarker.getD target.rootMarker
    delimiter := settings.delimiter.getD target.delimiter }

end ServantGen
