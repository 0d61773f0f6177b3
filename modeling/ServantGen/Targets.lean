import ServantGen.Haskell.TypesModule
import ServantGen.Settings

/-!
# The targets by name

What each target is without settings, and the templates it has.
-/

namespace ServantGen

/-- A target without settings. -/
def TargetName.target : TargetName → Target
  | .haskellServant => Haskell.target

def TargetName.templates : TargetName → List Template
  | .haskellServant => Haskell.templates

end ServantGen
