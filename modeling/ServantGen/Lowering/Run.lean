import ServantGen.Lowering.Models
import ServantGen.Lowering.Operations

/-!
# Lowering a document

The whole of lowering: named schemas are declared and lowered, then operations.
-/

namespace ServantGen.Lowering

/-- Lower a document with a way of finding the types of schemas. -/
def lowerWith (setting : Setting) (find : TypeFinder) : OperationM Api := do
  declareModels setting
  lowerModels setting find
  let operations ← lowerOperations setting find
  let state ← get
  let info := setting.document.info
  return ⟨⟨info.title, info.version, info.description⟩, state.models, operations⟩

def lowerApi (setting : Setting) : OperationM Api :=
  lowerWith setting (typeOf setting setting.depth)

/-- What lowering leaves behind: an interface or an error, and the notices. -/
structure Result where
  outcome : Except BuildError Api
  notices : List Notice

/-- Lower a document from the initial state; nothing when the schemas nest without end. -/
def run (setting : Setting) : Option Result :=
  (lowerApi setting |>.run |>.run State.initial).map fun (outcome, state) =>
    ⟨outcome, state.notices⟩

end ServantGen.Lowering
