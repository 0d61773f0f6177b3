import ServantGen.Lowering.Types

/-!
# Named schemas

Every named schema first gets its identifier and a place in the table, in the order of the
document, so that references do not depend on that order. Then each is lowered in turn and
takes its place.
-/

namespace ServantGen.Lowering

def schemaLocation (raw : String) : String :=
  "components.schemas." ++ raw

def declareModel (setting : Setting) (raw : String) : SchemaM Unit := do
  let name ← claimType setting raw (schemaLocation raw)
  insertModel (placeholder name raw)
  modify fun state => { state with schemaNames := state.schemaNames.put raw name }

def declareModels (setting : Setting) : SchemaM Unit :=
  setting.document.schemas.forM fun (raw, _) => declareModel setting raw

def lowerModel (setting : Setting) (find : TypeFinder) (raw : String) (schema : Site) :
    SchemaM Unit := do
  let state ← get
  match state.schemaNames.get? raw with
  | none => return
  | some name =>
    let model ← modelOf setting find name raw schema (schemaLocation raw)
    insertModel model

def lowerModels (setting : Setting) (find : TypeFinder) : SchemaM Unit :=
  setting.document.schemas.forM fun (raw, schema) => lowerModel setting find raw schema

end ServantGen.Lowering
