import ServantGen.Document.Reading

/-!
# The properties of an object schema

The parts of an `allOf` contribute their properties before the schema itself, part by part
and to any depth, each node once. Of several properties with one name the first stays. A
name is required when any of the visited nodes requires it.
-/

namespace ServantGen.Lowering

structure Gathered where
  /-- Names and sites of the properties, each name once. -/
  properties : List (String × Site)
  /-- Names that are required, with repetitions. -/
  required : List String
  /-- The nodes that were visited. -/
  visited : List Address
  deriving Inhabited

namespace Gathered

def empty : Gathered := ⟨[], [], []⟩

def addProperty (properties : List (String × Site)) (property : String × Site) :
    List (String × Site) :=
  if properties.any (·.1 == property.1) then properties else properties ++ [property]

/-- Add what a schema declares itself. -/
def addOwn (schema : Site) (gathered : Gathered) : Gathered :=
  { gathered with
    properties := (schema.membersAt "properties").foldl addProperty gathered.properties
    required := gathered.required ++
      (schema.itemsAt "required").filterMap fun name => name.node.string? }

/-- Gather the properties of a schema. References are followed; a node that cannot be
resolved or was visited adds nothing. Every level of the recursion visits a new node, so the
number of nodes of the document is depth enough. -/
def gather (document : Document) : Nat → Site → Gathered → Gathered
  | 0, _, gathered => gathered
  | depth + 1, site, gathered =>
    match document.resolve site with
    | .error _ => gathered
    | .ok schema =>
      if schema.address ∈ gathered.visited then gathered
      else
        let gathered := { gathered with visited := schema.address :: gathered.visited }
        let gathered := (schema.itemsAt "allOf").foldl
          (fun gathered part => gather document depth part gathered) gathered
        gathered.addOwn schema

end Gathered

def properties (document : Document) (schema : Site) : Gathered :=
  Gathered.gather document (document.tree.nodeCount + 1) schema .empty

end ServantGen.Lowering
