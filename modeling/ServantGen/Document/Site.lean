import ServantGen.Json.Basic

/-!
# Sites of a document

A site is a node of a document together with its address: the keys and positions that lead
to it from the root. Two nodes with equal content are different sites when they stand at
different places, and a node reached in two ways is one site.
-/

namespace ServantGen

/-- One step from a node to a node below it. -/
inductive Step where
  | key (name : String)
  | index (position : Nat)
  deriving DecidableEq, Repr, Inhabited

/-- The steps from the root to a node. -/
abbrev Address := List Step

namespace Json

def step? (json : Json) : Step → Option Json
  | .key name => json.get? name
  | .index position =>
    match json with
    | .array items => items[position]?
    | _ => none

def at? (json : Json) : Address → Option Json
  | [] => some json
  | step :: steps => do
    let below ← json.step? step
    below.at? steps

mutual

/-- How many nodes a tree has. -/
def nodeCount : Json → Nat
  | .array items => itemsCount items + 1
  | .object fields => fieldsCount fields + 1
  | _ => 1

/-- How many nodes the items of an array have. -/
def itemsCount : List Json → Nat
  | [] => 0
  | item :: items => item.nodeCount + itemsCount items

/-- How many nodes the members of an object have. -/
def fieldsCount : List (String × Json) → Nat
  | [] => 0
  | (_, value) :: fields => value.nodeCount + fieldsCount fields

end

end Json

/-- A node and its address. -/
structure Site where
  address : Address
  node : Json
  deriving Inhabited

namespace Site

def root (tree : Json) : Site := ⟨[], tree⟩

def step? (site : Site) (step : Step) : Option Site :=
  (site.node.step? step).map fun node => ⟨site.address ++ [step], node⟩

def get? (site : Site) (key : String) : Option Site :=
  site.step? (.key key)

def items? (site : Site) : Option (List Site) :=
  site.node.array?.map fun items =>
    items.zipIdx.map fun (node, position) => ⟨site.address ++ [.index position], node⟩

/-- The items of the array under a key; none when there is no array. -/
def itemsAt (site : Site) (key : String) : List Site :=
  ((site.get? key).bind items?).getD []

def members? (site : Site) : Option (List (String × Site)) :=
  site.node.object?.map fun fields =>
    fields.map fun (key, node) => (key, ⟨site.address ++ [.key key], node⟩)

/-- The members of the object under a key; none when there is no object. -/
def membersAt (site : Site) (key : String) : List (String × Site) :=
  ((site.get? key).bind members?).getD []

def string? (site : Site) (key : String) : Option String :=
  site.node.getString? key

def isTrue (site : Site) (key : String) : Bool :=
  site.node.isTrue key

/-- Whether a member has the key, whatever its value. -/
def has (site : Site) (key : String) : Bool :=
  (site.node.get? key).isSome

def reference? (site : Site) : Option String :=
  site.string? "$ref"

end Site

end ServantGen
