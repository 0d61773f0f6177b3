import ServantGen.Json.Basic
import ServantGen.Yaml.Token

/-!
# Nodes of YAML

A document is a tree of scalars, sequences and mappings in which an alias stands for a node
that was given an anchor. Every anchor has a number: how many names of anchors were known
before it. A name that is used again has a new number, and of two nodes with one number the
later one counts.
-/

namespace ServantGen.Yaml

/-- A node. Tags are written out in full. -/
inductive Node where
  | scalar (tag : Option Octets) (isPlain : Bool) (text : String)
  | sequence (tag : Option Octets) (items : List Node)
  | mapping (tag : Option Octets) (entries : List (Node × Node))
  /-- The node of a numbered anchor. -/
  | alias (number : Nat)
  deriving Repr, Inhabited

def Node.empty : Node := .scalar none true ""

/-- What is known while nodes are read. -/
structure NodeState where
  tokens : List Token
  /-- What handles of tags stand for. -/
  handles : Entries Octets
  /-- The number of each name of an anchor. -/
  numbers : Entries Nat
  /-- How many nodes with anchors were started. -/
  started : Nat
  /-- The node of each number, as the position among those started. -/
  positions : List (Nat × Nat)
  /-- The nodes with anchors by position. -/
  anchored : List (Nat × Node)

/-- Reading of nodes. -/
abbrev NodeM := StateT NodeState (Except Fault)

namespace NodeM

def look? : NodeM (Option Token) := do
  return (← get).tokens.head?

def skip : NodeM Unit :=
  modify fun state => { state with tokens := state.tokens.tail }

/-- Give a number to an anchor that starts here; the answer is its position. -/
def start (name : String) : NodeM Nat := do
  let state ← get
  let number := state.numbers.length
  set { state with
    numbers := state.numbers.put name number
    started := state.started + 1
    positions := (number, state.started) :: state.positions }
  return state.started

def keep (position : Option Nat) (node : Node) : NodeM Node := do
  match position with
  | none => return node
  | some position =>
    modify fun state => { state with anchored := (position, node) :: state.anchored }
    return node

def expand (tag : WrittenTag) : NodeM Octets := do
  if tag.handle = "" then return tag.suffix
  else match (← get).handles.get? tag.handle with
    | some expansion => return expansion ++ tag.suffix
    | none => throw .tag

def tag? : NodeM (Option Octets) := do
  match ← look? with
  | some (.tag written) =>
    skip
    return some (← expand written)
  | _ => return none

def anchor? : NodeM (Option String) := do
  match ← look? with
  | some (.anchor name) =>
    skip
    return some name
  | _ => return none

end NodeM

open NodeM

/-- An anchor and a tag, in either order. -/
def properties : NodeM (Option String × Option Octets) := do
  match ← anchor? with
  | some name => return (some name, ← tag?)
  | none =>
    let tag ← tag?
    match tag with
    | some _ => return (← anchor?, tag)
    | none => return (none, none)

/-- A comma between items in brackets; before the first there is none. -/
def flowComma (first : Bool) : NodeM Unit := do
  if !first then
    if (← look?) = some .flowEntry then skip else throw .order

mutual

/-- Read a node. In block style, collections may start by layout; directly below a key a
sequence may stand at the column of the key. `fuel` bounds the recursion. -/
def node (inBlock belowKey : Bool) : Nat → NodeM Node
  | 0 => throw .tooDeep
  | fuel + 1 => do
    match ← look? with
    | some (.alias name) =>
      skip
      match (← get).numbers.get? name with
      | some number => return .alias number
      | none => throw .unknownAnchor
    | _ =>
      let (anchor, tag) ← properties
      let position ← anchor.mapM start
      let content ← match ← look? with
        | some (.scalar isPlain text) => do
          skip
          pure (Node.scalar tag isPlain text)
        | some .flowSequenceStart => do
          skip
          pure (Node.sequence tag (← flowItems true fuel))
        | some .flowMappingStart => do
          skip
          pure (Node.mapping tag (← flowEntries true fuel))
        | some .blockEntry =>
          if belowKey then do pure (Node.sequence tag (← looseItems fuel))
          else if anchor.isSome || tag.isSome then pure (Node.scalar tag true "")
          else throw .order
        | some .blockSequenceStart =>
          if inBlock then do
            skip
            pure (Node.sequence tag (← blockItems fuel))
          else if anchor.isSome || tag.isSome then pure (Node.scalar tag true "")
          else throw .order
        | some .blockMappingStart =>
          if inBlock then do
            skip
            pure (Node.mapping tag (← blockEntries fuel))
          else if anchor.isSome || tag.isSome then pure (Node.scalar tag true "")
          else throw .order
        | _ =>
          if anchor.isSome || tag.isSome then pure (Node.scalar tag true "")
          else throw .order
      keep position content

/-- A node, or an empty one when one of some tokens is next. -/
def nodeUnless (ends : List Token) (inBlock belowKey : Bool) : Nat → NodeM Node
  | 0 => throw .tooDeep
  | fuel + 1 => do
    if (← look?).any ends.contains then return .empty
    else node inBlock belowKey fuel

def blockItems : Nat → NodeM (List Node)
  | 0 => throw .tooDeep
  | fuel + 1 => do
    match ← look? with
    | some .blockEntry =>
      skip
      let item ← nodeUnless [.blockEntry, .blockEnd] true false fuel
      return item :: (← blockItems fuel)
    | some .blockEnd =>
      skip
      return []
    | _ => throw .order

/-- The items of a sequence at the column of its key. -/
def looseItems : Nat → NodeM (List Node)
  | 0 => throw .tooDeep
  | fuel + 1 => do
    match ← look? with
    | some .blockEntry =>
      skip
      let item ← nodeUnless [.blockEntry, .key, .value, .blockEnd] true false fuel
      return item :: (← looseItems fuel)
    | _ => return []

def blockEntries : Nat → NodeM (List (Node × Node))
  | 0 => throw .tooDeep
  | fuel + 1 => do
    match ← look? with
    | some .key =>
      skip
      let name ← nodeUnless [.key, .value, .blockEnd] true true fuel
      let content ← blockValue fuel
      return (name, content) :: (← blockEntries fuel)
    | some .blockEnd =>
      skip
      return []
    | _ => throw .order

def blockValue : Nat → NodeM Node
  | 0 => throw .tooDeep
  | fuel + 1 => do
    match ← look? with
    | some .value =>
      skip
      nodeUnless [.key, .value, .blockEnd] true true fuel
    | _ => return .empty

/-- The items of a sequence in brackets. A key among them makes a mapping of one entry. -/
def flowItems (first : Bool) : Nat → NodeM (List Node)
  | 0 => throw .tooDeep
  | fuel + 1 => do
    if (← look?) = some .flowSequenceEnd then
      skip
      return []
    else
      flowComma first
      match ← look? with
      | some .flowSequenceEnd =>
        skip
        return []
      | some .key =>
        skip
        let entry ← flowPair fuel
        return .mapping none [entry] :: (← flowItems false fuel)
      | _ =>
        let item ← node false false fuel
        return item :: (← flowItems false fuel)

/-- The entry of a mapping that is an item of a sequence in brackets. -/
def flowPair : Nat → NodeM (Node × Node)
  | 0 => throw .tooDeep
  | fuel + 1 => do
    let name ←
      if (← look?).any [Token.value, .flowEntry, .flowSequenceEnd].contains then
        skip
        pure Node.empty
      else node false false fuel
    let content ← flowValue [.flowEntry, .flowSequenceEnd] fuel
    return (name, content)

/-- The value of an entry in brackets. -/
def flowValue (ends : List Token) : Nat → NodeM Node
  | 0 => throw .tooDeep
  | fuel + 1 => do
    match ← look? with
    | some .value =>
      skip
      nodeUnless ends false false fuel
    | _ => return .empty

def flowEntries (first : Bool) : Nat → NodeM (List (Node × Node))
  | 0 => throw .tooDeep
  | fuel + 1 => do
    if (← look?) = some .flowMappingEnd then
      skip
      return []
    else
      flowComma first
      match ← look? with
      | some .flowMappingEnd =>
        skip
        return []
      | some .key =>
        skip
        let name ← nodeUnless [.value, .flowEntry, .flowMappingEnd] false false fuel
        let content ← flowValue [.flowEntry, .flowMappingEnd] fuel
        return (name, content) :: (← flowEntries false fuel)
      | _ =>
        let name ← node false false fuel
        return (name, .empty) :: (← flowEntries false fuel)

end

/-! ## Documents -/

def commonTag (name : String) : Octets :=
  Octets.ofAscii ("tag:yaml.org,2002:" ++ name).toList

/-- A document: its root and the nodes of its anchors by number. -/
structure Document where
  root : Node
  anchors : List (Nat × Node)

/-- What handles stand for unless a directive says otherwise. -/
def defaultHandles : Entries Octets :=
  [("!", markOnly), ("!!", commonTag "")]

/-- The directives before a document: a version at most once, and handles each once. -/
def directives (versionSeen : Bool) (handles : Entries Octets) :
    List Token → Except Fault (Entries Octets × List Token)
  | .version major minor :: rest =>
    if versionSeen || major ≠ 1 || (minor ≠ 1 && minor ≠ 2) then .error .directive
    else directives true handles rest
  | .tagHandle handle expansion :: rest =>
    if handles.has handle then .error .directive
    else directives versionSeen (handles ++ [(handle, expansion)]) rest
  | tokens => .ok (handles, tokens)

def Token.isDirective : Token → Bool
  | .version .. | .tagHandle .. => true
  | _ => false

def documentRoot : NodeM Node := do
  let state ← get
  match state.tokens.head? with
  | none | some .documentStart | some .documentEnd => return .empty
  | some token =>
    if token.isDirective then return .empty else node true false (3 * state.tokens.length + 3)

/-- What a document must be followed by: marks of its end and then nothing. -/
def checkEnd (tokens : List Token) : Except Fault Unit :=
  match tokens.dropWhile (· == .documentEnd) with
  | [] => .ok ()
  | .documentStart :: _ | .version .. :: _ | .tagHandle .. :: _ => .error .manyDocuments
  | _ => .error .order

/-- The nodes of the anchors by number. -/
def NodeState.anchors (state : NodeState) : List (Nat × Node) :=
  state.positions.filterMap fun (number, position) =>
    (state.anchored.find? (·.1 == position)).map fun (_, node) => (number, node)

/-- Read the only document of a text; a text without any stands for an empty one. -/
def Document.ofTokens (tokens : List Token) : Except Fault Document := do
  let (own, rest) ← directives false [] tokens
  let explicit := rest.head? == some .documentStart
  if tokens.isEmpty then return ⟨.empty, []⟩
  else if !explicit && tokens.length ≠ rest.length then .error .directive
  else
    let content := if explicit then rest.tail else rest
    let handles := own ++ defaultHandles.filter fun (handle, _) => !own.has handle
    let reading := if explicit then documentRoot else node true false (3 * content.length + 3)
    let (root, state) ← reading.run ⟨content, handles, [], 0, [], []⟩
    checkEnd state.tokens
    return ⟨root, state.anchors⟩

end ServantGen.Yaml
