import ServantGen.Proofs.Haskell.ApiLines

/-!
# The server and the type that it serves

The module of the interface says three times what there is to serve: in the type of the interface,
which goes through the names of the groups, in the record of handlers, and in the server, which
takes the handlers out of the record. All three are read from the text of the module. The type and
the server are the same tree, whatever the number of groups and the size of each, and at every leaf
the route and the handler are those of one operation.
-/

namespace ServantGen.Haskell

/-! ## Reading the module -/

/-- The handlers of the server, nested as they are written. -/
def serverTree? (backend : String) (declarations : List (List String)) :
    Option (Alternatives (List String)) := do
  let server ← definition? ["serverFromBackend", backend, "\x7b", "..", "\x7d"] declarations
  readAlternatives? server

def groupTree? (declarations : List (List String)) (name : List String) :
    Option (Alternatives (List String)) := do
  let group ← definition? ("type" :: name) declarations
  readAlternatives? group

/-- The routes of the interface, with the types of the groups in place of their names. -/
def apiTree? (declarations : List (List String)) : Option (Alternatives (List String)) := do
  let api ← definition? ["type", "API"] declarations
  let names ← readAlternatives? api
  names.substitute? (groupTree? declarations)

def field? : List String → Option (String × List String)
  | name :: "::" :: type => some (name, type)
  | _ => none

def recordFields? (backend : String) (declarations : List (List String)) :
    Option (List (String × List String)) := do
  let record ← definition?
    ["data", backend, "(", "m", "::", "Type", "->", "Type", ")"] declarations
  match record with
  | constructor :: "\x7b" :: rest =>
    if constructor = backend ∧ rest.getLast? = some "\x7d" then
      (splitOuter "," 0 rest.dropLast).mapM field?
    else none
  | _ => none

/-! ## Definitions of the module -/

/-- A definition is found among declarations that differ in their first two lexemes, behind others
that begin with other words. -/
theorem definition?_eq_some_of_mem {first second : String} {left body : List String}
    {before declarations : List (List String)}
    (hmem : (first :: second :: left) ++ "=" :: body ∈ declarations)
    (honce : (declarations.map (List.take 2)).Nodup)
    (hbefore : ∀ declaration ∈ before, declaration.head? ≠ some first) :
    definition? (first :: second :: left) (before ++ declarations) = some body := by
  obtain ⟨front, back, rfl⟩ := List.append_of_mem hmem
  rw [← List.append_assoc]
  refine definition?_eq_some fun declaration hdeclaration hprefix => ?_
  obtain ⟨rest, rfl⟩ := hprefix
  rw [List.append_assoc, List.mem_append] at hdeclaration
  obtain hdeclaration | hdeclaration := hdeclaration
  · exact hbefore _ hdeclaration rfl
  · rw [List.map_append, List.map_cons, List.nodup_middle, List.nodup_cons,
      ← List.map_append] at honce
    exact honce.1 (List.mem_map.2 ⟨_, hdeclaration, rfl⟩)

/-! ## What the module is read as -/

section Reading

variable {α : Type} {items : List α} {read : α → List String}

/-- Alternatives without parentheses are nested to the right. -/
theorem readWithin_items (hne : items ≠ [])
    (h : ∀ item ∈ items, Phrase ":<|>" (read item) ∧ unwrap? (read item) = none) (depth : Nat) :
    readWithin (depth + 1) ([":<|>"].intercalate (items.map read)) =
      (Alternatives.rightward? (items.map .single)).map (Alternatives.map read) := by
  have hreads : List.Forall₂ (ReadsTo depth) (items.map read)
      ((items.map .single).map (Alternatives.map read)) := by
    rw [List.map_map, List.forall₂_map_left_iff, List.forall₂_map_right_iff, List.forall₂_same]
    exact fun item hitem => readsTo_single (h item hitem).1 (h item hitem).2 depth
  rw [readWithin_intercalate (by simpa using hne) hreads, Alternatives.rightward?_map]

theorem IsWord.phrase {word : String} (h : IsWord word) :
    Phrase ":<|>" [word] ∧ unwrap? [word] = none := by
  have hne : word ≠ "(" := h.ne (c := '(') (by decide) (by decide)
  exact ⟨phrase_of_plain (by decide) (List.forall_mem_singleton.2 h.isPlainLexeme),
    by simp [unwrap?, hne]⟩

end Reading

def EndpointGroup.tree? (group : EndpointGroup) : Option (Alternatives Endpoint) :=
  Alternatives.rightward? (group.endpoints.map .single)

abbrev TreesOf (groups : List EndpointGroup) (trees : List (Alternatives Endpoint)) : Prop :=
  List.Forall₂ (fun group tree => group.tree? = some tree) groups trees

namespace ApiModule

variable {api : ApiModule}

section Definitions

variable {context : RenderContext} {first second : String} {left body : List String}

/-- No two declarations of the module begin with the same two lexemes. -/
theorem Readable.nodup_declarations (h : api.Readable) :
    (api.declarations.map (List.take 2)).Nodup := by
  have hcolons : api.backend ≠ "::" := h.backend.ne (c := ':') (by decide) (by decide)
  have hkeys : api.declarations.map (List.take 2) =
      (api.groups.map EndpointGroup.typeName).map (fun name => ["type", name]) ++
        [["type", "API"], ["api", "::"], ["api", "="], ["data", api.backend],
         ["serverFromBackend", "::"], ["serverFromBackend", api.backend]] := by
    simp [declarations]
  have hinjective : Function.Injective fun name : String => ["type", name] := by
    intro name other heq
    simpa using heq
  rw [hkeys, List.nodup_append]
  refine ⟨h.once.map hinjective, by simp [hcolons.symm], ?_⟩
  simpa [List.forall_mem_map] using h.apart

/-- A definition of the module is found in its text. -/
theorem Readable.definition?_eq_some (h : api.Readable) (hgroups : api.groups ≠ [])
    (hfirst : first ∉ headWords)
    (hmem : (first :: second :: left) ++ "=" :: body ∈ api.declarations) :
    definition? (first :: second :: left)
      (declarationsOf ((api.code context).text indentStep)) = some body := by
  obtain ⟨before, hdeclarations, hbefore⟩ := exists_declarationsOf_code context h hgroups
  rw [hdeclarations]
  refine definition?_eq_some_of_mem hmem h.nodup_declarations fun declaration hdeclaration heq => ?_
  obtain ⟨word, hword, hhead⟩ := hbefore declaration hdeclaration
  exact hfirst (Option.some.inj (heq.symm.trans hhead) ▸ hword)

end Definitions

section Trees

/-- Where no group is empty, there is a tree for each, and no endpoint is lost or moved. -/
theorem exists_groupTrees {groups : List EndpointGroup}
    (h : ∀ group ∈ groups, group.endpoints ≠ []) :
    ∃ trees, TreesOf groups trees ∧
      trees.flatMap Alternatives.leaves = groups.flatMap EndpointGroup.endpoints := by
  induction groups with
  | nil => exact ⟨[], .nil, rfl⟩
  | cons group groups ih =>
    obtain ⟨hgroup, hgroups⟩ := List.forall_mem_cons.1 h
    obtain ⟨trees, htrees, hleaves⟩ := ih hgroups
    obtain ⟨tree, htree, hown⟩ := @Alternatives.exists_rightward? _
      (group.endpoints.map .single) (by simpa using hgroup)
    refine ⟨tree :: trees, .cons htree htrees, ?_⟩
    rw [List.flatMap_cons, List.flatMap_cons, hleaves, hown, List.flatMap_map]
    simp [Alternatives.leaves]

variable {group : EndpointGroup} {tree : Alternatives Endpoint}

/-- A group is read as its tree, whatever is read of each endpoint. -/
theorem readWithin_group (htree : group.tree? = some tree) {read : Endpoint → List String}
    (h : ∀ endpoint ∈ group.endpoints,
      Phrase ":<|>" (read endpoint) ∧ unwrap? (read endpoint) = none) (depth : Nat) :
    readWithin (depth + 1) ([":<|>"].intercalate (group.endpoints.map read)) =
      some (tree.map read) := by
  have hne : group.endpoints ≠ [] := by
    intro hnil
    simp [EndpointGroup.tree?, hnil, Alternatives.rightward?] at htree
  rw [readWithin_items hne h depth, ← EndpointGroup.tree?, htree, Option.map_some]

/-- Among several groups a group is read as its tree, in parentheses or alone. -/
theorem readsTo_serverLexemes (htree : group.tree? = some tree)
    (hids : ∀ endpoint ∈ group.endpoints, IsWord endpoint.operation.id) (depth : Nat) :
    ReadsTo (depth + 1) (serverLexemes true group)
      (tree.map fun endpoint => [endpoint.operation.id]) := by
  have hwords : ∀ endpoint ∈ group.endpoints,
      Phrase ":<|>" [endpoint.operation.id] ∧ unwrap? [endpoint.operation.id] = none :=
    fun endpoint hendpoint => (hids endpoint hendpoint).phrase
  unfold serverLexemes
  dsimp only
  split
  · refine readsTo_enclosed ?_ (readWithin_group htree hwords depth)
    refine Balanced.intercalate (by decide) (List.forall_mem_map.2 fun endpoint hendpoint => ?_)
    exact (hwords endpoint hendpoint).1.balanced
  · rename_i hfew
    cases hendpoints : group.endpoints with
    | nil => simp [EndpointGroup.tree?, hendpoints, Alternatives.rightward?] at htree
    | cons endpoint others =>
      obtain rfl : others = [] := by simpa [hendpoints] using hfew
      obtain rfl : .single endpoint = tree := by
        simpa [EndpointGroup.tree?, hendpoints, Alternatives.rightward?,
          Alternatives.rightward] using htree
      obtain ⟨hphrase, hbare⟩ := hwords endpoint (hendpoints ▸ List.mem_cons_self)
      simpa [List.intercalate, Alternatives.map] using readsTo_single hphrase hbare (depth + 1)

variable {groups : List EndpointGroup} {trees : List (Alternatives Endpoint)}

/-- Several servers are read as the trees of their groups. -/
theorem readAlternatives?_several (hseveral : 1 < groups.length) (htrees : TreesOf groups trees)
    (hids : ∀ group ∈ groups, ∀ endpoint ∈ group.endpoints, IsWord endpoint.operation.id) :
    readAlternatives? ([":<|>"].intercalate (groups.map (serverLexemes true))) =
      (Alternatives.rightward? trees).map
        (Alternatives.map fun endpoint => [endpoint.operation.id]) := by
  have hne : groups.map (serverLexemes true) ≠ [] := by
    intro hnil
    simp [List.map_eq_nil_iff.1 hnil] at hseveral
  -- There is a mark between the servers, so reading may go into parentheses.
  obtain ⟨depth, hdepth⟩ : ∃ depth,
      ([":<|>"].intercalate (groups.map (serverLexemes true))).length = depth + 1 := by
    refine Nat.exists_eq_succ_of_ne_zero fun hzero => ?_
    match groups, hseveral with
    | first :: next :: rest, _ => simp [intercalate_cons] at hzero
  have hreads : List.Forall₂ (ReadsTo (depth + 1)) (groups.map (serverLexemes true))
      (trees.map (Alternatives.map fun endpoint => [endpoint.operation.id])) := by
    rw [List.forall₂_map_left_iff, List.forall₂_map_right_iff]
    refine ((List.forall₂_and_left groups trees).2 ⟨hids, htrees⟩).imp fun group tree h => ?_
    exact readsTo_serverLexemes h.2 h.1 depth
  rw [readAlternatives?, hdepth, readWithin_intercalate hne hreads, Alternatives.rightward?_map]

/-- The server is read as the trees of its groups, whether there are several or one. -/
theorem readAlternatives?_servers (hne : groups ≠ []) (htrees : TreesOf groups trees)
    (hids : ∀ group ∈ groups, ∀ endpoint ∈ group.endpoints, IsWord endpoint.operation.id) :
    readAlternatives? ([":<|>"].intercalate (groups.map (serverLexemes (groups.length > 1)))) =
      (Alternatives.rightward? trees).map
        (Alternatives.map fun endpoint => [endpoint.operation.id]) := by
  by_cases hseveral : 1 < groups.length
  · simpa [hseveral] using readAlternatives?_several hseveral htrees hids
  · -- One group has no parentheses around it, and its tree is the whole tree.
    match groups, hne with
    | [group], _ =>
      obtain ⟨tree, rest, htree, hrest, rfl⟩ := List.forall₂_cons_left_iff.1 htrees
      obtain rfl := List.forall₂_nil_left_iff.1 hrest
      have halone := readWithin_group htree fun endpoint hendpoint =>
        (hids group List.mem_cons_self endpoint hendpoint).phrase
      simpa [serverLexemes, List.intercalate, readAlternatives?, Alternatives.rightward?,
        Alternatives.rightward] using halone _
    | _ :: _ :: _, _ => simp at hseveral

/-- The type of a group is read as its tree. -/
theorem Readable.groupTree?_eq (h : api.Readable) (hgroup : group ∈ api.groups)
    (htree : group.tree? = some tree) (context : RenderContext) :
    groupTree? (declarationsOf ((api.code context).text indentStep)) [group.typeName] =
      some (tree.map fun endpoint => lexemes endpoint.route) := by
  have hdefinition : definition? ["type", group.typeName]
      (declarationsOf ((api.code context).text indentStep)) =
      some ([":<|>"].intercalate
        (group.endpoints.map fun endpoint => lexemes endpoint.route)) := by
    refine h.definition?_eq_some (List.ne_nil_of_mem hgroup) (by decide) ?_
    exact List.mem_append_left _ (List.mem_map_of_mem hgroup)
  have hroutes : ∀ endpoint ∈ group.endpoints, Phrase ":<|>" (lexemes endpoint.route) ∧
      unwrap? (lexemes endpoint.route) = none := by
    intro endpoint hendpoint
    have hreadable := h.endpoints endpoint (List.mem_flatMap.2 ⟨group, hgroup, hendpoint⟩)
    exact ⟨hreadable.route, hreadable.bare⟩
  rw [groupTree?, hdefinition]
  exact readWithin_group htree hroutes _

/-- The type of the interface is read as the trees of its groups. -/
theorem Readable.apiTree?_eq (h : api.Readable) (hne : api.groups ≠ [])
    (htrees : TreesOf api.groups trees) (context : RenderContext) :
    apiTree? (declarationsOf ((api.code context).text indentStep)) =
      (Alternatives.rightward? trees).map
        (Alternatives.map fun endpoint => lexemes endpoint.route) := by
  have hapi : definition? ["type", "API"] (declarationsOf ((api.code context).text indentStep)) =
      some ([":<|>"].intercalate (api.groups.map fun group => [group.typeName])) :=
    h.definition?_eq_some hne (by decide) (by simp [declarations])
  have hnames : readAlternatives?
      ([":<|>"].intercalate (api.groups.map fun group => [group.typeName])) =
      Alternatives.rightward? ((api.groups.map fun group => [group.typeName]).map .single) := by
    have hread := readWithin_items hne fun group hgroup => (h.groups group hgroup).phrase
    rw [readAlternatives?, hread, ← Alternatives.rightward?_map, List.map_map, List.map_map]
    rfl
  have hgroups := (List.forall₂_and_left api.groups trees).2 ⟨fun _ => id, htrees⟩
  rw [← Alternatives.rightward?_map]
  simp only [apiTree?, hapi, hnames, Option.bind_eq_bind, Option.bind_some]
  refine Alternatives.bind_substitute? ?_
  rw [List.forall₂_map_left_iff, List.forall₂_map_right_iff]
  exact hgroups.imp fun group tree hgroup => h.groupTree?_eq hgroup.1 hgroup.2 context

/-- The record is read as a field for each endpoint. -/
theorem Readable.recordFields?_eq (h : api.Readable) (hne : api.groups ≠ [])
    (context : RenderContext) :
    recordFields? api.backend (declarationsOf ((api.code context).text indentStep)) =
      some (api.endpoints.map fun endpoint =>
        (endpoint.operation.id, lexemes endpoint.handler)) := by
  have hrecord : definition? ["data", api.backend, "(", "m", "::", "Type", "->", "Type", ")"]
      (declarationsOf ((api.code context).text indentStep)) =
      some (api.backend :: "\x7b" :: ([","].intercalate (api.endpoints.map fieldLexemes) ++
        ["\x7d"])) :=
    h.definition?_eq_some hne (by decide) (by simp [declarations])
  have hfields : ∀ list ∈ api.endpoints.map fieldLexemes, Phrase "," list := by
    rw [List.forall_mem_map]
    intro endpoint hendpoint
    have hreadable := h.endpoints endpoint hendpoint
    have hname : Phrase "," [endpoint.operation.id] :=
      phrase_of_plain (by decide) (List.forall_mem_singleton.2 hreadable.id.isPlainLexeme)
    have hcolons : Phrase "," ["::"] := by decide
    exact hname.append (hcolons.append hreadable.handler)
  have hsplit := splitOuter_intercalate (by simpa using h.endpoints_ne_nil hne) hfields
  have hread : ∀ endpoints : List Endpoint, (endpoints.map fieldLexemes).mapM field? =
      some (endpoints.map fun endpoint => (endpoint.operation.id, lexemes endpoint.handler)) := by
    intro endpoints
    induction endpoints with
    | nil => rfl
    | cons endpoint endpoints ih => simp [fieldLexemes, field?, ih]
  simp [recordFields?, hrecord, hsplit, hread]

/-- The type, the server and the record of a module agree. -/
theorem Readable.exists_tree (h : api.Readable) (hne : api.groups ≠ [])
    (context : RenderContext) : ∃ tree : Alternatives Endpoint,
      let declarations := declarationsOf ((api.code context).text indentStep)
      serverTree? api.backend declarations =
        some (tree.map fun endpoint => [endpoint.operation.id]) ∧
      apiTree? declarations = some (tree.map fun endpoint => lexemes endpoint.route) ∧
      recordFields? api.backend declarations = some (tree.leaves.map fun endpoint =>
        (endpoint.operation.id, lexemes endpoint.handler)) ∧
      tree.leaves = api.endpoints := by
  obtain ⟨trees, htrees, hleaves⟩ := exists_groupTrees h.full
  obtain ⟨tree, htree, hall⟩ := @Alternatives.exists_rightward? _ trees (by
    rintro rfl
    exact hne (List.forall₂_nil_right_iff.1 htrees))
  have hendpoints : tree.leaves = api.endpoints := hall.trans hleaves
  refine ⟨tree, ?_, ?_, ?_, hendpoints⟩
  · have hserver : definition? ["serverFromBackend", api.backend, "\x7b", "..", "\x7d"]
        (declarationsOf ((api.code context).text indentStep)) =
        some ([":<|>"].intercalate (api.groups.map (serverLexemes (api.groups.length > 1)))) :=
      h.definition?_eq_some hne (by decide) (by simp [declarations])
    have hread := readAlternatives?_servers hne htrees fun group hgroup endpoint hendpoint =>
      (h.endpoints endpoint (List.mem_flatMap.2 ⟨group, hgroup, hendpoint⟩)).id
    rw [htree] at hread
    rw [serverTree?, hserver]
    exact hread
  · rw [h.apiTree?_eq hne htrees, htree, Option.map_some]
  · rw [h.recordFields?_eq hne, hendpoints]

end Trees

end ApiModule

/-! ## The server of a lowered interface -/

/-- What a reader of the module of an interface finds: one tree of operations, written three
times. -/
structure Serves (context : RenderContext) (text : String) (tree : Alternatives Operation) :
    Prop where
  /-- The server has the handler of an operation at each leaf. -/
  server : serverTree? (backendName context) (declarationsOf text) =
    some (tree.map fun operation => [operation.id])
  /-- The type of the interface has the route of the same operation there. -/
  api : apiTree? (declarationsOf text) =
    some (tree.map fun operation => lexemes (endpointOf context operation).1.route)
  /-- The record has a field for each leaf, with the type of the handler. -/
  record : recordFields? (backendName context) (declarationsOf text) =
    some (tree.leaves.map fun operation =>
      (operation.id, lexemes (endpointOf context operation).1.handler))
  /-- Every operation stands at one leaf. -/
  operations : tree.leaves.Perm context.api.operations
  /-- No two operations share a handler. -/
  once : (context.api.operations.map Operation.id).Nodup

open Lowering (run Notice)

/-- Whatever document an interface with operations was lowered from, the server that is generated
is the type of the interface in its nesting, with the handler of an operation wherever its route
stands. Every operation has one place there and one field of the record, with its own handler
type. -/
theorem server_matches_api {document : Document} {api : Api} {notices : List Notice}
    (h : run ⟨document, target⟩ = some ⟨.ok api, notices⟩)
    (hkeys : document.tree.hasDistinctKeys = true) (hne : api.operations ≠ []) :
    ∃ text notes tree, apiTemplate.render ⟨api, target⟩ .api = .ok (.file text notes) ∧
      Serves ⟨api, target⟩ text tree := by
  let context : RenderContext := ⟨api, target⟩
  have hlegible := Lowering.legible_of_run_eq_ok h hkeys rfl
  obtain ⟨module, hmodule, hreadable, hbackend, hendpoints⟩ :=
    @exists_readable_apiModule context hlegible rfl rfl
  have hperm := api.tagGroups_perm
  have hgroups : module.groups ≠ [] := by
    intro hnil
    have hnone : api.tagGroups.flatMap TagGroup.operations = [] := by
      simpa [ApiModule.endpoints, hnil] using hendpoints.symm
    exact hne (List.nil_perm.1 (hnone ▸ hperm))
  obtain ⟨tree, hserver, hapi, hrecord, hleaves⟩ := hreadable.exists_tree hgroups context
  -- The tree is over endpoints, and each of them is made from its operation.
  obtain ⟨own, hown, rfl⟩ := Alternatives.exists_map_eq (hleaves.trans hendpoints)
  rw [Alternatives.map_map] at hserver hapi
  rw [Alternatives.leaves_map, List.map_map] at hrecord
  obtain ⟨_, _, _, _, _, _, haccount⟩ := Lowering.account_of_run_eq_ok h hkeys
  refine ⟨(module.code context).text indentStep, module.notes, own, ?_, {
    server := hbackend ▸ hserver
    api := hapi
    record := hbackend ▸ hrecord
    operations := hown ▸ hperm
    once := haccount.namesApart.operations }⟩
  simp only [apiTemplate, wholeApi]
  rw [hmodule]
  rfl

/-- A group of two operations in front of a group of one. -/
theorem server_matches_api_groups :
    let operation (id tag : String) : Json := .object [
      ("operationId", .string id), ("tags", .array [.string tag]),
      ("responses", .object [("200", .object [])])]
    let tree : Json := .object [
      ("info", .object []),
      ("paths", .object [
        ("/cats", .object [("get", operation "list cats" "cats"),
          ("post", operation "add cat" "cats")]),
        ("/dogs", .object [("get", operation "list dogs" "dogs")])])]
    ∃ document api notices, Document.ofTree tree = .ok document ∧
      tree.hasDistinctKeys = true ∧
      run ⟨document, target⟩ = some ⟨.ok api, notices⟩ ∧
      (api.operations.map fun operation => (operation.id, operation.tags)) =
        [("listCats", ["cats"]), ("addCat", ["cats"]), ("listDogs", ["dogs"])] ∧
      ∃ text notes tree, apiTemplate.render ⟨api, target⟩ .api = .ok (.file text notes) ∧
        Serves ⟨api, target⟩ text tree := by
  intro operation tree
  have hview : ((Document.ofTree tree).toOption.bind fun document =>
      (run ⟨document, target⟩).bind fun result => result.outcome.toOption.map fun api =>
        api.operations.map fun operation => (operation.id, operation.tags)) =
      some [("listCats", ["cats"]), ("addCat", ["cats"]), ("listDogs", ["dogs"])] := by
    decide +kernel
  have hkeys : tree.hasDistinctKeys = true := by decide +kernel
  obtain ⟨document, api, notices, hdocument, hrun, hids⟩ := Lowering.exists_run_of_view hview
  obtain rfl := Document.eq_of_ofTree hdocument
  have hne : api.operations ≠ [] := by
    intro hnil
    simp [hnil] at hids
  exact ⟨_, api, notices, hdocument, hkeys, hrun, hids, server_matches_api hrun hkeys hne⟩

end ServantGen.Haskell
