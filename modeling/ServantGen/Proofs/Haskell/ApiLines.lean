import ServantGen.Proofs.Haskell.Declarations
import ServantGen.Proofs.Haskell.ReadableModule

/-!
# The declarations in the module of the interface

A reader of the module finds one type for each group, the type of the whole interface, the record
of handlers and the server, whatever the comments between them say. Each is written over several
lines; read together, the lines are the parts of the declaration with its marks between them.
-/

namespace ServantGen.Haskell

open Text (MadeOf OnOneLine)

/-! ## Lines -/

section Lines

variable {mark : String}

theorem spells_replicate (level : Nat) : Spells (Text.replicate level indentStep.text) [] := by
  induction level with
  | zero => rfl
  | succ level ih =>
    rw [Text.replicate, List.replicate_succ, String.join_cons]
    exact (show Spells indentStep.text [] from rfl).append ih

/-- Where a line stands does not matter for its lexemes. -/
@[simp] theorem lexemes_rowAt (level : Nat) (text : String) :
    lexemes (Code.rowAt indentStep level text) = lexemes text := by
  unfold Code.rowAt
  split
  · rename_i h
    rw [h]
  · rw [(spells_replicate level).lexemes_append, List.nil_append]

@[simp] theorem flatMap_lexemes_rowAt (level : Nat) (texts : List String) :
    (texts.map (Code.rowAt indentStep level)).flatMap lexemes = texts.flatMap lexemes := by
  rw [List.flatMap_map]
  exact List.flatMap_congr fun text _ => lexemes_rowAt level text

/-- Lines further in begin no declaration. -/
theorem beginsDeclaration_rowAt_succ (level : Nat) (text : String) :
    beginsDeclaration (Code.rowAt indentStep (level + 1) text) = false := by
  unfold Code.rowAt
  split
  · rfl
  · rw [Text.replicate, List.replicate_succ, String.join_cons]
    simp [beginsDeclaration, indentStep, Indent.text]

/-- A declaration at the margin with lines further in. -/
theorem readsAs_rows {line : String} (hline : beginsDeclaration line = true)
    (texts : List String) :
    ReadsAs (line :: texts.map (Code.rowAt indentStep 1))
      [lexemes line ++ texts.flatMap lexemes] := by
  rw [← flatMap_lexemes_rowAt 1]
  refine readsAs_declaration hline ?_
  rw [List.forall_mem_map]
  exact fun text _ => beginsDeclaration_rowAt_succ 0 text

theorem spells_alternative : Spells (alternative ++ " ") [":<|>"] := by decide

/-- Lines with the mark of alternatives at the start of each but the first. -/
theorem flatMap_lexemes_marked (texts : List String) :
    (marked "" (alternative ++ " ") texts).flatMap lexemes =
      [":<|>"].intercalate (texts.map lexemes) := by
  cases texts with
  | nil => rfl
  | cons first rest =>
    rw [List.map_cons, intercalate_cons, marked, List.flatMap_cons, String.empty_append,
      List.flatMap_map, List.flatMap_map]
    refine congrArg (lexemes first ++ ·) ?_
    exact List.flatMap_congr fun text _ => spells_alternative.lexemes_append text

end Lines

/-! ## Declarations -/

/-- A line of whole lexemes, a word and the mark of a definition. -/
theorem lexemes_definition {lead word tail : String} {spelled others : List String}
    (hlead : Spells lead spelled) (hword : IsWord word) (htail : lexemes tail = others)
    (happart : StartsApart tail) : lexemes (lead ++ word ++ tail) = spelled ++ word :: others := by
  rw [String.append_assoc, hlead.lexemes_append, hword.endsPlainly.lexemes_append happart,
    hword.lexemes_eq, htail, List.singleton_append]

section Groups

def groupLines : List Endpoint → List String
  | [] => []
  | first :: rest => endpointLines "" first ++ rest.flatMap (endpointLines (alternative ++ " "))

def groupRows (group : EndpointGroup) : List String :=
  "" :: ("-- | Operations tagged @" ++ commentText group.tag ++ "@.") ::
    ("type " ++ group.typeName ++ " =") ::
    (groupLines group.endpoints).map (Code.rowAt indentStep 1)

theorem rows_writeGroup {code : Code} (hlevel : code.level = 0) (group : EndpointGroup) :
    (writeGroup code group).rows indentStep = code.rows indentStep ++ groupRows group ∧
      (writeGroup code group).level = 0 := by
  have hlines : writeGroup code group = (code.blank
      |>.line ("-- | Operations tagged @" ++ commentText group.tag ++ "@.")
      |>.line ("type " ++ group.typeName ++ " =")
      |>.indent |>.lines (groupLines group.endpoints) |>.dedent) := by
    unfold writeGroup groupLines
    cases group.endpoints <;> rfl
  rw [hlines]
  simp [groupRows, hlevel]

theorem rows_foldl_writeGroup {code : Code} (hlevel : code.level = 0)
    (groups : List EndpointGroup) :
    (groups.foldl writeGroup code).rows indentStep =
        code.rows indentStep ++ groups.flatMap groupRows ∧
      (groups.foldl writeGroup code).level = 0 := by
  induction groups generalizing code with
  | nil => simp [hlevel]
  | cons group groups ih =>
    obtain ⟨hrows, hmargin⟩ := rows_writeGroup hlevel group
    obtain ⟨hrest, hlast⟩ := ih hmargin
    refine ⟨?_, hlast⟩
    rw [List.foldl_cons, hrest, hrows, List.flatMap_cons, List.append_assoc]

theorem flatMap_lexemes_endpointLines (lead : String) (endpoint : Endpoint) :
    (endpointLines lead endpoint).flatMap lexemes = lexemes (lead ++ endpoint.route) := by
  have hcomment : lexemes ("-- " ++ endpoint.operation.id ++ ": " ++
      endpoint.operation.method.name ++ " " ++ commentText endpoint.operation.rawPath) = [] :=
    lexemes_comment (by simp)
  rw [endpointLines, List.flatMap_cons, hcomment, List.nil_append, List.flatMap_singleton]

theorem flatMap_lexemes_groupLines (endpoints : List Endpoint) :
    (groupLines endpoints).flatMap lexemes =
      [":<|>"].intercalate (endpoints.map fun endpoint => lexemes endpoint.route) := by
  cases endpoints with
  | nil => rfl
  | cons first rest =>
    rw [List.map_cons, intercalate_cons, groupLines, List.flatMap_append,
      flatMap_lexemes_endpointLines, String.empty_append, List.flatMap_assoc, List.flatMap_map]
    refine congrArg (lexemes first.route ++ ·) ?_
    refine List.flatMap_congr fun endpoint _ => ?_
    rw [flatMap_lexemes_endpointLines, spells_alternative.lexemes_append, List.singleton_append]

/-- The type of a group is its routes. -/
theorem readsAs_groupRows {group : EndpointGroup} (hname : IsWord group.typeName) :
    ReadsAs (groupRows group) [["type", group.typeName] ++ "=" ::
      [":<|>"].intercalate (group.endpoints.map fun endpoint => lexemes endpoint.route)] := by
  have htype : Spells "type " ["type"] := by decide
  have hline : beginsDeclaration ("type " ++ group.typeName ++ " =") = true := by
    rw [String.append_assoc]
    exact beginsDeclaration_append htype (by decide) _
  have hlexemes : lexemes ("type " ++ group.typeName ++ " =") = ["type", group.typeName, "="] :=
    lexemes_definition htype hname (by decide) (by decide)
  have hcomment : lexemes ("-- | Operations tagged @" ++ commentText group.tag ++ "@.") = [] :=
    lexemes_comment (by simp)
  have hrows := readsAs_rows hline (groupLines group.endpoints)
  rw [hlexemes, flatMap_lexemes_groupLines] at hrows
  exact (readsAs_silent rfl).append ((readsAs_silent hcomment).append hrows)

end Groups

section Api

def apiTypeRows (groups : List EndpointGroup) : List String :=
  "" :: "-- | The complete API." :: "type API =" ::
    (marked "" (alternative ++ " ") (groups.map EndpointGroup.typeName)).map
      (Code.rowAt indentStep 1)

theorem rows_writeApiType {code : Code} (hlevel : code.level = 0) {groups : List EndpointGroup}
    (hne : groups ≠ []) :
    (writeApiType groups code).rows indentStep = code.rows indentStep ++ apiTypeRows groups ∧
      (writeApiType groups code).level = 0 := by
  simp [writeApiType, apiTypeRows, hlevel, hne]

/-- The type of the interface is the names of its groups. -/
theorem readsAs_apiTypeRows {groups : List EndpointGroup}
    (hnames : ∀ group ∈ groups, IsWord group.typeName) :
    ReadsAs (apiTypeRows groups) [["type", "API"] ++ "=" ::
      [":<|>"].intercalate (groups.map fun group => [group.typeName])] := by
  have hline : beginsDeclaration "type API =" = true := by decide
  have hwords : (groups.map EndpointGroup.typeName).map lexemes =
      groups.map fun group => [group.typeName] := by
    rw [List.map_map]
    exact List.map_congr_left fun group hgroup => (hnames group hgroup).lexemes_eq
  have hrows := readsAs_rows hline
    (marked "" (alternative ++ " ") (groups.map EndpointGroup.typeName))
  rw [flatMap_lexemes_marked, hwords] at hrows
  exact (readsAs_silent rfl).append ((readsAs_silent (by decide)).append hrows)

end Api

section Backend

variable {api : ApiModule}

def backendLines : List Endpoint → List String
  | [] => []
  | first :: rest => handlerLines "\x7b " first ++ rest.flatMap (handlerLines ", ")

def backendRows (api : ApiModule) : List String :=
  "-- | Handlers for every operation, running in @m@." ::
    ("data " ++ api.backend ++ " (m :: Type -> Type) = " ++ api.backend) ::
    (backendLines api.endpoints ++ ["\x7d"]).map (Code.rowAt indentStep 1)

theorem rows_writeBackend {code : Code} (hlevel : code.level = 0) (hne : api.endpoints ≠ []) :
    (writeBackend api code).rows indentStep = code.rows indentStep ++ backendRows api ∧
      (writeBackend api code).level = 0 := by
  unfold writeBackend backendRows backendLines
  cases hcons : api.endpoints with
  | nil => exact absurd hcons hne
  | cons first rest => simp [hlevel]

/-- A field of the record: the name of the handler and its type. -/
def fieldLexemes (endpoint : Endpoint) : List String :=
  endpoint.operation.id :: "::" :: lexemes endpoint.handler

theorem flatMap_lexemes_handlerLines {lead mark : String} (hlead : Spells lead [mark])
    {endpoint : Endpoint} (hid : IsWord endpoint.operation.id) :
    (handlerLines lead endpoint).flatMap lexemes = mark :: fieldLexemes endpoint := by
  have hcolons : Spells " :: " ["::"] := by decide
  have hsignature : lexemes (endpoint.operation.id ++ " :: " ++ endpoint.handler) =
      fieldLexemes endpoint := by
    rw [String.append_assoc, hid.endsPlainly.lexemes_append (.append (by decide) _), hid.lexemes_eq,
      hcolons.lexemes_append]
    rfl
  have hindent : Spells "  " [] := by decide
  unfold handlerLines
  dsimp only
  split
  · rename_i doc _
    have hdoc : lexemes (lead ++ "-- | " ++ doc) = [mark] := by
      rw [String.append_assoc, hlead.lexemes_append, lexemes_comment (by simp), List.append_nil]
    simp [hdoc, hindent.lexemes_append, hsignature]
  · simp [hlead.lexemes_append, hsignature]

theorem flatMap_lexemes_backendLines {endpoints : List Endpoint} (hne : endpoints ≠ [])
    (hids : ∀ endpoint ∈ endpoints, IsWord endpoint.operation.id) :
    (backendLines endpoints).flatMap lexemes =
      "\x7b" :: [","].intercalate (endpoints.map fieldLexemes) := by
  cases endpoints with
  | nil => exact absurd rfl hne
  | cons first rest =>
    obtain ⟨hfirst, hrest⟩ := List.forall_mem_cons.1 hids
    have hbrace : Spells "\x7b " ["\x7b"] := by decide
    have hcomma : Spells ", " [","] := by decide
    rw [List.map_cons, intercalate_cons, backendLines, List.flatMap_append,
      flatMap_lexemes_handlerLines hbrace hfirst, List.flatMap_assoc, List.flatMap_map,
      List.cons_append]
    refine congrArg (fun others => "\x7b" :: (fieldLexemes first ++ others)) ?_
    exact List.flatMap_congr fun endpoint hendpoint =>
      flatMap_lexemes_handlerLines hcomma (hrest endpoint hendpoint)

/-- The line of the record: its name, the kind of its argument, and its constructor. -/
theorem reads_backendLine (hbackend : IsWord api.backend) :
    beginsDeclaration ("data " ++ api.backend ++ " (m :: Type -> Type) = " ++ api.backend) = true ∧
      lexemes ("data " ++ api.backend ++ " (m :: Type -> Type) = " ++ api.backend) =
        ["data", api.backend, "(", "m", "::", "Type", "->", "Type", ")", "=", api.backend] := by
  have hdata : Spells "data " ["data"] := by decide
  have hkind : Spells " (m :: Type -> Type) = "
    ["(", "m", "::", "Type", "->", "Type", ")", "="] := by decide
  refine ⟨?_, ?_⟩
  · rw [String.append_assoc, String.append_assoc]
    exact beginsDeclaration_append hdata (by decide) _
  · rw [String.append_assoc, lexemes_definition hdata hbackend (hkind.lexemes_append _)
      (.append (by decide) _), hbackend.lexemes_eq]
    rfl

/-- The record has a field for each handler. -/
theorem readsAs_backendRows (hbackend : IsWord api.backend) (hne : api.endpoints ≠ [])
    (hids : ∀ endpoint ∈ api.endpoints, IsWord endpoint.operation.id) :
    ReadsAs (backendRows api)
      [["data", api.backend, "(", "m", "::", "Type", "->", "Type", ")"] ++ "=" :: api.backend ::
        "\x7b" :: [","].intercalate (api.endpoints.map fieldLexemes) ++ ["\x7d"]] := by
  obtain ⟨hline, hlexemes⟩ := reads_backendLine hbackend
  have hrows := readsAs_rows hline (backendLines api.endpoints ++ ["\x7d"])
  rw [hlexemes, List.flatMap_append, flatMap_lexemes_backendLines hne hids] at hrows
  exact (readsAs_silent (by decide)).append hrows

end Backend

section Server

variable {api : ApiModule}

/-- The handlers of a group, in parentheses where they are written. -/
def serverLexemes (several : Bool) (group : EndpointGroup) : List String :=
  let handlers := [":<|>"].intercalate
    (group.endpoints.map fun endpoint => [endpoint.operation.id])
  if several && group.endpoints.length > 1 then "(" :: handlers ++ [")"] else handlers

theorem lexemes_serverGroup (several : Bool) {group : EndpointGroup}
    (hids : ∀ endpoint ∈ group.endpoints, IsWord endpoint.operation.id) :
    lexemes (serverGroup several group) = serverLexemes several group := by
  have hglue : Spells (" " ++ alternative ++ " ") [":<|>"] := by decide
  obtain ⟨hends, hlexemes⟩ := @endsPlainly_join _ _ hglue (by decide)
    (group.endpoints.map fun endpoint => endpoint.operation.id)
    (List.forall_mem_map.2 fun endpoint hendpoint => (hids endpoint hendpoint).endsPlainly)
  have hwords : (group.endpoints.map fun endpoint => endpoint.operation.id).map lexemes =
      group.endpoints.map fun endpoint => [endpoint.operation.id] := by
    rw [List.map_map]
    exact List.map_congr_left fun endpoint hendpoint => (hids endpoint hendpoint).lexemes_eq
  rw [hwords] at hlexemes
  unfold serverGroup serverLexemes
  dsimp only
  rw [List.length_map]
  split
  · rw [(spells_bracketed hends (by decide)).lexemes_eq, hlexemes]
  · exact hlexemes

def serverRows (api : ApiModule) : List String :=
  "-- | Serve the API from a backend." ::
    ("serverFromBackend :: " ++ api.backend ++ " Handler -> Server API") ::
    ("serverFromBackend " ++ api.backend ++ " \x7b..\x7d =") ::
    (marked "" (alternative ++ " ")
      (api.groups.map (serverGroup (api.groups.length > 1)))).map (Code.rowAt indentStep 1)

theorem rows_writeServer {code : Code} (hlevel : code.level = 0) (hne : api.groups ≠ []) :
    (writeServer api code).rows indentStep = code.rows indentStep ++ serverRows api := by
  simp [writeServer, serverRows, hlevel, hne]

/-- The server is made from a record of handlers. -/
theorem readsAs_serverSignature (hbackend : IsWord api.backend) :
    ReadsAs ["serverFromBackend :: " ++ api.backend ++ " Handler -> Server API"]
      [["serverFromBackend", "::", api.backend, "Handler", "->", "Server", "API"]] := by
  have hcolons : Spells "serverFromBackend :: " ["serverFromBackend", "::"] := by decide
  have hline : beginsDeclaration
      ("serverFromBackend :: " ++ api.backend ++ " Handler -> Server API") = true := by
    rw [String.append_assoc]
    exact beginsDeclaration_append hcolons (by decide) _
  have hlexemes : lexemes ("serverFromBackend :: " ++ api.backend ++ " Handler -> Server API") =
      ["serverFromBackend", "::", api.backend, "Handler", "->", "Server", "API"] :=
    lexemes_definition hcolons hbackend (by decide) (by decide)
  have hrows := readsAs_rows hline []
  rwa [hlexemes] at hrows

/-- The server is the handlers of the groups. -/
theorem readsAs_serverRows (hbackend : IsWord api.backend)
    (hids : ∀ endpoint ∈ api.endpoints, IsWord endpoint.operation.id) :
    ReadsAs (serverRows api)
      [["serverFromBackend", "::", api.backend, "Handler", "->", "Server", "API"],
       ["serverFromBackend", api.backend, "\x7b", "..", "\x7d"] ++ "=" ::
        [":<|>"].intercalate (api.groups.map (serverLexemes (api.groups.length > 1)))] := by
  have hname : Spells "serverFromBackend " ["serverFromBackend"] := by decide
  have hline : beginsDeclaration
      ("serverFromBackend " ++ api.backend ++ " \x7b..\x7d =") = true := by
    rw [String.append_assoc]
    exact beginsDeclaration_append hname (by decide) _
  have hlexemes : lexemes ("serverFromBackend " ++ api.backend ++ " \x7b..\x7d =") =
      ["serverFromBackend", api.backend, "\x7b", "..", "\x7d", "="] :=
    lexemes_definition hname hbackend (by decide) (by decide)
  have hservers : (api.groups.map (serverGroup (api.groups.length > 1))).map lexemes =
      api.groups.map (serverLexemes (api.groups.length > 1)) := by
    rw [List.map_map]
    refine List.map_congr_left fun group hgroup => ?_
    refine lexemes_serverGroup _ fun endpoint hendpoint => ?_
    exact hids endpoint (List.mem_flatMap.2 ⟨group, hgroup, hendpoint⟩)
  have hrows := readsAs_rows hline (marked "" (alternative ++ " ")
    (api.groups.map (serverGroup (api.groups.length > 1))))
  rw [hlexemes, flatMap_lexemes_marked, hservers] at hrows
  exact (readsAs_silent (by decide)).append ((readsAs_serverSignature hbackend).append hrows)

end Server

/-! ## The head of the module -/

section Head

/-- The lexemes with which the lines in front of the declarations begin. -/
def headWords : List String :=
  ["\x7b", "module", "import"]

/-- A line that begins nothing but what stands in front of the declarations. -/
def IsHeadLine (line : String) : Prop :=
  beginsDeclaration line = true → ∃ word ∈ headWords, (lexemes line).head? = some word

theorem isHeadLine_of_silent {line : String} (h : lexemes line = []) : IsHeadLine line := by
  simp [IsHeadLine, beginsDeclaration, h]

theorem isHeadLine_append {lead word : String} {others : List String}
    (hlead : Spells lead (word :: others)) (hword : word ∈ headWords) (rest : String) :
    IsHeadLine (lead ++ rest) :=
  fun _ => ⟨word, hword, by simp [hlead.lexemes_append]⟩

theorem isHeadLine_rowAt_succ (level : Nat) (text : String) :
    IsHeadLine (Code.rowAt indentStep (level + 1) text) := by
  intro hbegins
  simp [beginsDeclaration_rowAt_succ] at hbegins

theorem isHeadLine_pragma (name : String) : IsHeadLine (pragma name) := by
  unfold pragma
  rw [String.append_assoc]
  have hlead : Spells "\x7b-# LANGUAGE " ["\x7b", "-#", "LANGUAGE"] := by decide
  exact isHeadLine_append hlead (by decide) _

namespace ApiModule

variable (context : RenderContext) (api : ApiModule)

theorem isHeadLine_of_mem_opening :
    ∀ line ∈ (api.opening context).rows indentStep, IsHeadLine line := by
  have hblank : IsHeadLine "" := isHeadLine_of_silent rfl
  have hmark : IsHeadLine "--" := isHeadLine_of_silent (by decide)
  have hmodule : IsHeadLine ("module " ++ api.module ++ ".API") := by
    have hlead : Spells "module " ["module"] := by decide
    rw [String.append_assoc]
    exact isHeadLine_append hlead (by decide) _
  simp only [opening, writeExports, headerComment, Code.rows_blank, Code.rows_line, Code.rows_lines,
    Code.rows_dedent, Code.rows_indent, Code.rows_empty, Code.level_line, Code.level_lines,
    Code.level_blank, Code.level_indent, Code.level_empty, Code.rowAt_zero,
    List.forall_mem_append, List.forall_mem_map, List.forall_mem_cons, List.not_mem_nil,
    false_imp_iff, isHeadLine_pragma, hblank, hmark, hmodule, isHeadLine_rowAt_succ, implies_true,
    and_true, true_and]
  exact ⟨isHeadLine_of_silent (lexemes_comment (by simp)),
    isHeadLine_of_silent (lexemes_comment (by simp))⟩

theorem isHeadLine_of_mem_head : ∀ line ∈ (api.head context).rows indentStep, IsHeadLine line := by
  have himport : Spells "import " ["import"] := by decide
  have hline : ∀ rest, IsHeadLine ("import " ++ rest) := isHeadLine_append himport (by decide)
  intro line hmem
  rw [rows_head] at hmem
  simp only [List.mem_append, List.mem_singleton] at hmem
  obtain ((hmem | hmem) | rfl) | hmem := hmem
  · exact isHeadLine_of_mem_opening context api line hmem
  · obtain ⟨module, -, names, rfl, -⟩ := exists_isImportLine api.imports_subset hmem
    simpa only [String.append_assoc] using hline _
  · exact hline "Servant"
  · split at hmem
    · simp only [List.mem_cons, List.not_mem_nil, or_false] at hmem
      obtain rfl | rfl := hmem
      · exact isHeadLine_of_silent rfl
      · simpa only [String.append_assoc] using hline _
    · simp at hmem

/-- What stands in front of the declarations is none of them. -/
theorem exists_readsAs_head : ∃ declarations,
    ReadsAs ((api.head context).rows indentStep) declarations ∧
      ∀ declaration ∈ declarations, ∃ word ∈ headWords, declaration.head? = some word := by
  have hbegins : beginsDeclaration (pragma "DataKinds") = true := by decide
  obtain ⟨rest, hrows⟩ : ∃ rest,
      (api.head context).rows indentStep = pragma "DataKinds" :: rest := by
    rw [rows_head]
    simp [opening, writeExports]
  have hlines := isHeadLine_of_mem_head context api
  rw [hrows] at hlines ⊢
  exact ⟨_, readsAs_readLines hbegins rest,
    @head?_of_mem_readLines _ (fun first => ∃ word ∈ headWords, first = some word) hlines⟩

end ApiModule

end Head

/-! ## The whole module -/

namespace ApiModule

variable (context : RenderContext) {api : ApiModule}

def declarations (api : ApiModule) : List (List String) :=
  (api.groups.map fun group => ["type", group.typeName] ++ "=" ::
      [":<|>"].intercalate (group.endpoints.map fun endpoint => lexemes endpoint.route)) ++
    [["type", "API"] ++ "=" ::
        [":<|>"].intercalate (api.groups.map fun group => [group.typeName]),
     ["api", "::", "Proxy", "API"],
     ["api", "=", "Proxy"],
     ["data", api.backend, "(", "m", "::", "Type", "->", "Type", ")"] ++ "=" :: api.backend ::
        "\x7b" :: [","].intercalate (api.endpoints.map fieldLexemes) ++ ["\x7d"],
     ["serverFromBackend", "::", api.backend, "Handler", "->", "Server", "API"],
     ["serverFromBackend", api.backend, "\x7b", "..", "\x7d"] ++ "=" ::
        [":<|>"].intercalate (api.groups.map (serverLexemes (api.groups.length > 1)))]

theorem rows_code (hgroups : api.groups ≠ []) (hendpoints : api.endpoints ≠ []) :
    (api.code context).rows indentStep = (api.head context).rows indentStep ++
      api.groups.flatMap groupRows ++ apiTypeRows api.groups ++
      ["", "api :: Proxy API", "api = Proxy", ""] ++ backendRows api ++ [""] ++ serverRows api := by
  obtain ⟨htypes, hmargin⟩ := rows_foldl_writeGroup (level_head context api) api.groups
  obtain ⟨htype, hlevel⟩ := rows_writeApiType hmargin hgroups
  let code := writeApiType api.groups (api.groups.foldl writeGroup (api.head context))
    |>.blank |>.line "api :: Proxy API" |>.line "api = Proxy" |>.blank
  have hcode : code.level = 0 := by simpa [code] using hlevel
  obtain ⟨hbackend, hbehind⟩ := rows_writeBackend hcode hendpoints
  have hserver := @rows_writeServer api (writeBackend api code).blank (by simpa using hbehind)
    hgroups
  have hwhole : api.code context = writeServer api (writeBackend api code).blank := rfl
  rw [hwhole, hserver, Code.rows_blank, hbackend]
  simp [code, htype, htypes, hlevel]

theorem Readable.endpoints_ne_nil (h : api.Readable) (hgroups : api.groups ≠ []) :
    api.endpoints ≠ [] := by
  obtain ⟨group, hgroup⟩ := List.exists_mem_of_ne_nil _ hgroups
  obtain ⟨endpoint, hendpoint⟩ := List.exists_mem_of_ne_nil _ (h.full group hgroup)
  exact List.ne_nil_of_mem (List.mem_flatMap.2 ⟨group, hgroup, hendpoint⟩)

/-- The module is read as its declarations behind those of its head. -/
theorem exists_declarationsOf_code (h : api.Readable) (hgroups : api.groups ≠ []) : ∃ before,
      declarationsOf ((api.code context).text indentStep) = before ++ api.declarations ∧
      ∀ declaration ∈ before, ∃ word ∈ headWords, declaration.head? = some word := by
  obtain ⟨before, hhead, hbefore⟩ := exists_readsAs_head context api
  refine ⟨before, ?_, hbefore⟩
  have hids : ∀ endpoint ∈ api.endpoints, IsWord endpoint.operation.id :=
    fun endpoint hendpoint => (h.endpoints endpoint hendpoint).id
  have hendpoints := h.endpoints_ne_nil hgroups
  have htypes := ReadsAs.flatMap fun group hgroup => readsAs_groupRows (h.groups group hgroup)
  have hproxy : ReadsAs ["", "api :: Proxy API", "api = Proxy", ""]
      [["api", "::", "Proxy", "API"], ["api", "=", "Proxy"]] := by decide
  have hblank : ReadsAs [""] [] := by decide
  have hrows := ((((((hhead.append htypes).append (readsAs_apiTypeRows h.groups)).append
    hproxy).append (readsAs_backendRows h.backend hendpoints hids)).append hblank).append
    (readsAs_serverRows h.backend hids)).append hblank
  rw [← rows_code context hgroups hendpoints, ← Code.splitOn_text (isRows_code context h)] at hrows
  rw [declarationsOf, hrows, declarations]
  simp

end ApiModule

end ServantGen.Haskell
