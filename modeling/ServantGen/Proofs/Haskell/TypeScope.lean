import ServantGen.Proofs.Haskell.FieldLabels

/-!
# Types in scope

Every type that a generated module mentions is there without an import, is imported by name in the
head of the same module, comes from the server library, or is declared and exported once by the
module of types, which the module of the interface imports. Imports are collected along other ways
than the texts of types are written, and both are read here from what was written.
-/

namespace ServantGen.Haskell

/-! ## Scope -/

/-- The types of the server library. -/
def servantTypes : List String :=
  ["NoContent", "Headers", "Header"]

/-- Whether a lexeme in a type is the name of a type: it begins with a capital. -/
def isTypeName (lexeme : String) : Bool :=
  lexeme.toList.head?.any Char.isUpper

/-- The two generated modules as they are read. -/
structure ReadModules where
  api : List (List String)
  /-- Nothing where the module is left out. -/
  types : List (List String)
  /-- The name by which the module of types is imported. -/
  typesName : String
  declared : List ReadType

/-- The name of a type is in scope in a module. -/
inductive InScope (modules : ReadModules) (own : List (List String)) : String → Prop
  | prelude {name : String} (h : name ∈ preludeTypes) : InScope modules own name
  | imported {entry : Import} (hlibrary : entry ∈ libraryImports) (h : entry ∈ importsOf own) :
      InScope modules own entry.name
  | servant {name : String} (h : name ∈ servantTypes) (himport : ["import", "Servant"] ∈ own) :
      InScope modules own name
  | declared {name : String} (hdeclared : (modules.declared.map ReadType.name).count name = 1)
      (hexported : (exportsOf modules.types).count (TypesModule.exportedItem name) = 1)
      (hseen : own = modules.types ∨ ["import", modules.typesName] ∈ own) :
      InScope modules own name

/-- The lexemes that name types are in scope. -/
def Scoped (modules : ReadModules) (own : List (List String)) (list : List String) : Prop :=
  ∀ name ∈ list, isTypeName name = true → InScope modules own name

section Scoped

variable {modules : ReadModules} {own : List (List String)} {first rest : List String}

theorem Scoped.append (h : Scoped modules own first) (h' : Scoped modules own rest) :
    Scoped modules own (first ++ rest) :=
  List.forall_mem_append.2 ⟨h, h'⟩

/-- Lexemes of which only such name types that are always there. -/
theorem scoped_of_prelude (h : ∀ name ∈ first, isTypeName name = true → name ∈ preludeTypes) :
    Scoped modules own first := fun name hmem hname => .prelude (h name hmem hname)

theorem scoped_of_servant (himport : ["import", "Servant"] ∈ own)
    (h : ∀ name ∈ first, isTypeName name = true → name ∈ servantTypes) :
    Scoped modules own first := fun name hmem hname => .servant (h name hmem hname) himport

end Scoped

/-! ## Types -/

structure HasNames (names : List String) (type : DataType) : Prop where
  models : ∀ name ∈ type.models, name ∈ names
  enums : ∀ entry ∈ type.enums, entry.1 ∈ names

theorem isKept_hasNames (names : List String) : IsKept (HasNames names) where
  string := ⟨by simp, by simp⟩
  stripOptional := fun h => ⟨by simpa using h.models, by simpa using h.enums⟩
  item := fun h => ⟨h.models, h.enums⟩

section Types

variable {modules : ReadModules} {own : List (List String)} {names : List String}
  {type : DataType} (hscope : ∀ name ∈ names, InScope modules own name)
include hscope

theorem Mentions.inScope {name : String} (h : Mentions type name)
    (hname : isTypeName name = true) (hnames : HasNames names type)
    (himports : typeImports type ⊆ importsOf own) : InScope modules own name := by
  cases h with
  | bracket h =>
    have hbrackets : ∀ lexeme ∈ typeBrackets, isTypeName lexeme = false := by decide
    simp [hbrackets name h] at hname
  | prelude h => exact .prelude h
  | imported h => exact .imported (typeImports_subset type h) (himports h)
  | model h => exact hscope name (hnames.models name h)
  | enum h => exact hscope _ (hnames.enums _ h)

theorem scoped_typeText (hwords : HasWords type) (hnames : HasNames names type)
    (himports : typeImports type ⊆ importsOf own) :
    Scoped modules own (lexemes (typeText type)) := fun name hmem hname =>
  (mentions_of_mem_lexemes hwords name hmem).inScope hscope hname hnames himports

theorem scoped_atomText (hwords : HasWords type) (hnames : HasNames names type)
    (himports : typeImports type ⊆ importsOf own) :
    Scoped modules own (lexemes (atomText type)) := fun _ hmem hname =>
  (mentions_of_mem_lexemes_atomText hwords hmem).inScope hscope hname hnames himports

end Types

/-! ## Routes and handlers -/

/-- The lexemes of a result: those of its body, or with headers in front of it. -/
theorem lexemes_result {result : ResultType}
    (h : ∀ type ∈ result.body.toList ++ result.headers.map Prod.snd, HasWords type) :
    lexemes result.text = lexemes result.bodyText ∨
      lexemes result.text = ["(", "Headers", "'", "["] ++ [","].intercalate
        (result.headers.map fun header =>
          ["Header", literal header.1] ++ lexemes (atomText header.2)) ++ ["]"] ++
        lexemes result.bodyText ++ [")"] := by
  rw [List.forall_mem_append, List.forall_mem_map] at h
  obtain ⟨hbody, hheaders⟩ := h
  have hbody := (@phraseText_bodyText result (by simpa using hbody)).ends
  unfold ResultType.text
  dsimp only
  split
  · exact .inl rfl
  · right
    have hheader : ∀ header ∈ result.headers,
        EndsPlainly ("Header " ++ literal header.1 ++ " " ++ atomText header.2) ∧
          lexemes ("Header " ++ literal header.1 ++ " " ++ atomText header.2) =
            ["Header", literal header.1] ++ lexemes (atomText header.2) := by
      intro header hmem
      have hcombinator : Spells "Header " ["Header"] := by decide
      have hlead := spells_named ["Header"] hcombinator header.1
      have hends := (phraseText_atomText (hheaders header hmem)).ends
      exact ⟨hlead.endsPlainly_append hends, hlead.lexemes_append _⟩
    have hcomma : Spells ", " [","] := by decide
    obtain ⟨hends, hlist⟩ := endsPlainly_join hcomma (by decide)
      (List.forall_mem_map.2 fun header hmem => (hheader header hmem).1)
    have hread : (result.headers.map fun header =>
        "Header " ++ literal header.1 ++ " " ++ atomText header.2).map lexemes =
        result.headers.map fun header =>
          ["Header", literal header.1] ++ lexemes (atomText header.2) := by
      rw [List.map_map]
      exact List.map_congr_left fun header hmem => (hheader header hmem).2
    have hopening : Spells "(Headers '[" ["(", "Headers", "'", "["] := by decide
    have hmiddle : Spells "] " ["]"] := by decide
    have hapart : StartsApart "] " := by decide
    have hclosing : lexemes ")" = [")"] := by decide
    rw [String.append_assoc, String.append_assoc, String.append_assoc, hopening.lexemes_append,
      hends.lexemes_append (hapart.append _), hmiddle.lexemes_append,
      hbody.lexemes_append (by decide), hclosing, hlist, hread]
    simp only [List.append_assoc]

section Parts

variable {modules : ReadModules} {own : List (List String)} {names : List String}
  {part : RoutePart} (hscope : ∀ name ∈ names, InScope modules own name)
  (hservant : ["import", "Servant"] ∈ own)
include hscope hservant

theorem scoped_result {result : ResultType}
    (hwords : ∀ type ∈ result.body.toList ++ result.headers.map Prod.snd, HasWords type)
    (hnames : ∀ type ∈ result.body.toList ++ result.headers.map Prod.snd, HasNames names type)
    (himports : result.imports ⊆ importsOf own) : Scoped modules own (lexemes result.text) := by
  have hscoped : ∀ type ∈ result.body.toList ++ result.headers.map Prod.snd,
      Scoped modules own (lexemes (atomText type)) := by
    intro type htype
    refine scoped_atomText hscope (hwords type htype) (hnames type htype) fun entry hentry => ?_
    have hall : result.imports =
        (result.body.toList ++ result.headers.map Prod.snd).flatMap typeImports := by
      simp [ResultType.imports, List.flatMap_map]
    exact himports (hall ▸ List.mem_flatMap.2 ⟨type, htype, hentry⟩)
  rw [List.forall_mem_append, List.forall_mem_map] at hscoped
  have hbody : Scoped modules own (lexemes result.bodyText) := by
    unfold ResultType.bodyText
    split
    · rename_i type htype
      exact hscoped.1 type (by simp [htype])
    · exact scoped_of_servant hservant (by decide)
  obtain heq | heq := lexemes_result hwords
  · exact heq ▸ hbody
  · have hopening : Scoped modules own ["(", "Headers", "'", "["] :=
      scoped_of_servant hservant (by decide)
    have hmiddle : Scoped modules own ["]"] := scoped_of_servant hservant (by decide)
    have hclosing : Scoped modules own [")"] := scoped_of_servant hservant (by decide)
    have hheader : ∀ header ∈ result.headers, Scoped modules own
        (["Header", literal header.1] ++ lexemes (atomText header.2)) := by
      intro header hmem
      refine (scoped_of_servant hservant ?_).append (hscoped.2 header hmem)
      simp [isTypeName, literal, servantTypes]
    have hheaders : Scoped modules own ([","].intercalate (result.headers.map fun header =>
        ["Header", literal header.1] ++ lexemes (atomText header.2))) := by
      intro name hmem hname
      obtain rfl | ⟨list, hlist, hmem⟩ := mem_intercalate hmem
      · simp [isTypeName] at hname
      · obtain ⟨header, hmemheader, rfl⟩ := List.mem_map.1 hlist
        exact hheader header hmemheader name hmem hname
    exact heq ▸ (((hopening.append hheaders).append hmiddle).append hbody).append hclosing

/-- What a token stands for is in scope. -/
theorem scoped_argument (hpart : part.Readable) (hnames : ∀ type ∈ part.types, HasNames names type)
    (himports : part.imports ⊆ importsOf own) :
    ∀ argument ∈ part.argument?, Scoped modules own (lexemes argument) := by
  have hmaybe : Scoped modules own ["Maybe"] := scoped_of_prelude (by decide)
  have htype : ∀ type, part.types = [type] → typeImports type ⊆ importsOf own →
      Scoped modules own (lexemes (typeText type)) ∧
        Scoped modules own (lexemes ("Maybe " ++ atomText type)) := by
    intro type htypes himports
    have hmem : type ∈ part.types := htypes ▸ List.mem_cons_self
    have hwords := hpart.words type hmem
    refine ⟨scoped_typeText hscope hwords (hnames type hmem) himports, ?_⟩
    rw [spells_maybe.lexemes_append]
    exact hmaybe.append (scoped_atomText hscope hwords (hnames type hmem) himports)
  cases part with
  | literal component => simp [RoutePart.argument?]
  | marker text => exact absurd rfl (hpart.marker text)
  | capture name type =>
    simpa [RoutePart.argument?] using (htype type rfl himports).1
  | queryList name item =>
    have hends := (phraseText_typeText (hpart.words item List.mem_cons_self)).ends
    have hpair : ("[", "]") ∈ brackets := by decide
    have hopening : Scoped modules own ["["] := scoped_of_prelude (by decide)
    have hclosing : Scoped modules own ["]"] := scoped_of_prelude (by decide)
    rintro _ ⟨⟩
    rw [(spells_bracketed hends hpair).lexemes_eq]
    exact (hopening.append (htype item rfl himports).1).append hclosing
  | value carrier name type required =>
    cases required with
    | true => simpa [RoutePart.argument?] using (htype type rfl himports).1
    | false => simpa [RoutePart.argument?] using (htype type rfl himports).2
  | cookies =>
    have hlexemes : lexemes "Maybe Text" = ["Maybe", "Text"] := by decide
    have htext : InScope modules own "Text" :=
      @InScope.imported _ _ ⟨"Data.Text", "Text"⟩ (by decide) (himports List.mem_cons_self)
    rintro _ ⟨⟩
    rw [hlexemes]
    exact hmaybe.append (List.forall_mem_singleton.2 fun _ => htext)
  | body type required =>
    cases required with
    | true => simpa [RoutePart.argument?] using (htype type rfl himports).1
    | false => simpa [RoutePart.argument?] using (htype type rfl himports).2
  | verb method status result =>
    have hanswer : Spells "m " ["m"] := by decide
    have hmonad : Scoped modules own ["m"] := scoped_of_prelude (by decide)
    rintro _ ⟨⟩
    rw [hanswer.lexemes_append]
    exact hmonad.append (scoped_result hscope hservant hpart.words hnames himports)

end Parts

/-! ## The two modules -/

structure ImportsHere (context : RenderContext) (read : List (List String)) : Prop where
  servant : ["import", "Servant"] ∈ read
  types : hasTypes context = true → ["import", moduleName context ++ ".Types"] ∈ read
  kind : ⟨"Data.Kind", "Type"⟩ ∈ importsOf read
  parts : ∀ operation ∈ context.api.operations, ∀ part ∈ (endpointOf context operation).1.parts,
    part.imports ⊆ importsOf read

section Modules

variable {context : RenderContext} (hrefers : context.api.RefersToItself)
include hrefers

/-- The module of the interface imports what its routes need. -/
theorem exists_importsHere (hconvention : context.target.convention = convention) :
    ∃ text notes, apiTemplate.render context .api = .ok (.file text notes) ∧
      ImportsHere context (declarationsOf text) := by
  obtain ⟨module, hmodule, hname, hplain⟩ := exists_apiModule hrefers hconvention
  have hendpoints : module.endpoints = (context.api.tagGroups.flatMap TagGroup.operations).map
      fun operation => (endpointOf context operation).1 := by
    obtain rfl := Except.ok.inj (hmodule.symm.trans (apiModule_eq hrefers))
    exact endpoints_groupsOf context _ _
  have hread := module.importedHere_subset context hplain
  have hlibrary : module.imports ⊆ importsOf (declarationsOf ((module.code context).text
      indentStep)) := by
    intro own hown
    have himports : module.imports ⊆ moduleImports := fun own hown =>
      List.mem_append_left _ (module.imports_subset hown)
    obtain ⟨declaration, hmem, hdeclaration⟩ := List.mem_flatMap.1
      (mem_importsOf_importDeclarations himports hown (module.imports_subset hown))
    refine List.mem_flatMap.2 ⟨declaration, hread ?_, hdeclaration⟩
    exact List.mem_append_left _ (List.mem_append_left _ hmem)
  refine ⟨(module.code context).text indentStep, module.notes, ?_, ?_, ?_, ?_, ?_⟩
  · simp only [apiTemplate, wholeApi, hmodule]
    rfl
  · exact hread (List.mem_append_left _ (List.mem_append_right _ List.mem_cons_self))
  · intro hhas
    refine hread (List.mem_append_right _ ?_)
    rw [if_pos hhas, hname]
    exact List.mem_cons_self
  · exact hlibrary List.mem_cons_self
  · intro operation hmem part hpart own hown
    have hendpoint : (endpointOf context operation).1 ∈ module.endpoints := by
      rw [hendpoints]
      exact List.mem_map.2 ⟨operation, context.api.tagGroups_perm.mem_iff.2 hmem, rfl⟩
    refine hlibrary (List.mem_cons_of_mem _ ?_)
    exact List.mem_flatMap.2 ⟨_, hendpoint, List.mem_flatMap.2 ⟨part, hpart, hown⟩⟩

omit hrefers in
/-- Where no root marker is set, the routes and the handler types in the text are those of the
operations. -/
theorem exists_readEndpoints (h : context.api.Legible)
    (hconvention : context.target.convention = convention)
    (hmarker : context.target.rootMarker = "") (hne : context.api.operations ≠ []) :
    ∃ text notes routes fields, apiTemplate.render context .api = .ok (.file text notes) ∧
      apiTree? (declarationsOf text) = some routes ∧
      recordFields? (backendName context) (declarationsOf text) = some fields ∧
      (∀ route ∈ routes.leaves, ∃ operation ∈ context.api.operations,
        lexemes (endpointOf context operation).1.route = route) ∧
      ∀ field ∈ fields, ∃ operation ∈ context.api.operations,
        lexemes (endpointOf context operation).1.handler = field.2 := by
  obtain ⟨module, hmodule, hreadable, hbackend, hendpoints⟩ :=
    exists_readable_apiModule h hconvention hmarker
  have hgroups : module.groups ≠ [] := by
    intro hnil
    have hnone : context.api.tagGroups.flatMap TagGroup.operations = [] := by
      simpa [ApiModule.endpoints, hnil] using hendpoints.symm
    exact hne (List.nil_perm.1 (hnone ▸ context.api.tagGroups_perm))
  have hown : ∀ endpoint ∈ module.endpoints, ∃ operation ∈ context.api.operations,
      (endpointOf context operation).1 = endpoint := by
    rw [hendpoints, List.forall_mem_map]
    exact fun operation hmem =>
      ⟨operation, context.api.tagGroups_perm.mem_iff.1 hmem, rfl⟩
  obtain ⟨tree, -, hapi, hrecord, hleaves⟩ := hreadable.exists_tree hgroups context
  refine ⟨(module.code context).text indentStep, module.notes, _, _, ?_, hapi,
    hbackend ▸ hrecord, ?_, ?_⟩
  · simp only [apiTemplate, wholeApi, hmodule]
    rfl
  · rw [Alternatives.leaves_map, hleaves, List.forall_mem_map]
    intro endpoint hmem
    obtain ⟨operation, hoperation, rfl⟩ := hown endpoint hmem
    exact ⟨operation, hoperation, rfl⟩
  · rw [hleaves, List.forall_mem_map]
    intro endpoint hmem
    obtain ⟨operation, hoperation, rfl⟩ := hown endpoint hmem
    exact ⟨operation, hoperation, rfl⟩

theorem hasNames_of_mem_allTypes {type : DataType} (htype : type ∈ context.api.allTypes) :
    HasNames (typeNames context) type where
  models := fun name hname =>
    List.mem_append_left _ (ModelTable.contains_iff.1 (hrefers.types type htype name hname))
  enums := fun entry hentry => List.mem_append_right _
    (List.mem_map_of_mem (f := InlineEnum.name) (hrefers.enums type htype entry hentry))

end Modules

section Endpoints

variable {context : RenderContext} {operation : Operation} {modules : ReadModules}
  {names : List String}

def ScopedRoute (modules : ReadModules) (route : List String) : Prop :=
  ∀ token ∈ splitOuter ":>" 0 route, ∀ type ∈ argumentOf? token, Scoped modules modules.api type

structure ScopedEndpoint (context : RenderContext) (modules : ReadModules)
    (operation : Operation) : Prop where
  /-- The route is read behind the root marker, where there is one. -/
  route : ∃ route, (endpointOf context operation).1.route = markerText context operation ++ route ∧
    ScopedRoute modules (lexemes route)
  handler : Scoped modules modules.api (lexemes (endpointOf context operation).1.handler)

theorem scopedEndpoint (hscope : ∀ name ∈ names, InScope modules modules.api name)
    (hservant : ["import", "Servant"] ∈ modules.api) (halone : operation.path.RootAlone)
    (hreadable : ∀ part ∈ tokenParts context operation, part.Readable)
    (hnames : ∀ part ∈ tokenParts context operation, ∀ type ∈ part.types, HasNames names type)
    (himports : ∀ part ∈ (endpointOf context operation).1.parts,
      part.imports ⊆ importsOf modules.api) : ScopedEndpoint context modules operation := by
  have hargument : ∀ part ∈ tokenParts context operation, ∀ argument ∈ part.argument?,
      Scoped modules modules.api (lexemes argument) := by
    intro part hpart
    refine scoped_argument hscope hservant (hreadable part hpart) (hnames part hpart) ?_
    refine himports part ?_
    rw [parts_eq_markerParts_append halone]
    exact List.mem_append_right _ hpart
  constructor
  · refine ⟨_, route_eq_markerText_append halone, ?_⟩
    rw [ScopedRoute, splitOuter_tokens hreadable, List.forall_mem_map]
    intro part hpart type htype
    rw [RoutePart.argumentOf?_text (hreadable part hpart), Option.mem_def,
      Option.map_eq_some_iff] at htype
    obtain ⟨argument, hargumentOf, rfl⟩ := htype
    exact hargument part hpart argument hargumentOf
  · have harrow : Spells " -> " ["->"] := by decide
    have hends := endsPlainly_join harrow (by decide) fun argument hmem => by
      obtain ⟨part, hpart, heq⟩ := List.mem_filterMap.1 hmem
      exact (RoutePart.phraseText_argument (hreadable part hpart) argument heq).ends
    rw [handler_eq_join halone, hends.2]
    intro name hmem hname
    obtain rfl | ⟨list, hlist, hmem⟩ := mem_intercalate hmem
    · simp [isTypeName] at hname
    · obtain ⟨argument, hargumentOf, rfl⟩ := List.mem_map.1 hlist
      obtain ⟨part, hpart, heq⟩ := List.mem_filterMap.1 hargumentOf
      exact hargument part hpart argument heq name hmem hname

/-- Where types of the interface and imports are in scope, all endpoints are. -/
theorem ImportsHere.scopedEndpoints (hlegible : context.api.Legible)
    (himports : ImportsHere context modules.api)
    (hscope : ∀ name ∈ typeNames context, InScope modules modules.api name) :
    ∀ operation ∈ context.api.operations, ScopedEndpoint context modules operation := by
  intro operation hmem
  have hnames : ∀ type ∈ Api.operationTypes operation ++ operation.path.types,
      HasNames (typeNames context) type := by
    refine List.forall_mem_append.2 ⟨fun type htype => ?_, fun type htype => ?_⟩
    · exact hasNames_of_mem_allTypes hlegible.refers (List.mem_append_left _
        (List.mem_append_right _ (List.mem_flatMap.2 ⟨operation, hmem, htype⟩)))
    · exact hasNames_of_mem_allTypes hlegible.refers (List.mem_append_right _
        (List.mem_flatMap.2 ⟨operation, hmem, htype⟩))
  obtain ⟨htypes, hroute⟩ := List.forall_mem_append.1 hnames
  exact scopedEndpoint hscope himports.servant (hlegible.routes operation hmem)
    (readable_tokenParts (hlegible.operationTypes hmem) (hlegible.routeTypes hmem))
    ((isKept_hasNames (typeNames context)).tokenParts htypes hroute)
    (himports.parts operation hmem)

/-- The types in the type of the interface and in the record of handlers, as they stand in the
text, are in scope. -/
def ScopedText (context : RenderContext) (modules : ReadModules) : Prop :=
  ∃ routes fields, apiTree? modules.api = some routes ∧
    recordFields? (backendName context) modules.api = some fields ∧
    (∀ route ∈ routes.leaves, ScopedRoute modules route) ∧
    ∀ field ∈ fields, Scoped modules modules.api field.2

theorem scopedText {text : String} {notes : List RenderNote} (h : context.api.Legible)
    (hconvention : context.target.convention = convention)
    (hmarker : context.target.rootMarker = "") (hne : context.api.operations ≠ [])
    (hrender : apiTemplate.render context .api = .ok (.file text notes))
    (hread : modules.api = declarationsOf text)
    (hscoped : ∀ operation ∈ context.api.operations, ScopedEndpoint context modules operation) :
    ScopedText context modules := by
  obtain ⟨_, _, routes, fields, hsame, hroutes, hfields, hleaves, hhandlers⟩ :=
    exists_readEndpoints h hconvention hmarker hne
  obtain ⟨rfl, -⟩ := Rendered.file.inj (Except.ok.inj (hsame.symm.trans hrender))
  refine ⟨routes, fields, hread ▸ hroutes, hread ▸ hfields, fun route hmem => ?_,
    fun field hmem => ?_⟩
  · obtain ⟨operation, hoperation, rfl⟩ := hleaves route hmem
    obtain ⟨route, hroute, hscopedRoute⟩ := (hscoped operation hoperation).route
    have hnone : markerText context operation = "" := if_neg (by simp [hmarker])
    rwa [hroute, hnone, String.empty_append]
  · obtain ⟨operation, hoperation, heq⟩ := hhandlers field hmem
    exact heq ▸ (hscoped operation hoperation).handler

end Endpoints

/-! ## The module of types -/

def instanceBody? : List String → Option (List String)
  | "instance" :: _ :: _ :: "where" :: body => some body
  | _ => none

section Types

variable {context : RenderContext} {types : TypesModule} {read : List (List String)}
  (h : types.IsReadFrom context read)
include h

/-- The types of the module are declared and exported once. -/
theorem TypesModule.IsReadFrom.inScope {modules : ReadModules} {own : List (List String)}
    (htypes : modules.types = read)
    (hdeclared : modules.declared = types.declarations.map Declaration.readType)
    (hseen : own = modules.types ∨ ["import", modules.typesName] ∈ own) :
    ∀ name ∈ typeNames context, InScope modules own name := by
  intro name hname
  have hnames : modules.declared.map ReadType.name = typeNames context := by
    rw [hdeclared, List.map_map, ← h.isFor.map_name]
    rfl
  have hexports : exportsOf modules.types = (typeNames context).map exportedItem := by
    rw [htypes, h.exportsOf_eq, ← h.isFor.map_name, List.map_map]
    rfl
  have hinjective : Function.Injective exportedItem := fun first second heq => by
    simpa [exportedItem] using heq
  refine .declared ?_ ?_ hseen
  · rw [hnames]
    exact List.count_eq_one_of_mem h.isFor.nodup_typeNames hname
  · rw [hexports]
    exact List.count_eq_one_of_mem (h.isFor.nodup_typeNames.map hinjective)
      (List.mem_map_of_mem hname)

/-- What the types in a declaration need is imported. -/
theorem TypesModule.IsReadFrom.typeImports_subset {declaration : Declaration}
    (hmem : declaration ∈ types.declarations) :
    ∀ type ∈ declaration.body.types, typeImports type ⊆ importsOf read := by
  have hbody : ∀ type ∈ declaration.body.types, typeImports type ⊆ declaration.body.imports := by
    cases declaration.body with
    | unit => simp [DeclarationBody.types]
    | record selectors options label =>
      refine List.forall_mem_map.2 fun selector hselector own hown => ?_
      exact List.mem_flatMap.2 ⟨selector, hselector, hown⟩
    | enum title constructors => simp [DeclarationBody.types]
    | union constructors discriminator =>
      exact List.forall_mem_map.2 fun entry _ => List.nil_subset _
    | newtype type => exact List.forall_mem_singleton.2 (List.subset_append_left _ _)
  intro type htype own hown
  refine h.mem_importsOf ?_ (Haskell.typeImports_subset type hown)
  exact List.mem_append_right _ (List.mem_flatMap.2 ⟨declaration, hmem, hbody type htype hown⟩)

/-- The types in declarations are in scope in the module. -/
theorem TypesModule.IsReadFrom.scoped_mentioned {modules : ReadModules}
    (hscope : ∀ name ∈ typeNames context, InScope modules read name)
    (hrefers : context.api.RefersToItself) :
    ∀ type ∈ types.declarations.map Declaration.readType, Scoped modules read type.mentioned := by
  have hnames := h.isFor.forall_types (isKept_hasNames (typeNames context)).string
    ⟨by simp, by simp⟩ hrefers (fun type => hasNames_of_mem_allTypes hrefers) fun name hname =>
      ⟨List.forall_mem_singleton.2 (List.mem_append_left _ hname), by simp⟩
  refine List.forall_mem_map.2 fun declaration hmem => ?_
  have htext : ∀ type ∈ declaration.body.types, Scoped modules read (lexemes (typeText type)) ∧
      Scoped modules read (lexemes (atomText type)) := by
    intro type htype
    have hwords := ((h.wellNamed declaration hmem).types type htype).hasWords
    have himports := h.typeImports_subset hmem type htype
    exact ⟨scoped_typeText hscope hwords (hnames declaration hmem type htype) himports,
      scoped_atomText hscope hwords (hnames declaration hmem type htype) himports⟩
  have hvariants := (h.wellNamed declaration hmem).types
  obtain ⟨name, description, body⟩ := declaration
  cases body with
  | unit => simp [Scoped, Declaration.readType, ReadType.mentioned, ReadType.fields]
  | record selectors options label =>
    intro lexeme hlexeme hname
    simp only [Declaration.readType, ReadType.mentioned, ReadType.fields, List.flatMap_singleton,
      List.append_nil, List.flatMap_map, List.mem_flatMap] at hlexeme
    obtain ⟨selector, hselector, hlexeme⟩ := hlexeme
    exact (htext _ (List.mem_map_of_mem hselector)).1 lexeme hlexeme hname
  | enum title constructors =>
    simp [Scoped, Declaration.readType, ReadType.mentioned, ReadType.fields]
  | union constructors discriminator =>
    intro lexeme hlexeme hname
    obtain ⟨entry, hentry, rfl⟩ : ∃ entry ∈ constructors, entry.2 = lexeme := by
      simpa [Declaration.readType, ReadType.mentioned, ReadType.fields, List.mem_flatMap,
        eq_comm] using hlexeme
    have htype := List.mem_map_of_mem (f := fun entry : String × String => DataType.named entry.2)
      hentry
    have hword := ((hvariants _ htype).models entry.2 List.mem_cons_self).word
    refine (htext _ htype).1 entry.2 ?_ hname
    rw [typeText, hword.lexemes_eq]
    exact List.mem_cons_self
  | newtype type =>
    simpa [Declaration.readType, ReadType.mentioned, ReadType.fields] using
      (htext type List.mem_cons_self).2

/-- Every instance in the module is one of a declaration. -/
theorem TypesModule.IsReadFrom.exists_mem_instances {rest : List String}
    (hmem : "instance" :: rest ∈ read) : ∃ declaration ∈ types.declarations, ∃ part instances,
      declaration.IsReadAs part instances ∧ "instance" :: rest ∈ instances := by
  obtain ⟨parts, hparts, rfl⟩ := h.parts
  obtain hhead | hpart := List.mem_append.1 hmem
  · obtain ⟨word, hword, hhead⟩ := head?_of_mem_headDeclarations _ hhead
    obtain rfl : "instance" = word := Option.some.inj hhead
    exact absurd hword (by decide)
  · obtain ⟨part, hpart, hmem⟩ := List.mem_flatten.1 hpart
    obtain ⟨declaration, hdeclaration, instances, hread⟩ :=
      Outcomes.exists_of_mem_of_forall₂ hparts hpart
    refine ⟨declaration, hdeclaration, part, instances, hread, ?_⟩
    rw [hread.read, List.mem_cons, List.mem_append] at hmem
    obtain heq | hinstance | hfunction := hmem
    · have hkeyword : "instance" = declaration.keyword := congrArg (List.headD · "") heq
      unfold Declaration.keyword at hkeyword
      split at hkeyword <;> simp at hkeyword
    · exact hinstance
    · obtain ⟨name, hname, hhead⟩ := Declaration.head?_of_mem_functions _ hfunction
      obtain rfl : "instance" = name := Option.some.inj hhead
      have hspelled := (h.wellNamed declaration hdeclaration).isSpelled_functionNames _ hname
      exact absurd (by decide) (notMem_keywords_of_isSpelled hspelled)

/-- The only types in instances are those of tags, which are texts. -/
theorem TypesModule.IsReadFrom.scoped_annotations (modules : ReadModules) :
    ∀ body ∈ read.filterMap instanceBody?, ∀ type ∈ annotations body,
      Scoped modules read type := by
  intro body hbody type htype
  obtain ⟨own, hown, hbody⟩ := List.mem_filterMap.1 hbody
  obtain ⟨className, name, rfl⟩ : ∃ className name,
      own = "instance" :: className :: name :: "where" :: body := by
    unfold instanceBody? at hbody
    split at hbody
    · obtain rfl := Option.some.inj hbody
      exact ⟨_, _, rfl⟩
    · simp at hbody
  obtain ⟨declaration, hmem, part, instances, hread, hown⟩ := h.exists_mem_instances hown
  obtain ⟨_, _, heq, hannotated⟩ := hread.annotated _ hown
  obtain ⟨rfl, rfl, rfl⟩ : _ ∧ _ ∧ body = _ := by simpa using heq
  have hallowed := hannotated type htype
  have himports : declaration.body.imports ⊆ types.imports := fun entry hentry =>
    List.mem_append_right _ (List.mem_flatMap.2 ⟨declaration, hmem, hentry⟩)
  unfold DeclarationBody.annotated at hallowed
  unfold DeclarationBody.imports at himports
  split at hallowed
  · obtain rfl := List.mem_singleton.1 hallowed
    have htext : ⟨"Data.Text", "Text"⟩ ∈ importsOf read :=
      h.mem_importsOf (himports (by simp_all)) (by decide)
    refine List.forall_mem_singleton.2 fun _ => ?_
    exact @InScope.imported _ _ ⟨"Data.Text", "Text"⟩ (by decide) htext
  · simp at hallowed

end Types

/-! ## A lowered interface -/

/-- What is read of what a template makes: nothing where it makes no file. -/
def declarationsIn : Rendered → List (List String)
  | .file text _ => declarationsOf text
  | .elided => []

/-- The types that the two modules of an interface mention are in scope where they stand. -/
structure TypesInScope (context : RenderContext) (modules : ReadModules) : Prop where
  /-- Every declaration of a type is read. -/
  found : typesIn? modules.types = some modules.declared
  /-- The kind of the parameter of the record of handlers. -/
  kind : ⟨"Data.Kind", "Type"⟩ ∈ importsOf modules.api
  /-- What is written for each operation. -/
  endpoints : ∀ operation ∈ context.api.operations, ScopedEndpoint context modules operation
  /-- What is read of it in the text, which a root marker could break. -/
  text : context.target.rootMarker = "" → context.api.operations ≠ [] → ScopedText context modules
  /-- The types of fields and the types behind constructors. -/
  declared : ∀ type ∈ modules.declared, Scoped modules modules.types type.mentioned
  /-- The types that instances annotate. -/
  annotated : ∀ body ∈ modules.types.filterMap instanceBody?, ∀ type ∈ annotations body,
    Scoped modules modules.types type

open Lowering (run Notice)

/-- Whatever document an interface was lowered from, and whatever was set for the target, every type
that its two modules mention is in scope where it is mentioned; the module of the interface imports
the module of types wherever there is one. -/
theorem types_in_scope {document : Document} {settings : TargetSettings} {api : Api}
    {notices : List Notice}
    (h : run ⟨document, settings.apply target⟩ = some ⟨.ok api, notices⟩)
    (hkeys : document.tree.hasDistinctKeys = true) :
    let context : RenderContext := ⟨api, settings.apply target⟩
    ∃ text notes rendered declared, apiTemplate.render context .api = .ok (.file text notes) ∧
      typesTemplate.render context .api = .ok rendered ∧
      (rendered ≠ .elided →
        ["import", moduleName context ++ ".Types"] ∈ declarationsOf text) ∧
      TypesInScope context ⟨declarationsOf text, declarationsIn rendered,
        moduleName context ++ ".Types", declared⟩ := by
  intro context
  have hlegible := Lowering.legible_of_run_eq_ok h hkeys rfl
  have hrefers := hlegible.refers
  obtain ⟨text, notes, hapi, himports⟩ := @exists_importsHere context hrefers rfl
  obtain ⟨hnone, helided⟩ | ⟨types, typesText, hrender, hread⟩ := elided_or_isReadFrom h hkeys
  · let modules : ReadModules := ⟨declarationsOf text, [], moduleName context ++ ".Types", []⟩
    have hscoped := @ImportsHere.scopedEndpoints context modules hlegible himports
      (by simp [hnone, context])
    refine ⟨text, notes, .elided, [], hapi, helided, fun hfile => absurd rfl hfile, rfl,
      himports.kind, hscoped,
      fun hmarker hne => scopedText hlegible rfl hmarker hne hapi rfl hscoped, ?_, ?_⟩ <;>
    simp [declarationsIn]
  · have himported : ["import", moduleName context ++ ".Types"] ∈ declarationsOf text := by
      refine himports.types (Bool.of_not_eq_false fun hhas => ?_)
      have helided := (@render_typesTemplate context hrefers).1 hhas
      exact absurd (Except.ok.inj (helided.symm.trans hrender)) Rendered.noConfusion
    let modules : ReadModules := ⟨declarationsOf text, declarationsOf typesText,
      moduleName context ++ ".Types", types.declarations.map Declaration.readType⟩
    have hscope (own) (hseen : own = modules.types ∨ ["import", modules.typesName] ∈ own) :
        ∀ name ∈ typeNames context, InScope modules own name := hread.inScope rfl rfl hseen
    have hscoped := @ImportsHere.scopedEndpoints context modules hlegible himports
      (hscope _ (.inr himported))
    exact ⟨text, notes, _, modules.declared, hapi, hrender, fun _ => himported,
      hread.typesIn?_eq, himports.kind, hscoped,
      fun hmarker hne => scopedText hlegible rfl hmarker hne hapi rfl hscoped,
      hread.scoped_mentioned (hscope _ (.inl rfl)) hrefers, hread.scoped_annotations modules⟩

/-- Types from every library, in headers, records, a map, and a union that is told apart by a
tag. -/
theorem types_in_scope_everywhere :
    let strings : Json := .object [("type", .string "string")]
    let formatted (format : String) : Json :=
      .object [("type", .string "string"), ("format", .string format)]
    let model (name : String) : Json := .object [("$ref", .string ("#/definitions/" ++ name))]
    let tree : Json := .object [
      ("info", .object []),
      ("paths", .object [("/pets/{id}", .object [("get", .object [
        ("operationId", .string "get pet"),
        ("parameters", .array [
          .object [("name", .string "id"), ("in", .string "path"), ("required", .bool true),
            ("schema", formatted "uuid")],
          .object [("name", .string "since"), ("in", .string "query"),
            ("schema", formatted "date-time")]]),
        ("responses", .object [("200", .object [
          ("headers", .object [("X-Kind", .object [("schema", .object [
            ("enum", .array [.string "big"])])])]),
          ("content", .object [("application/json", .object [("schema", model "Pet")])])])])])])]),
      ("definitions", .object [
        ("Pet", .object [("oneOf", .array [model "Cat", model "Dog"]),
          ("discriminator", .object [("propertyName", .string "kind")])]),
        ("Cat", .object [("properties", .object [("born", formatted "date"),
          ("more", .object [("additionalProperties", .bool true)])])]),
        ("Dog", .object [("type", .string "array"), ("items", strings)])])]
    let settings : TargetSettings := {}
    ∃ document api notices, Document.ofTree tree = .ok document ∧
      tree.hasDistinctKeys = true ∧
      run ⟨document, settings.apply target⟩ = some ⟨.ok api, notices⟩ ∧
      api.operations.length = 1 ∧
      typeNames ⟨api, settings.apply target⟩ = ["Pet", "Cat", "Dog", "GetPetXKindHeader"] ∧
      ∃ text notes rendered declared,
        apiTemplate.render ⟨api, settings.apply target⟩ .api = .ok (.file text notes) ∧
        typesTemplate.render ⟨api, settings.apply target⟩ .api = .ok rendered ∧
        (rendered ≠ .elided →
          ["import", moduleName ⟨api, settings.apply target⟩ ++ ".Types"] ∈
            declarationsOf text) ∧
        TypesInScope ⟨api, settings.apply target⟩ ⟨declarationsOf text, declarationsIn rendered,
          moduleName ⟨api, settings.apply target⟩ ++ ".Types", declared⟩ := by
  intro strings formatted model tree settings
  have hview : ((Document.ofTree tree).toOption.bind fun document =>
      (run ⟨document, settings.apply target⟩).bind fun result => result.outcome.toOption.map
        fun api => (api.operations.length, typeNames ⟨api, settings.apply target⟩)) =
      some (1, ["Pet", "Cat", "Dog", "GetPetXKindHeader"]) := by
    decide +kernel
  have hkeys : tree.hasDistinctKeys = true := by decide +kernel
  obtain ⟨document, api, notices, hdocument, hrun, hread⟩ := Lowering.exists_run_of_view hview
  obtain ⟨hoperations, hnames⟩ := Prod.mk.inj hread
  obtain rfl := Document.eq_of_ofTree hdocument
  exact ⟨_, api, notices, hdocument, hkeys, hrun, hoperations, hnames,
    types_in_scope hrun hkeys⟩

end ServantGen.Haskell
